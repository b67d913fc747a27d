import MathMarkup.Proofs.Parser.Standalone
import MathMarkup.Proofs.Termination

/-!
# What a limit on nesting cuts off

A parse takes no notice of the limit on nesting until it is refused a scope. So two parses of the
same source that differ in the limit alone go alike, unless the one with the lower limit is refused
one (`Parser.matched_cutOff`): a higher limit changes no tree and hides no other error.

Each scope takes a token, so that a parse which may open as many scopes as there are tokens is never
refused one.
-/

namespace MathMarkup

/-- An integer as a limit. -/
def Limit.ofInt (d : Int) (h : 1 ≤ d) : Limit :=
  ⟨.int d, by
    rw [Number.isBelow_int, decide_eq_false_iff_not]
    omega⟩

/-- The options with another limit on nesting. -/
def Options.withDepth (o : Options) (limit : Limit) : Options :=
  { o with maxNestingDepth := limit }

namespace Parser

variable {tokens : List Token} {limit limit' : Limit}

/-- Two runs under a lower and a higher limit on nesting. The run under the lower one is excused
where it is refused a scope. -/
def cutOff (limit : Limit) (tokens : List Token) : Pairing where
  left := fun e => ∃ t, e = .located (.tooDeep limit.number) t
  right := fun _ => False
  node := Eq
  tokens := tokens

theorem relates_cutOff (grammar : Grammar) (options : Options) (source : Text)
    (limit limit' : Limit) (tokens : List Token) :
    Relates (cutOff limit tokens) ⟨grammar, options.withDepth limit, source⟩
      ⟨grammar, options.withDepth limit', source⟩ where
  closed := Or.inl ⟨rfl, rfl⟩
  fitting := fitting_eq
  grammar := rfl
  raw _ _ _ := rfl
  commandText _ _ h := h.symm
  columns h := by rw [h]
  unknownCommand _ _ _ := Or.inl rfl
  unknownEnvironment _ _ _ _ := Or.inl rfl
  textNode _ _ := rfl
  placedNode _ h := by
    rw [h]
    rfl

/-- Where at least as many scopes may be opened, the same tokens are read alike. -/
theorem matched_cutOff {grammar : Grammar} {options : Options} {source : Text}
    (hle : allowance ⟨grammar, options.withDepth limit, source⟩ { rest := tokens } ≤
      allowance ⟨grammar, options.withDepth limit', source⟩ { rest := tokens }) :
    Matched (cutOff limit tokens) (readTokens ⟨grammar, options.withDepth limit, source⟩ tokens)
      (readTokens ⟨grammar, options.withDepth limit', source⟩ tokens) := by
  have hs := relates_cutOff grammar options source limit limit' tokens
  have hstart := joined_start (P := cutOff limit tokens) ⟨rfl, rfl⟩ rfl
    (map_moved_eq_self fun _ _ => rfl)
  have hrefused : ∀ t, (cutOff limit tokens).left
      (tooDeep ⟨grammar, options.withDepth limit, source⟩ t) := fun t => ⟨t, rfl⟩
  have hruns := agree_expression hs (.refl fun _ => rfl : StopFits _ noStop noStop) hstart
    (fun _ t => Or.inr (Or.inl (hrefused t))) (fun _ => hrefused)
    fun hmore => absurd hmore (Nat.not_lt_of_le hle)
  exact matched_of_agree (hruns.mono (fun _ hd => hd.1 rfl) fun _ _ _ _ h => h.2)

theorem allowance_ofInt (grammar : Grammar) (options : Options) (source : Text) {d : Int}
    (hd : 1 ≤ d) (tokens : List Token) :
    allowance ⟨grammar, options.withDepth (.ofInt d hd), source⟩ { rest := tokens } = d.toNat :=
  rfl

end Parser

/-- The limit on nesting only cuts off. Whatever a parse within a limit gives, a tree or an error
other than that of the limit, it gives within every higher one; and for every source there is a
limit from which on the limit is no matter, whatever the grammar and the options. -/
theorem parse_maxNestingDepth (source : Text) :
    (∀ (grammar : Grammar) (options : Options) (d d' : Int) (hd : 1 ≤ d) (hd' : 1 ≤ d'), d ≤ d' →
      (∀ node, (parse grammar (options.withDepth (.ofInt d hd)) source).value = .ok node →
        (parse grammar (options.withDepth (.ofInt d' hd')) source).value = .ok node) ∧
      ∀ e, (parse grammar (options.withDepth (.ofInt d hd)) source).value = .error e →
        e.cause ≠ .tooDeep (.int d) →
          (parse grammar (options.withDepth (.ofInt d' hd')) source).value = .error e) ∧
    ∃ bound : Int, ∀ (grammar : Grammar) (options : Options) (d : Int) (hd : 1 ≤ d), bound ≤ d →
      ∀ e, (parse grammar (options.withDepth (.ofInt d hd)) source).value = .error e →
        ∀ limit, e.cause ≠ .tooDeep limit := by
  refine ⟨fun grammar options d d' hd hd' hle => ?_, (Token.tokenize source).length,
    fun grammar options d hd hbound e he => ?_⟩
  · have hmatched : Parser.Matched (Parser.cutOff (.ofInt d hd) (Token.tokenize source))
        (Parser.readTokens ⟨grammar, options.withDepth (.ofInt d hd), source⟩
          (Token.tokenize source))
        (Parser.readTokens ⟨grammar, options.withDepth (.ofInt d' hd'), source⟩
          (Token.tokenize source)) := Parser.matched_cutOff (Int.toNat_le_toNat hle)
    rw [← Parser.value_parse_eq_readTokens, ← Parser.value_parse_eq_readTokens] at hmatched
    generalize (parse grammar (options.withDepth (.ofInt d hd)) source).value = lower
      at hmatched ⊢
    generalize (parse grammar (options.withDepth (.ofInt d' hd')) source).value = higher
      at hmatched ⊢
    cases hmatched with
    | ok hnode =>
      obtain rfl := hnode
      exact ⟨fun _ h => h, fun _ h => (nomatch h)⟩
    | error herror =>
      obtain rfl := herror.eq fun _ => rfl
      exact ⟨fun _ h => (nomatch h), fun _ h _ => h⟩
    | left _ hrefused =>
      obtain ⟨t, rfl⟩ := hrefused
      refine ⟨fun _ h => (nomatch h), fun e h hother => ?_⟩
      cases h
      exact absurd rfl hother
    | right _ h => exact h.elim
  · rw [Parser.value_parse] at he
    split at he
    · cases he
    · next hrun =>
      cases he
      refine Parser.cause_ne_tooDeep ?_ hrun
      rw [Parser.allowance_ofInt]
      dsimp only
      omega

/-- A group, and the same group behind a brace that is not closed. For the first a single scope will
do; for the second it is too few, and two are as good as any more. -/
theorem parse_maxNestingDepth_open :
    (parse (Grammar.ofSymbols ⟨fun _ => []⟩).value
      (({} : Options).withDepth (.ofInt 50 (by decide))) "\x7bx\x7d").value =
      .ok (.identifier "x") ∧
    (parse (Grammar.ofSymbols ⟨fun _ => []⟩).value
      (({} : Options).withDepth (.ofInt 1 (by decide))) "\x7b\x7bx\x7d").value =
      .error (.located (.tooDeep (.int 1)) ⟨.brace, "\x7b", ⟨1, 1, 2⟩⟩) ∧
    (parse (Grammar.ofSymbols ⟨fun _ => []⟩).value
      (({} : Options).withDepth (.ofInt 50 (by decide))) "\x7b\x7bx\x7d").value =
      .error (.located .openBrace ⟨.brace, "\x7b", {}⟩) := by
  have hgroup : (parse (Grammar.ofSymbols ⟨fun _ => []⟩).value
      (({} : Options).withDepth (.ofInt 1 (by decide))) "\x7bx\x7d").value =
      .ok (.identifier "x") := rfl
  have hopen : (parse (Grammar.ofSymbols ⟨fun _ => []⟩).value
      (({} : Options).withDepth (.ofInt 2 (by decide))) "\x7b\x7bx\x7d").value =
      .error (.located .openBrace ⟨.brace, "\x7b", {}⟩) := rfl
  have hgroup' := ((parse_maxNestingDepth "\x7bx\x7d").1
    (Grammar.ofSymbols ⟨fun _ => []⟩).value {} 1 50 (by decide) (by decide) (by decide)).1
  have hopen' := ((parse_maxNestingDepth "\x7b\x7bx\x7d").1
    (Grammar.ofSymbols ⟨fun _ => []⟩).value {} 2 50 (by decide) (by decide) (by decide)).2
  exact ⟨hgroup' _ hgroup, rfl, hopen' _ hopen nofun⟩

end MathMarkup
