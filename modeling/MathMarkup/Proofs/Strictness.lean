import MathMarkup.Proofs.Location
import MathMarkup.Proofs.Parser.Standalone

/-!
# Strict parses

A strict parse refuses commands and environments that are not known, and in all else goes on like a
permissive one. So the two are compared as runs of one parser on the same tokens: either they give
the same, or the strict one is stopped by a name that is not known (`UnknownName`).

The check of an environment's name comes before the search for its end, so that a strict parse may
report a name where a permissive one finds the environment not closed.
-/

namespace MathMarkup

theorem Value.isTruthy_bool (b : Bool) : (Value.bool b).isTruthy = b := by
  cases b <;> rfl

namespace Parser

variable {grammar : Grammar} {options : Options} {tokens : List Token} {e : ParseError}

/-- The error about a name that is not known: that of a command among the tokens, if the options do
not allow such commands, or that of an environment, at the token that begins it. -/
def UnknownName (grammar : Grammar) (options : Options) (tokens : List Token) (e : ParseError) :
    Prop :=
  (options.allowUnknownCommands.isTruthy = false ∧ ∃ t ∈ tokens, t.kind = .command ∧
    grammar.commands.get? t.value = none ∧ e = .located (.unknownCommand t.value) t) ∨
  ∃ name t, Begins tokens name t ∧ grammar.environments.get? name = none ∧
    e = .named (.unknownEnvironment name) name t

theorem rejectsUnknown_eq (s : Setup) :
    rejectsUnknown s =
      (s.options.strictMode.isTruthy && !s.options.allowUnknownCommands.isTruthy) := by
  unfold rejectsUnknown Options.rejectsUnknownCommands
  cases hstrict : s.options.strictMode.isTruthy with
  | true => rw [if_pos rfl, Value.isTruthy_bool, Bool.true_and]
  | false => rw [if_neg Bool.false_ne_true, hstrict, Bool.false_and]

/-- A strict run on the left and a permissive one on the right. Only names that are not known are an
excuse for the strict run. -/
def strictness (grammar : Grammar) (options : Options) (tokens : List Token) : Pairing where
  left := UnknownName grammar options tokens
  right := fun _ => False
  node := Eq
  tokens := tokens

theorem relates_strictness (grammar : Grammar) (options : Options) (tokens : List Token)
    (source : Text) :
    Relates (strictness grammar options tokens)
      ⟨grammar, { options with strictMode := .bool true }, source⟩
      ⟨grammar, { options with strictMode := .bool false }, source⟩ where
  closed := Or.inl ⟨rfl, rfl⟩
  fitting := fitting_eq
  grammar := rfl
  raw _ _ _ := rfl
  commandText _ _ h := h.symm
  columns h := by rw [h]
  unknownCommand {t} ht hcommand hget := by
    rw [rejectsUnknown_eq, rejectsUnknown_eq]
    cases hallows : options.allowUnknownCommands.isTruthy with
    | true => exact Or.inl (by simp)
    | false =>
      exact Or.inr ⟨by simp [Value.isTruthy_bool],
        Or.inl ⟨hallows, t, ht, hcommand, hget, rfl⟩⟩
  unknownEnvironment {name t group rest} hsuffix hbegin hgroup hget := by
    obtain ⟨before, hbefore⟩ := hsuffix
    exact Or.inr ⟨rfl, Or.inr ⟨name, t, ⟨hbegin, before, group, rest, hbefore.symm, hgroup⟩, hget,
      rfl⟩⟩
  textNode _ _ := rfl
  placedNode _ h := by
    rw [h]
    rfl

theorem matched_strictMode (grammar : Grammar) (options : Options) (source : Text)
    (tokens : List Token) :
    Matched (strictness grammar options tokens)
      (readTokens ⟨grammar, { options with strictMode := .bool true }, source⟩ tokens)
      (readTokens ⟨grammar, { options with strictMode := .bool false }, source⟩ tokens) :=
  matched_readTokens (relates_strictness grammar options tokens source) ⟨rfl, rfl⟩ rfl rfl
    (map_moved_eq_self fun _ _ => rfl)

end Parser

/-- Strict mode adds nothing but refusals of names that are not known. A tree of a strict parse is
that of the permissive one. Where the permissive parse fails the strict one fails, too, with the
same error or with one about a name. Where only the strict parse fails its error is about a name:
that of a command that is not known and not allowed, or of an environment that is not known. -/
theorem parse_strictMode (grammar : Grammar) (options : Options) (source : Text) :
    (∀ node, (parse grammar { options with strictMode := .bool true } source).value = .ok node →
        (parse grammar { options with strictMode := .bool false } source).value = .ok node) ∧
      (∀ e, (parse grammar { options with strictMode := .bool false } source).value = .error e →
        ∃ e', (parse grammar { options with strictMode := .bool true } source).value = .error e' ∧
          (e' = e ∨ Parser.UnknownName grammar options (Token.tokenize source) e')) ∧
      ∀ node e, (parse grammar { options with strictMode := .bool false } source).value = .ok node →
        (parse grammar { options with strictMode := .bool true } source).value = .error e →
          Parser.UnknownName grammar options (Token.tokenize source) e := by
  have hmatched := Parser.matched_strictMode grammar options source (Token.tokenize source)
  rw [Parser.value_parse_eq_readTokens, Parser.value_parse_eq_readTokens]
  generalize Parser.readTokens ⟨grammar, { options with strictMode := .bool true }, source⟩ _ =
    strict at hmatched ⊢
  generalize Parser.readTokens ⟨grammar, { options with strictMode := .bool false }, source⟩ _ =
    permissive at hmatched ⊢
  cases hmatched with
  | ok hnode =>
    obtain rfl := hnode
    refine ⟨fun _ h => h, fun e h => ?_, fun _ e _ h => ?_⟩
    · cases h
    · cases h
  | error herror =>
    obtain rfl := herror.eq fun _ => rfl
    exact ⟨nofun, fun e h => ⟨e, h, Or.inl rfl⟩, fun _ _ h => nomatch h⟩
  | left _ hleft =>
    refine ⟨nofun, fun e _ => ⟨_, rfl, Or.inr hleft⟩, ?_⟩
    rintro node _ - ⟨⟩
    exact hleft
  | right _ hright => exact hright.elim

/-- The name of an environment is refused before its end is looked for. -/
theorem parse_strictMode_masked :
    (parse (Grammar.ofSymbols ⟨fun _ => []⟩).value { strictMode := .bool false }
      "\\begin\x7bfoo\x7dx").value =
      .error (.named (.neverClosed "foo" 0) "foo" ⟨.command, "\\begin", {}⟩) ∧
    (parse (Grammar.ofSymbols ⟨fun _ => []⟩).value { strictMode := .bool true }
      "\\begin\x7bfoo\x7dx").value =
      .error (.named (.unknownEnvironment "foo") "foo" ⟨.command, "\\begin", {}⟩) ∧
    Parser.UnknownName (Grammar.ofSymbols ⟨fun _ => []⟩).value {}
      (Token.tokenize "\\begin\x7bfoo\x7dx")
      (.named (.unknownEnvironment "foo") "foo" ⟨.command, "\\begin", {}⟩) := by
  have hpermissive : (parse (Grammar.ofSymbols ⟨fun _ => []⟩).value { strictMode := .bool false }
      "\\begin\x7bfoo\x7dx").value =
      .error (.named (.neverClosed "foo" 0) "foo" ⟨.command, "\\begin", {}⟩) := by
    rw [Grammar.ofSymbols_nil]
    decide +kernel
  have hstrict : (parse (Grammar.ofSymbols ⟨fun _ => []⟩).value { strictMode := .bool true }
      "\\begin\x7bfoo\x7dx").value =
      .error (.named (.unknownEnvironment "foo") "foo" ⟨.command, "\\begin", {}⟩) := by
    rw [Grammar.ofSymbols_nil]
    decide +kernel
  obtain ⟨e, he, hname⟩ := (parse_strictMode (Grammar.ofSymbols ⟨fun _ => []⟩).value {}
    "\\begin\x7bfoo\x7dx").2.1 _ hpermissive
  obtain rfl : e = _ := Except.error.inj (he.symm.trans hstrict)
  refine ⟨hpermissive, hstrict, hname.resolve_left fun heq => ?_⟩
  cases congrArg ParseError.cause heq

end MathMarkup
