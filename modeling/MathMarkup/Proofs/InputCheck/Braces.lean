import MathMarkup.Proofs.InputCheck.Counted
import MathMarkup.Proofs.InputCheck.Report
import MathMarkup.Proofs.Nesting

/-!
# The braces that the check of a source sees

The braces that count for the check of a source are the brace tokens of the source. So the check
reports nothing about braces exactly if these form a Dyck word, which they do in every source that
parses (`InputCheck.braces_agree`).
-/

namespace MathMarkup

namespace InputCheck

variable {source : Text} {t : Token}

/-- The code point of a delimiter. -/
def Mark.shown (m : Mark) : CodePoint :=
  .scalar (if m.opens then m.pair.opening else m.pair.closing)

theorem shown_of_markAt? {offset : Nat} {c : CodePoint} {m : Mark}
    (h : markAt? offset c = some m) : m.shown = c := by
  obtain ⟨p, hp, rfl⟩ := Option.map_eq_some_iff.mp h
  have hfound := List.find?_some hp
  simp only [Bool.or_eq_true, decide_eq_true_eq] at hfound
  by_cases hopen : c = .scalar p.opening
  · rw [Mark.shown, if_pos (decide_eq_true hopen), hopen]
  · rw [Mark.shown, if_neg (by simpa using hopen), ← hfound.resolve_left hopen]

/-- The kind of the tokens that are delimiters of a kind. -/
def Pair.kind : Pair → Token.Kind
  | .brace => .brace
  | .bracket => .bracket
  | .parenthesis => .symbol

theorem kind_of_tokenMark? (ht : t ∈ Token.tokenize source) {m : Mark}
    (hm : tokenMark? t = some m) : t.kind = m.pair.kind := by
  obtain ⟨c, rest, hlexeme, hvalue⟩ := Token.lexeme_of_mem_tokenize ht
  have hc : c = m.shown := by
    unfold tokenMark? at hm
    split at hm
    · next d hd =>
      rw [hvalue] at hd
      rw [shown_of_markAt? hm, (List.cons.inj hd).1]
    · cases hm
  rw [hlexeme, hc, Mark.shown]
  cases m.pair <;> cases m.opens <;> rfl

/-- A brace token as a delimiter. -/
def braceMark (t : Token) : Mark :=
  ⟨t.offset.toNat, .brace, t.isOpenBrace⟩

theorem value_of_brace (ht : t ∈ Token.tokenize source) (hkind : t.kind = .brace) :
    t.value = [(braceMark t).shown] := by
  rcases Token.isBrace_of_mem_tokenize ht hkind with h | h
  · have hopens : (braceMark t).opens = true := h
    rw [(Token.is_iff.mp h).2, Mark.shown, hopens]
    rfl
  · have hopens : (braceMark t).opens = false := Parser.not_isOpenBrace_of_isCloseBrace h
    rw [(Token.is_iff.mp h).2, Mark.shown, hopens]
    rfl

theorem isSizedDelimiter_of_brace (ht : t ∈ Token.tokenize source) (hkind : t.kind = .brace) :
    isSizedDelimiter t = false := by
  rw [isSizedDelimiter, value_of_brace ht hkind, Mark.shown]
  cases (braceMark t).opens <;> rfl

theorem tokenMark?_of_brace (ht : t ∈ Token.tokenize source) (hkind : t.kind = .brace) :
    tokenMark? t = some (braceMark t) := by
  rcases Token.isBrace_of_mem_tokenize ht hkind with h | h
  · rw [tokenMark?, (Token.is_iff.mp h).2, braceMark, h]
    rfl
  · rw [tokenMark?, (Token.is_iff.mp h).2, braceMark, Parser.not_isOpenBrace_of_isCloseBrace h]
    rfl

theorem pair_ne_brace (ht : t ∈ Token.tokenize source) (hkind : t.kind ≠ .brace) {m : Mark}
    (hm : tokenMark? t = some m) : m.pair ≠ .brace := by
  intro hp
  rw [kind_of_tokenMark? ht hm, hp] at hkind
  exact hkind rfl

/-- No brace is the delimiter of a sized command, so all of them count. -/
theorem filter_counted (before : Option Token) {w : List Token}
    (hw : ∀ t ∈ w, t ∈ Token.tokenize source) :
    (counted source before w).filter (·.pair = .brace) =
      (w.filter (·.kind = .brace)).map braceMark := by
  induction w generalizing before with
  | nil => rfl
  | cons t w ih =>
    have ht := hw t List.mem_cons_self
    have hlater := ih (some t) fun x hx => hw x (List.mem_cons_of_mem _ hx)
    by_cases hkind : t.kind = .brace
    · have hcounts : ∀ s ∈ before, isSizedBy source s t = false := by
        simp [isSizedBy, isSizedDelimiter_of_brace ht hkind]
      rw [counted_cons hcounts, tokenMark?_of_brace ht hkind,
        List.filter_cons_of_pos (by simp [hkind]), List.map_cons, ← hlater]
      rfl
    · rw [List.filter_cons_of_neg (by simp [hkind]), ← hlater, counted]
      split
      · rfl
      · rw [List.filter_append, List.filter_eq_nil_iff.mpr, List.nil_append]
        intro m hm
        simpa using pair_ne_brace ht hkind (Option.mem_toList.mp hm)

theorem filter_marks (source : Text) : (marks 0 0 source).filter (·.pair = .brace) =
    ((Token.tokenize source).filter (·.kind = .brace)).map braceMark := by
  rw [marks_eq_counted, filter_counted none fun _ ht => ht]

theorem filterMap_step? (source : Text) : (marks 0 0 source).filterMap (Mark.step? .brace) =
    (Token.tokenize source).filterMap Parser.braceStep? := by
  have hfilter : (marks 0 0 source).filterMap (Mark.step? .brace) =
      ((marks 0 0 source).filter (·.pair = .brace)).filterMap (Mark.step? .brace) := by
    rw [List.filterMap_filter]
    refine List.filterMap_congr fun m _ => ?_
    by_cases hp : m.pair = .brace <;> simp [Mark.step?, hp]
  rw [hfilter, filter_marks, List.filterMap_map, List.filterMap_filter]
  refine List.filterMap_congr fun t ht => ?_
  by_cases hkind : t.kind = .brace
  · rcases Token.isBrace_of_mem_tokenize ht hkind with h | h
    · simp [hkind, Mark.step?, braceMark, Parser.braceStep?, h]
    · simp [hkind, Mark.step?, braceMark, Parser.braceStep?, h,
        Parser.not_isOpenBrace_of_isCloseBrace h]
  · simp [hkind, Parser.braceStep?, Token.isOpenBrace, Token.isCloseBrace, Token.isBrace, Token.is]

/-- Nothing is reported about the braces exactly if the tokens that are braces balance. -/
theorem not_reports_brace_heads_iff (source : Text) (limit : Number) :
    ¬ Reports (check limit (.text source)) Pair.brace.heads ↔
      Parser.BracesBalance (Token.tokenize source) := by
  rw [not_reports_heads_iff, filterMap_step?, Parser.BracesBalance, Parser.exists_dyckWord_iff]

/-- The lexer and the check of a source see the same braces. -/
theorem braces_agree (source : Text) :
    ((marks 0 0 source).filter (·.pair = .brace)).map
        (fun m => (([m.shown] : Text), (m.offset : Int))) =
      ((Token.tokenize source).filter (·.kind = .brace)).map (fun t => (t.value, t.offset)) ∧
    (∀ limit, ¬ Reports (check limit (.text source)) Pair.brace.heads ↔
      Parser.BracesBalance (Token.tokenize source)) ∧
    ∀ symbols options node limit,
      (parse (Grammar.ofSymbols symbols).value options source).value = .ok node →
      ¬ Reports (check limit (.text source)) Pair.brace.heads := by
  refine ⟨?_, not_reports_brace_heads_iff source, ?_⟩
  · rw [filter_marks, List.map_map]
    refine List.map_congr_left fun t ht => ?_
    obtain ⟨htoken, hkind⟩ := List.mem_filter.mp ht
    rw [value_of_brace htoken (of_decide_eq_true hkind)]
    obtain ⟨k, -, hk⟩ := Token.offset_of_mem_scan htoken
    have hnonneg : 0 ≤ t.offset := by
      rw [hk]
      exact Int.add_nonneg (Int.le_refl 0) (Int.natCast_nonneg k)
    exact congrArg (Prod.mk _) (Int.toNat_of_nonneg hnonneg)
  · intro symbols options node limit h
    exact (not_reports_brace_heads_iff source limit).mpr
      (Parser.nests_of_parse h).level.bracesBalance

/-- An escaped brace is no brace for either of them. -/
theorem braces_agree_escaped :
    (parse (Grammar.ofSymbols ⟨fun _ => []⟩).value {} "\\\x7b\x7bx\x7d").value =
      .ok (.row [.textElement "\\\x7b" [], .identifier "x"]) ∧
    ((Token.tokenize "\\\x7b\x7bx\x7d").filter (·.kind = .brace)).map
      (fun t => (t.value, t.offset)) = ([("\x7b", 2), ("\x7d", 4)] : List (Text × Int)) ∧
    Parser.BracesBalance (Token.tokenize "\\\x7b\x7bx\x7d") ∧
    ¬ Reports (check (.int 9) (.text "\\\x7b\x7bx\x7d")) Pair.brace.heads := by
  have hparse : (parse (Grammar.ofSymbols ⟨fun _ => []⟩).value {} "\\\x7b\x7bx\x7d").value =
      .ok (.row [.textElement "\\\x7b" [], .identifier "x"]) := by
    rw [Grammar.ofSymbols_nil]
    decide +kernel
  obtain ⟨hbraces, hreports, hparses⟩ := braces_agree "\\\x7b\x7bx\x7d"
  have hnone := hparses _ _ _ (.int 9) hparse
  exact ⟨hparse, hbraces.symm.trans (by decide), (hreports _).mp hnone, hnone⟩

end InputCheck

end MathMarkup
