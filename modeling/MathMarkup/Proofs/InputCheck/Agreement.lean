import MathMarkup.Proofs.InputCheck.Brackets
import MathMarkup.Proofs.InputCheck.Tags
import MathMarkup.Proofs.Lookup
import MathMarkup.Proofs.MatchingEnd
import MathMarkup.Proofs.Parser.NoRaw

/-!
# What the check reports of a source that parses

The check of a source is a quick look for what the parser refuses. Of a source that parses, and in
which nothing is raw, it reports nothing about braces, and something about brackets or environments
only where it reads the source otherwise than the lexer does (`InputCheck.reports_of_parse_eq_ok`).
-/

namespace MathMarkup

variable {options : Options} {source : Text} {node : Node}

/-- By default the word between a degree and a radicand is an ordinary one. -/
theorem Parser.role_of_isCommand_of {t : Token} (h : t.isCommand "\\of" = true) :
    role (Grammar.ofSymbols .default).value t = .plain := by
  obtain ⟨hkind, hvalue⟩ := Token.is_iff.mp h
  have hmark : marks.get? (t.kind, t.value) = none := by
    rw [hkind, hvalue, Assoc.get?_eq_none_iff]
    simp [marks]
  have hsized : isSized (Grammar.ofSymbols .default).value t = false := by
    rw [← Bool.not_eq_true]
    intro hsized
    obtain ⟨size, hmem⟩ := mem_delimiterSizes_of_isSized hsized
    rw [hvalue] at hmem
    obtain ⟨x, hx, heq⟩ := List.mem_map.mp hmem
    have hall : ∀ x ∈ Symbol.Default.delimiterSizes, x.1 ≠ "\\of" := by
      simp [Symbol.Default.delimiterSizes]
    exact hall x hx (Text.ofString_inj.mp (Prod.mk.inj heq).1)
  unfold role
  rw [hmark, hsized, hkind]
  rfl

namespace InputCheck

/-- What is reported of a source that parses. No more than that a sized command is parted from its
bracket is behind a report about brackets, and behind one about environments that a `\begin` or
`\end` is parted from its brace, that a line break makes a tag with what follows, or that a name is
written in two ways. -/
theorem reports_of_parse_eq_ok
    (hraw : Parser.NoRaw (Grammar.ofSymbols .default).value (Token.tokenize source))
    (h : (parse (Grammar.ofSymbols .default).value options source).value = .ok node)
    (limit : Number) :
    ¬ Reports (check limit (.text source)) Pair.brace.heads ∧
    (Reports (check limit (.text source)) Pair.bracket.heads → PartsSized source) ∧
    (Reports (check limit (.text source)) tagHeads →
      PartsTag source ∨ BreaksIntoTag source ∨ VariesName source) := by
  have hg := Grammar.regular_ofSymbols .default
  have hbalanced := Parser.balanced_of_parse (fun _ => Parser.role_of_isCommand_of) hraw h
  refine ⟨?_, fun hreports => ?_, fun hreports => ?_⟩
  · exact (not_reports_brace_heads_iff source limit).mpr
      (Parser.nests_of_parse h).level.bracesBalance
  · by_contra hparted
    exact not_reports_bracket_heads hg (fun _ => isSizedCommand_eq) hparted hbalanced limit hreports
  · by_contra hcauses
    simp only [not_or] at hcauses
    obtain ⟨hparted, hbreaks, hvaries⟩ := hcauses
    exact not_reports_tagHeads hg hparted hbreaks hvaries hbalanced limit hreports

/-- An environment with sized brackets in it, and a script behind it. No token is parted from what
follows, so that nothing misleads the check. -/
theorem reports_of_parse_eq_ok_matrix :
    Parser.NoRaw (Grammar.ofSymbols .default).value
      (Token.tokenize "\\begin\x7bmatrix\x7d\\bigl[x\\bigr]\\end\x7bmatrix\x7d^2") ∧
    (∃ node, (parse (Grammar.ofSymbols .default).value {}
      "\\begin\x7bmatrix\x7d\\bigl[x\\bigr]\\end\x7bmatrix\x7d^2").value = .ok node) ∧
    ¬ Reports (check (.int 99)
      (.text "\\begin\x7bmatrix\x7d\\bigl[x\\bigr]\\end\x7bmatrix\x7d^2")) Pair.brace.heads ∧
    ¬ Reports (check (.int 99)
      (.text "\\begin\x7bmatrix\x7d\\bigl[x\\bigr]\\end\x7bmatrix\x7d^2")) Pair.bracket.heads ∧
    ¬ Reports (check (.int 99)
      (.text "\\begin\x7bmatrix\x7d\\bigl[x\\bigr]\\end\x7bmatrix\x7d^2")) tagHeads := by
  have hparse : (∀ t ∈ Token.tokenize "\\begin\x7bmatrix\x7d\\bigl[x\\bigr]\\end\x7bmatrix\x7d^2",
        Parser.readsRaw (Grammar.ofSymbols .default).value t = false) ∧
      (parse (Grammar.ofSymbols .default).value {}
        "\\begin\x7bmatrix\x7d\\bigl[x\\bigr]\\end\x7bmatrix\x7d^2").value.toOption.isSome =
          true := by
    rw [Symbol.Table.value_ofSymbols_default]
    decide +kernel
  generalize hsource : Text.ofString "\\begin\x7bmatrix\x7d\\bigl[x\\bigr]\\end\x7bmatrix\x7d^2" =
    source at hparse ⊢
  have hnames : ∀ w ∈ (Token.tokenize source).tails, ∀ name ∈ Parser.nameAt? w.tail,
      name = Text.ofString "matrix" := by
    rw [← hsource]
    decide +kernel
  have hclose : (Token.tokenize source).IsChain fun s t =>
      (gapBetween source s t).all CodePoint.isSpace = true := by
    rw [← hsource]
    decide
  have hbreaks : ∀ t ∈ Token.tokenize source, breakTag? source t = none := by
    rw [← hsource]
    decide +kernel
  have htags : ∀ tag ∈ (Token.tokenize source).filterMap (tagOf? source),
      tag.name = Text.ofString "matrix" := by
    rw [← hsource]
    decide +kernel
  have hraw : Parser.NoRaw (Grammar.ofSymbols .default).value (Token.tokenize source) := by
    refine ⟨hparse.1, ?_⟩
    rintro name t ⟨-, before, n, after, htokens, hname⟩
    have hat := Parser.nameAt?_eq_some_iff.mpr ⟨n, after, rfl, hname⟩
    rw [hnames (t :: (n ++ after)) ((List.mem_tails _ _).mpr ⟨before, htokens.symm⟩) name hat]
    rfl
  have hunparted : ∀ s t, ¬Parted source s t := by
    rintro s t ⟨hpair, b, hb, hblank⟩
    have hchain := hclose.infix hpair
    rw [List.isChain_cons_cons] at hchain
    exact absurd (List.all_eq_true.mp hchain.1 b hb) (by simp [hblank])
  obtain ⟨node, hnode⟩ := exists_of_isSome_toOption hparse.2
  obtain ⟨hbrace, hbracket, htag⟩ := reports_of_parse_eq_ok hraw hnode (.int 99)
  refine ⟨hraw, ⟨node, hnode⟩, hbrace, fun hreports => ?_, fun hreports => ?_⟩
  · obtain ⟨s, d, -, -, hparted⟩ := hbracket hreports
    exact hunparted s d hparted
  · rcases htag hreports with ⟨opens, b, d, -, -, hparted⟩ | ⟨t, ht, hbreak⟩ | h
    · exact hunparted b d hparted
    · rw [hbreaks t ht] at hbreak
      cases hbreak
    · obtain ⟨s, hs, t, ht, a, ha, b, hb, hne, -⟩ := h
      have hfirst := htags a (List.mem_filterMap.mpr ⟨s, hs, ha⟩)
      exact hne (hfirst.trans (htags b (List.mem_filterMap.mpr ⟨t, ht, hb⟩)).symm)

end InputCheck

end MathMarkup
