import MathMarkup.Proofs.Conversion
import MathMarkup.Proofs.Spelling

/-!
# The document of a failed conversion

Where a source gives no tree, the result holds a document that shows the start of the source. The
code points that are shown may all stand in a document, with two exceptions: U+FFFE and U+FFFF are
neither control characters nor surrogates, and yet no document may hold them. So the document passes
the check of markup exactly if neither of them is among what is shown (`Converter.check_of_failed`).
A value that is no text is spelled without them.
-/

namespace MathMarkup

namespace CodePoint

theorem eq_scalar_iff {c : CodePoint} {d : Char} : c = .scalar d ↔ c.toNat = d.toNat := by
  rw [← toNat_inj, scalar_toNat]

theorem toNat_lt (c : CodePoint) : c.toNat < 0x110000 := by
  cases c with
  | scalar d =>
    have hd : d.toNat < 0xD800 ∨ (0xDFFF < d.toNat ∧ d.toNat < 0x110000) := d.valid
    rw [scalar_toNat]
    omega
  | surrogate n =>
    have hn := n.isLt
    simp only [toNat]
    omega

theorem isSurrogate_eq_false_iff {c : CodePoint} :
    c.isSurrogate = false ↔ c.toNat < 0xD800 ∨ 0xDFFF < c.toNat := by
  cases c with
  | scalar d =>
    have hd : d.toNat < 0xD800 ∨ (0xDFFF < d.toNat ∧ d.toNat < 0x110000) := d.valid
    simp only [isSurrogate, scalar_toNat, true_iff]
    omega
  | surrogate n =>
    have hn := n.isLt
    simp only [isSurrogate, toNat, Bool.true_eq_false, false_iff]
    omega

end CodePoint

namespace Converter

/-! ## What is shown -/

/-- Whether the code point is one of the two that are shown although no document may hold them: the
rule for what is shown misses them. -/
def isMissed (c : CodePoint) : Bool :=
  c = .scalar '\ufffe' || c = .scalar '\uffff'

/-- The start of a source, as far as it is shown, has none of these two code points. -/
def HasLegalStart (latex : Value) : Prop :=
  ∀ source, latex = .text source → ∀ c ∈ source.take shownLength, isMissed c = false

theorem isMissed_eq_false_iff {c : CodePoint} :
    isMissed c = false ↔ c.toNat ≠ 0xFFFE ∧ c.toNat ≠ 0xFFFF := by
  have hchars : '\ufffe'.toNat = 0xFFFE ∧ '\uffff'.toNat = 0xFFFF := by decide
  simp [isMissed, CodePoint.eq_scalar_iff, hchars]

/-- What is shown may stand in a document, the two code points apart. -/
theorem isChar_of_isShowable_iff {c : CodePoint} :
    (isShowable c = true → Xml.isChar c = true) ↔ isMissed c = false := by
  have hbound := c.toNat_lt
  have hchars : '\t'.toNat = 0x9 ∧ '\n'.toNat = 0xA ∧ '\r'.toNat = 0xD := by decide
  have hshow : isShowable c = true ↔ c.toNat = 0x9 ∨ c.toNat = 0xA ∨ c.toNat = 0xD ∨
      (0x20 ≤ c.toNat ∧ (c.toNat < 0xD800 ∨ 0xDFFF < c.toNat)) := by
    simp [isShowable, CodePoint.eq_scalar_iff, CodePoint.isSurrogate_eq_false_iff, hchars, or_assoc]
  have hlegal : Xml.isChar c = true ↔ (0x9 ≤ c.toNat ∧ c.toNat ≤ 0xA) ∨ c.toNat = 0xD ∨
      (0x20 ≤ c.toNat ∧ c.toNat ≤ 0xD7FF) ∨ (0xE000 ≤ c.toNat ∧ c.toNat ≤ 0xFFFD) ∨
      (0x10000 ≤ c.toNat ∧ c.toNat ≤ 0x10FFFF) := by
    simp [Xml.isChar, CodePoint.inRanges, Xml.charRanges, Nat.le_antisymm_iff, and_comm]
  rw [hshow, hlegal, isMissed_eq_false_iff]
  omega

theorem isMissed_eq_false_of_isPlain (c : Char) (h : Text.IsPlain c) :
    isMissed (.scalar c) = false := by
  obtain ⟨_, hhigh⟩ := h
  rw [isMissed_eq_false_iff, CodePoint.scalar_toNat]
  omega

theorem isMissed_eq_false_of_isPrintable (c : CodePoint) (h : c.isPrintable = true) :
    isMissed c = false := by
  have hrange : (0xFFFE, 0xFFFF) ∈ unprintableRanges := by decide
  have hout : ¬(0xFFFE ≤ c.toNat ∧ c.toNat ≤ 0xFFFF) := by
    simpa using List.any_eq_false.mp (Bool.not_eq_eq_eq_not.mp h) _ hrange
  rw [isMissed_eq_false_iff]
  omega

/-- A value that is no text is spelled with what may be shown. -/
theorem hasLegalStart_iff {host : Host} {latex : Value} {source : Text}
    (h : sourceText host latex = .ok source) :
    HasLegalStart latex ↔ ∀ c ∈ source.take shownLength, isMissed c = false := by
  cases htext : latex.isText with
  | true =>
    obtain ⟨t, rfl⟩ := Value.isText_iff.mp htext
    cases h
    refine ⟨fun hstart => hstart _ rfl, fun hstart u hu => ?_⟩
    cases hu
    exact hstart
  | false =>
    rw [sourceText_of_isText htext] at h
    split at h
    · refine iff_of_true (fun u hu => ?_) fun c hc => ?_
      · rw [hu] at htext
        cases htext
      · exact Value.over_literal isMissed_eq_false_of_isPlain isMissed_eq_false_of_isPrintable
          (mapError_eq_ok_iff.mp h) c (List.mem_of_mem_take hc)
    · cases h

/-- What is shown of a value may stand in a document exactly if its start is legal. -/
theorem over_excerpt_iff {host : Host} {latex : Value} {source : Text}
    (h : sourceText host latex = .ok source) :
    (excerpt source).Over (fun c => Xml.isChar c = true) ↔ HasLegalStart latex := by
  have hfilter : (excerpt source).Over (fun c => Xml.isChar c = true) ↔
      ∀ c ∈ if shownLength < source.length then
        source.take shownLength ++ Text.ofString "..." else source, isMissed c = false := by
    simp only [excerpt, Text.Over, List.mem_filter, and_imp, isChar_of_isShowable_iff]
  have hdots : ∀ c ∈ Text.ofString "...", isMissed c = false := by decide
  rw [hfilter, hasLegalStart_iff h]
  split
  · rw [List.forall_mem_append, and_iff_left hdots]
  · next hshort => rw [List.take_of_length_le (Nat.le_of_not_lt hshort)]

/-! ## What is found -/

theorem legible_errorNode (source : Text) : (errorNode source).legible 1 = true ↔
    (excerpt source).Over fun c => Xml.isChar c = true := by
  have hheight : (errorNode source).height = 2 := rfl
  have hdepth : 1 + (errorNode source).height ≤ Xml.Builder.depthLimit := by
    rw [hheight]
    decide
  have hwords : Text.Over (fun c => Xml.isChar c = true) "Failed to convert: " :=
    Text.over_ofString Xml.isChar_of_isPlain (by decide)
  rw [Node.legible_iff (by decide), and_iff_left hdepth, nodes_errorNode]
  constructor
  · intro h c hc
    have htext : Text.Over (fun c => Xml.isChar c = true)
        ("Failed to convert: " ++ excerpt source) := h (.text _) (by simp)
    exact htext c (List.mem_append_right _ hc)
  · intro h m hm
    simp only [List.mem_cons, List.not_mem_nil, or_false] at hm
    rcases hm with rfl | rfl | rfl
    · exact fun a ha => absurd ha List.not_mem_nil
    · exact fun a ha => absurd ha List.not_mem_nil
    · exact hwords.append h

/-- Nothing but an illegal code point is found in the document of a failed conversion. -/
theorem findings_errorNode (source : Text) : (errorNode source).findings =
    if (errorNode source).legible 1 then [] else [.notWellFormed] := by
  have hproblems : (errorNode source).nodes.flatMap Node.problems = [] := by
    have hrow : Markup.elementProblems "merror" 1 = [] := by decide +kernel
    have htext : Markup.elementProblems "mtext" 0 = [] := by decide
    show Markup.elementProblems "merror" 1 ++ (Markup.elementProblems "mtext" 0 ++ []) = []
    rw [hrow, htext]
    rfl
  rw [Node.findings, hproblems]

variable {c : Converter} {o : Options} {host : Host}

/-- A conversion that fails on account of the source gives the document of the error tree, if the
value can be shown. -/
theorem convertWith_failed {latex : Value}
    (h : (c.checkInput (some o) latex).isValid = false ∨
      ∃ e, (c.parse (some o) latex host).value = .error e) :
    ∃ errors details, errors ≠ [] ∧ (c.convertWith o latex host).value =
      (sourceText host latex).map (replacement o errors details) := by
  cases hcheck : (c.checkInput (some o) latex).isValid with
  | false =>
    exact ⟨_, [], List.isEmpty_eq_false_iff.mp hcheck, convertWith_rejected hcheck⟩
  | true =>
    obtain ⟨source, rfl⟩ := isText_of_isValid hcheck
    rcases h with h | ⟨e, he⟩
    · exact absurd (h.symm.trans hcheck) (by decide)
    · exact ⟨_, _, e.errors_ne_nil, convertWith_unparsed hcheck he⟩

/-- A conversion that fails on account of the source gives a document all the same, unless the value
cannot be shown. The document passes the check and holds only what a document may hold, unless
U+FFFE or U+FFFF is shown in it: then it cannot be read. -/
theorem check_of_failed (c : Converter) (latex : Value) (options : Option Options)
    (overrides : List (Scalar × Value)) (o : Options) (host : Host)
    (ho : ((options.getD c.options).withOverrides overrides).value = .ok o)
    (hxml : host.xml.ReadsDocuments)
    (h : (c.checkInput (some o) latex).isValid = false ∨
      ∃ e, (c.parse (some o) latex host).value = .error e) :
    (∀ failure, sourceText host latex = .error failure →
      (c.convert latex options overrides host).value = .error failure) ∧
    ∀ source, sourceText host latex = .ok source →
      ∃ r, (c.convert latex options overrides host).value = .ok r ∧ r.isSuccessful = false ∧
        (HasLegalStart latex → Markup.check host.xml r.mathml = .ok [] ∧
          r.mathml.Over fun c => Xml.isChar c = true) ∧
        (¬HasLegalStart latex →
          Markup.check host.xml r.mathml = .ok [Text.ofString "XML syntax error"]) := by
  obtain ⟨errors, details, herrors, hconvert⟩ := convertWith_failed h
  rw [value_convert ho, hconvert]
  refine ⟨fun failure hsource => by rw [hsource]; rfl, fun source hsource => ?_⟩
  have hplain := (proper_errorNode source).plain
  have hlegible := (legible_errorNode source).trans (over_excerpt_iff hsource)
  have hdocument := check_documentText hxml o.displayMode.isTruthy hplain
  refine ⟨_, by rw [hsource]; rfl, List.isEmpty_eq_false_iff.mpr herrors, fun hstart => ?_,
    fun hstart => ?_⟩
  · refine ⟨hdocument.trans ?_, over_of_legible _ hplain (hlegible.mpr hstart)⟩
    rw [findings_errorNode, if_pos (hlegible.mpr hstart)]
    rfl
  · refine hdocument.trans ?_
    rw [findings_errorNode, if_neg fun hl => hstart (hlegible.mp hl)]
    rfl

/-- An opening brace without a closing one behind U+FFFE. -/
theorem check_of_failed_noncharacter :
    (({} : Options).withOverrides []).value = .ok {} ∧
    Xml.Reader.ReadsDocuments Xml.document? ∧
    (default.checkInput (some {}) (.text [.scalar '\ufffe', .scalar '\x7b'])).isValid = false ∧
    ¬HasLegalStart (.text [.scalar '\ufffe', .scalar '\x7b']) ∧
    ∃ r, (default.convert (.text [.scalar '\ufffe', .scalar '\x7b']) none []).value = .ok r ∧
      r.isSuccessful = false ∧
      Markup.check Xml.document? r.mathml = .ok [Text.ofString "XML syntax error"] := by
  have ho : (({} : Options).withOverrides []).value = .ok {} := rfl
  have hxml := Xml.readsDocuments_document?
  have hcheck : (default.checkInput (some {})
      (.text [.scalar '\ufffe', .scalar '\x7b'])).isValid = false := by decide
  have hstart : ¬HasLegalStart (.text [.scalar '\ufffe', .scalar '\x7b']) := fun h =>
    absurd (h _ rfl (.scalar '\ufffe') (by decide)) (by decide)
  obtain ⟨r, hr, hfailed, _, hbad⟩ :=
    (check_of_failed default _ none [] {} {} ho hxml (Or.inl hcheck)).2 _ rfl
  exact ⟨ho, hxml, hcheck, hstart, r, hr, hfailed, hbad hstart⟩

end Converter

end MathMarkup
