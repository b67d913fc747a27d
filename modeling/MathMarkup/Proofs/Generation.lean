import MathMarkup.Draft.Writer
import MathMarkup.Proofs.Violations

/-!
# The outcome of a generation

Writing fails at the first node, in document order, that cannot be written by itself
(`Draft.of?_write`), and a node without violations can be written. So a draft that passes the check
is always written (`Draft.serialize_of_check`). The attributes of the root are looked at as the
writer has them (`Draft.asRoot`).

A generation reports why writing failed, with two exceptions: where the check has no result, and
where the first node that cannot be written is an element with a name whose attributes are no
mapping, there is no result at all (`Draft.generate_outcome`).
-/

namespace MathMarkup.Draft

/-! ## Errors -/

namespace WriteError

variable {α β γ : Type}

/-- The error of a writing that fails. -/
def of? : Except WriteError α → Option WriteError
  | .ok _ => none
  | .error e => some e

@[simp] theorem of?_ok (a : α) : of? (.ok a) = none := rfl

@[simp] theorem of?_error (e : WriteError) : of? (.error e : Except WriteError α) = some e := rfl

theorem of?_eq_none_iff {x : Except WriteError α} : of? x = none ↔ ∃ a, x = .ok a := by
  cases x <;> simp

theorem of?_eq_some_iff {x : Except WriteError α} {e : WriteError} :
    of? x = some e ↔ x = .error e := by
  cases x <;> simp

/-- Of two steps the first one that fails gives the error. -/
theorem of?_bind {x : Except WriteError α} {f : α → Except WriteError β} {e : Option WriteError}
    (h : ∀ a, of? (f a) = e) : of? (x >>= f) = (of? x).or e := by
  cases x with
  | ok a => exact h a
  | error e => rfl

theorem of?_bind_ok (x : Except WriteError α) (f : α → β) :
    of? (x >>= fun a => .ok (f a)) = of? x := by
  rw [of?_bind fun a => of?_ok (f a), Option.or_none]

end WriteError

open WriteError

/-! ## The root -/

/-- The attributes of the root as the writer has them. -/
def attributesAsRoot (display : Bool) (name attributes : Value) : Value :=
  match name, attributes with
  | .text name, .mapping entries =>
    .mapping (if name = Text.ofString "math" then rootAttributes display entries else entries)
  | _, _ => attributes

/-- A draft with the attributes that the writer gives it as the root. -/
def asRoot (display : Bool) : Draft → Draft
  | .element name attributes children =>
    .element name (attributesAsRoot display name attributes) children
  | .childless name attributes children =>
    .childless name (attributesAsRoot display name attributes) children
  | d => d

section Root

variable (display : Bool)

theorem writtenAttributes_root (name : Text) (attributes : Value) :
    writtenAttributes (some display) name attributes =
      writtenAttributes none name (attributesAsRoot display (.text name) attributes) := by
  cases attributes with
  | scalar s => rfl
  | list items => rfl
  | mapping entries =>
    unfold attributesAsRoot
    by_cases h : name = Text.ofString "math" <;> simp [writtenAttributes, h]

theorem openingTag_root (name : Text) (attributes : Value) :
    openingTag (some display) name attributes =
      openingTag none name (attributesAsRoot display (.text name) attributes) := by
  rw [openingTag, writtenAttributes_root]
  rfl

theorem write_text (root : Option Bool) (content : Value) (extra : List Text) :
    write root (.text content extra) = if content.isText then .ok (Xml.escape (partText content))
      else .error (.contentType content.typeName) := by
  rcases content with s | items | entries
  · cases s <;> rfl
  · rfl
  · rfl

/-- A draft is written as the root like any other, with its attributes as the writer has them. -/
theorem write_root (d : Draft) : write (some display) d = write none (d.asRoot display) := by
  have hbind : ∀ (name attributes : Value) (content : Text → Text → Except WriteError Text),
      (do
        let name' ← writtenName name
        let tag ← openingTag (some display) name' attributes
        content name' tag) =
      (do
        let name' ← writtenName name
        let tag ← openingTag none name' (attributesAsRoot display name attributes)
        content name' tag) := by
    intro name attributes content
    unfold writtenName
    split
    · split
      · rfl
      · show (openingTag _ _ _ >>= _) = (openingTag _ _ _ >>= _)
        rw [openingTag_root]
    · rfl
  cases d with
  | text content extra => exact (write_text _ content extra).trans (write_text _ content extra).symm
  | plain value => rfl
  | element name attributes children =>
    simp only [asRoot, write]
    exact hbind name attributes _
  | childless name attributes children =>
    simp only [asRoot, write]
    exact hbind name attributes _

end Root

/-! ## Single nodes -/

/-- The start tag of an element, from its name and its attributes. -/
def writeTag (name attributes : Value) : Except WriteError Text := do
  openingTag none (← writtenName name) attributes

/-- Why a node cannot be written, whatever stands below it. -/
def fault? : Draft → Option WriteError
  | .text content _ => if content.isText then none else some (.contentType content.typeName)
  | .plain value => some (.nodeType value.typeName)
  | .element name attributes _ => of? (writeTag name attributes)
  | .childless name attributes children =>
    (of? (writeTag name attributes)).or (of? (writeItems children))

/-- An element with a name and with attributes of a type that is no mapping. -/
def Unmapped (operandName : Text) (d : Draft) : Prop :=
  (∃ t, t ≠ [] ∧ d.name? = some (.text t)) ∧ ∃ attributes, d.attributes? = some attributes ∧
    (∀ entries, attributes ≠ .mapping entries) ∧ attributes.operandName = operandName

variable {name attributes : Value} {e : WriteError}

theorem writtenName_eq_ok_iff {t : Text} : writtenName name = .ok t ↔ t ≠ [] ∧ name = .text t := by
  unfold writtenName
  split
  · next u =>
    cases u with
    | nil =>
      refine iff_of_false nofun ?_
      rintro ⟨ht, h⟩
      cases h
      exact ht rfl
    | cons c u =>
      constructor
      · intro h
        cases h
        exact ⟨List.cons_ne_nil c u, rfl⟩
      · rintro ⟨-, h⟩
        cases h
        rfl
  · next hother => exact iff_of_false nofun fun h => hother t h.2

theorem isCaught_of_writtenName (h : writtenName name = .error e) : e.isCaught = true := by
  unfold writtenName at h
  split at h
  · split at h
    · cases h
      rfl
    · cases h
  · cases h
    rfl

theorem isCaught_of_writeItems {children : Misplaced} (h : writeItems children = .error e) :
    e.isCaught = true := by
  unfold writeItems at h
  split at h
  · cases h
  · cases h
    rfl
  · cases h
    rfl

theorem writtenAttributes_eq_error_iff {t : Text} : writtenAttributes none t attributes = .error e ↔
    (∀ entries, attributes ≠ .mapping entries) ∧ e = .attributesType attributes.operandName := by
  cases attributes with
  | mapping entries => simp [writtenAttributes]
  | scalar s => simp [writtenAttributes, eq_comm]
  | list items => simp [writtenAttributes, eq_comm]

/-- The only error of a start tag that is not caught is that of attributes that are no mapping, on
an element whose name can be written. -/
theorem writeTag_eq_uncaught_iff : writeTag name attributes = .error e ∧ e.isCaught = false ↔
    (∃ t, t ≠ [] ∧ name = .text t) ∧ (∀ entries, attributes ≠ .mapping entries) ∧
      e = .attributesType attributes.operandName := by
  rw [writeTag, bind_eq_error_iff]
  constructor
  · rintro ⟨hname | ⟨t, ht, htag⟩, he⟩
    · rw [isCaught_of_writtenName hname] at he
      cases he
    · rcases bind_eq_error_iff.mp htag with hattributes | ⟨entries, -, hspelled⟩
      · exact ⟨⟨t, writtenName_eq_ok_iff.mp ht⟩, writtenAttributes_eq_error_iff.mp hattributes⟩
      · obtain ⟨e', -, rfl⟩ := mapError_eq_error_iff.mp hspelled
        cases he
  · rintro ⟨⟨t, ht⟩, hattributes, rfl⟩
    refine ⟨Or.inr ⟨t, writtenName_eq_ok_iff.mpr ht, bind_eq_error_iff.mpr (Or.inl ?_)⟩, rfl⟩
    exact writtenAttributes_eq_error_iff.mpr ⟨hattributes, rfl⟩

/-- The only error of a node that a generation does not report. -/
theorem fault?_eq_uncaught_iff {m : Draft} : m.fault? = some e ∧ e.isCaught = false ↔
    ∃ operandName, e = .attributesType operandName ∧ m.Unmapped operandName := by
  have htag : ∀ name attributes, m.name? = some name → m.attributes? = some attributes →
      (writeTag name attributes = .error e ∧ e.isCaught = false ↔
        ∃ operandName, e = .attributesType operandName ∧ m.Unmapped operandName) := by
    intro name attributes hname hattributes
    rw [writeTag_eq_uncaught_iff]
    simp only [Unmapped, hname, hattributes, Option.some.injEq, exists_eq_left']
    constructor
    · rintro ⟨ht, hmapping, rfl⟩
      exact ⟨_, rfl, ht, hmapping, rfl⟩
    · rintro ⟨operandName, rfl, ht, hmapping, rfl⟩
      exact ⟨ht, hmapping, rfl⟩
  cases m with
  | text content extra =>
    refine iff_of_false ?_ (by simp [Unmapped, name?])
    rintro ⟨h, he⟩
    rw [fault?] at h
    split at h
    · cases h
    · cases h
      cases he
  | plain value =>
    refine iff_of_false ?_ (by simp [Unmapped, name?])
    rintro ⟨h, he⟩
    cases h
    cases he
  | element name attributes children =>
    rw [fault?, of?_eq_some_iff]
    exact htag name attributes rfl rfl
  | childless name attributes children =>
    rw [← htag name attributes rfl rfl, fault?, Option.or_eq_some_iff, of?_eq_some_iff,
      of?_eq_some_iff]
    refine and_congr_left fun he => or_iff_left ?_
    rintro ⟨-, hitems⟩
    rw [isCaught_of_writeItems hitems] at he
    cases he

/-! ## Nodes without violations -/

/-- An element without violations has names for itself and for its attributes, and texts as their
values. -/
theorem exists_of_violations_eq_nil {m : Draft} (h : m.violations = [])
    (hname : m.name? = some name) (hattributes : m.attributes? = some attributes) :
    ∃ t entries, name = .text t ∧ Xml.isNameLine t = true ∧ attributes = .mapping entries ∧
      ∀ x ∈ entries, (∃ k, x.1 = .text k ∧ Xml.isNameLine k = true) ∧ ∃ u, x.2 = .text u := by
  have hnone : ∀ v, ¬m.Violates Xml.isNameLine v := by
    intro v hv
    have hmem := hv.mem_violations
    rw [h] at hmem
    cases hmem
  obtain ⟨t, ht, rfl⟩ : ∃ t, t ≠ [] ∧ name = .text t := by
    by_contra hno
    refine hnone _ (.unnamed hname fun t ht => ?_)
    by_contra hne
    exact hno ⟨t, hne, ht⟩
  obtain ⟨entries, rfl⟩ : ∃ entries, attributes = .mapping entries := by
    by_contra hno
    exact hnone _ (.attributesType hattributes fun entries hentries => hno ⟨entries, hentries⟩)
  refine ⟨t, entries, rfl, ?_, rfl, fun x hx => ⟨?_, ?_⟩⟩
  · by_contra hline
    exact hnone _ (.badName hname ht (Bool.eq_false_iff.mpr hline))
  · by_contra hno
    refine hnone _ (.badKey hattributes hx fun k hk => Bool.eq_false_iff.mpr fun hline => ?_)
    exact hno ⟨k, hk, hline⟩
  · refine Value.isText_iff.mp ?_
    by_contra hvalue
    exact hnone _ (.badValue hattributes hx (Bool.eq_false_iff.mpr hvalue))

theorem exists_startTag {t : Text} {entries : List (Scalar × Value)}
    (h : ∀ x ∈ entries, (∃ k, x.1 = .text k ∧ Xml.isNameLine k = true) ∧ ∃ u, x.2 = .text u) :
    ∃ tag, startTag t entries = .ok tag := by
  have hspelled : ∀ x ∈ entries, ∃ a, attributeText x.1 x.2 = .ok a := by
    rintro ⟨key, value⟩ hx
    obtain ⟨⟨k, rfl, -⟩, u, rfl⟩ := h _ hx
    exact ⟨_, rfl⟩
  obtain ⟨attributes, hattributes⟩ := exists_mapM_eq_ok_iff.mpr hspelled
  exact ⟨_, by rw [startTag, hattributes]; rfl⟩

/-- A node without violations can be written. -/
theorem fault?_eq_none {m : Draft} (h : m.violations = []) : m.fault? = none := by
  cases m with
  | text content extra =>
    simp only [violations, textViolations, List.append_eq_nil_iff] at h
    have htext : content.isText = true := by simpa using h.2
    rw [fault?, if_pos htext]
  | plain value => cases h
  | childless name attributes children => simp [violations] at h
  | element name attributes children =>
    obtain ⟨t, entries, rfl, hline, rfl, htexts⟩ := exists_of_violations_eq_nil h rfl rfl
    obtain ⟨tag, htag⟩ := exists_startTag (t := t) htexts
    have ht : t ≠ [] := by
      rintro rfl
      cases hline
    refine of?_eq_none_iff.mpr ⟨tag, ?_⟩
    rw [writeTag, writtenName_eq_ok_iff.mpr ⟨ht, rfl⟩]
    show ((startTag t entries).mapError _) = _
    rw [htag]
    rfl

/-- The attributes of the writer do no harm to the root. -/
theorem violations_asRoot (display : Bool) {m : Draft} (h : m.violations = []) :
    (m.asRoot display).violations = [] := by
  have hattributes : ∀ {name attributes : Value}, attributesViolations attributes = [] →
      attributesViolations (attributesAsRoot display name attributes) = [] := by
    intro name attributes h
    unfold attributesAsRoot
    split
    · next entries =>
      split
      · rw [attributesViolations, List.flatMap_eq_nil_iff] at h ⊢
        intro x hx
        rcases List.mem_cons.mp hx with rfl | hx
        · rfl
        · rcases List.mem_cons.mp hx with rfl | hx
          · cases display <;> rfl
          · exact h x (List.mem_filter.mp hx).1
      · exact h
    · exact h
  cases m with
  | text content extra => exact h
  | plain value => exact h
  | element name attributes children =>
    simp only [violations, List.append_eq_nil_iff] at h
    simp only [asRoot, violations, List.append_eq_nil_iff]
    exact ⟨⟨h.1.1, hattributes h.1.2⟩, h.2⟩
  | childless name attributes children => simp [violations] at h

/-! ## The walk -/

theorem of?_tagged {α β γ : Type} (x : Except WriteError α) (y : α → Except WriteError β)
    (z : Except WriteError γ) (f : α → β → γ → Text) :
    of? (do
      let name ← x
      let tag ← y name
      let content ← z
      return f name tag content) = (of? (x >>= y)).or (of? z) := by
  cases x with
  | error e => rfl
  | ok a =>
    show of? (y a >>= _) = (of? (y a)).or _
    exact of?_bind fun b => of?_bind_ok z (f a b)

theorem of?_writeAll {children : List Draft}
    (h : ∀ c ∈ children, of? (write none c) = c.nodes.findSome? fault?) :
    of? (writeAll children) = (nodesOfAll children).findSome? fault? := by
  induction children with
  | nil => rfl
  | cons c rest ih =>
    have hrest := ih fun x hx => h x (List.mem_cons_of_mem c hx)
    rw [writeAll, nodesOfAll, List.findSome?_append, ← h c List.mem_cons_self, ← hrest]
    exact of?_bind fun first => of?_bind_ok _ fun more => first ++ more

/-- A draft is written unless one of its nodes cannot be written by itself, and the error is that of
the first such node. -/
theorem of?_write (d : Draft) : of? (write none d) = d.nodes.findSome? fault? := by
  induction d using inductionOn with
  | text content extra =>
    rw [write_text, nodes, List.findSome?_cons, fault?]
    cases content.isText <;> rfl
  | plain value => rfl
  | childless name attributes children =>
    rw [write, of?_tagged, nodes, List.findSome?_cons, fault?]
    show (of? (writeTag name attributes)).or _ = _
    cases (of? (writeTag name attributes)).or (of? (writeItems children)) <;> rfl
  | element name attributes children ih =>
    rw [write, of?_tagged, of?_writeAll ih, nodes, List.findSome?_cons, fault?]
    show (of? (writeTag name attributes)).or _ = _
    cases of? (writeTag name attributes) <;> rfl

theorem of?_serialize (display : Bool) (d : Draft) :
    of? (serialize display d) = (d.asRoot display).nodes.findSome? fault? := by
  rw [serialize, write_root, of?_write]

theorem hasName_document (d : Draft) : d.document.hasName "math" = true := by
  unfold document
  split
  · assumption
  · rfl

/-- What is written of an element starts with its start tag. -/
theorem ne_nil_of_serialize {display : Bool} {d : Draft} {name written : Text}
    (hname : d.hasName name = true) (h : serialize display d = .ok written) : written ≠ [] := by
  have htag : ∀ {root name attributes tag}, openingTag root name attributes = .ok tag →
      tag ≠ [] := by
    intro root name attributes tag htag
    obtain ⟨entries, -, hspelled⟩ := bind_eq_ok_iff.mp htag
    obtain ⟨texts, -, hstart⟩ := bind_eq_ok_iff.mp (mapError_eq_ok_iff.mp hspelled)
    cases hstart
    exact List.cons_ne_nil _ _
  have hwritten : ∀ {name attributes : Value} {content : Except WriteError Text},
      (do
        let name ← writtenName name
        let tag ← openingTag (some display) name attributes
        let content ← content
        return tag ++ content ++ endTag name) = .ok written → written ≠ [] := by
    intro name attributes content h
    obtain ⟨t, -, h⟩ := bind_eq_ok_iff.mp h
    obtain ⟨tag, hopening, h⟩ := bind_eq_ok_iff.mp h
    obtain ⟨text, -, h⟩ := bind_eq_ok_iff.mp h
    cases h
    rw [List.append_assoc]
    exact List.append_ne_nil_of_left_ne_nil (htag hopening) _
  cases d with
  | text content extra => cases hname
  | plain value => cases hname
  | element name attributes children =>
    rw [serialize, write] at h
    exact hwritten h
  | childless name attributes children =>
    rw [serialize, write] at h
    exact hwritten h

/-! ## Generations -/

variable {display : Bool} {d : Draft} {r : Validation}

@[simp] theorem value_checkLogged (d : Draft) : d.checkLogged.value = d.check := by
  unfold checkLogged
  cases hcheck : d.check with
  | error e => rfl
  | ok r => cases hvalid : r.isValid <;> simp [hvalid]

/-- The warning of a draft, which does not depend on how the writing ends. -/
def checkWarnings (r : Validation) : List Text :=
  if r.isValid then [] else [violationWarning]

theorem value_generate_of_check (hcheck : d.check = .ok r) :
    (generate display d).value = match serialize display d.document with
      | .ok mathml => .ok { mathml := mathml, errors := r.errors, warnings := checkWarnings r }
      | .error e =>
        if e.isCaught then .ok {
          mathml := []
          errors := r.errors ++ ["Serialization failed: " ++ e.message]
          warnings := checkWarnings r }
        else .error (.write e) := by
  unfold generate
  cases hdocument : serialize display d.document with
  | ok mathml => simp [hcheck, checkWarnings, apply_ite Logged.value]
  | error e => cases he : e.isCaught <;> simp [hcheck, he, checkWarnings, apply_ite Logged.value]

theorem value_generate_of_check_error {e : SpellError} (hcheck : d.check = .error e) :
    (generate display d).value = .error (.check e) := by
  unfold generate
  simp [hcheck]

/-- A draft that passes the check is written, by itself and as a document. -/
theorem exists_serialized (display : Bool) (h : d.check = .ok ⟨[], []⟩) :
    (∃ text, serialize display d = .ok text) ∧ ∃ text, serialize display d.document = .ok text := by
  have hnodes := (check_eq_ok_nil_iff d).mp h
  have hwritten : ∀ d' : Draft, (∀ m ∈ d'.nodes, m.violations = []) →
      ∃ text, serialize display d' = .ok text := by
    intro d' hd'
    rw [← of?_eq_none_iff, of?_serialize, List.findSome?_eq_none_iff]
    -- The root stands first among the nodes, and what follows it is not touched by the writer.
    have hroot := violations_asRoot display (hd' d' (mem_nodes_iff.mpr ⟨[], rfl⟩))
    intro m hm
    refine fault?_eq_none ?_
    cases d' with
    | text content extra => exact hd' m hm
    | plain value => exact hd' m hm
    | childless name attributes children =>
      obtain rfl := List.mem_singleton.mp hm
      exact hroot
    | element name attributes children =>
      rcases mem_nodes_element.mp hm with rfl | ⟨c, hc, hm⟩
      · exact hroot
      · exact hd' m (mem_nodes_element.mpr (Or.inr ⟨c, hc, hm⟩))
  refine ⟨hwritten d hnodes, hwritten d.document ?_⟩
  unfold document
  split
  · exact hnodes
  · intro m hm
    rcases mem_nodes_element.mp hm with rfl | ⟨c, hc, hmc⟩
    · rfl
    · rw [List.mem_singleton.mp hc] at hmc
      exact hnodes m hmc

theorem check_ne_ok_nil_of_serialize {e : WriteError}
    (h : serialize display d = .error e ∨ serialize display d.document = .error e) :
    d.check ≠ .ok ⟨[], []⟩ := by
  intro hcheck
  obtain ⟨⟨_, hown⟩, _, hdocument⟩ := exists_serialized display hcheck
  rcases h with h | h
  · rw [hown] at h
    cases h
  · rw [hdocument] at h
    cases h

theorem generate_eq_check_iff {e : SpellError} :
    (generate display d).value = .error (.check e) ↔ d.check = .error e := by
  refine ⟨fun h => ?_, value_generate_of_check_error⟩
  cases hcheck : d.check with
  | error e' =>
    rw [value_generate_of_check_error hcheck] at h
    cases h
    rfl
  | ok r =>
    rw [value_generate_of_check hcheck] at h
    split at h
    · cases h
    · split at h <;> cases h

theorem generate_eq_write_iff {e : WriteError} :
    (generate display d).value = .error (.write e) ↔
      (∃ r, d.check = .ok r) ∧ serialize display d.document = .error e ∧ e.isCaught = false := by
  cases hcheck : d.check with
  | error e' =>
    rw [value_generate_of_check_error hcheck]
    simp
  | ok r =>
    rw [value_generate_of_check hcheck]
    cases hdocument : serialize display d.document with
    | ok mathml => simp
    | error e' =>
      cases he : e'.isCaught with
      | true =>
        refine iff_of_false (by simp [he]) ?_
        rintro ⟨-, h, hcaught⟩
        cases h
        simp [he] at hcaught
      | false =>
        simp only [he, Bool.false_eq_true, if_false, Except.error.injEq, GenerateError.write.injEq,
          Except.ok.injEq, exists_eq', true_and]
        exact ⟨fun h => ⟨h, h ▸ he⟩, And.left⟩

/-- The error of the first node that cannot be written is not reported exactly if that node is an
element with a name whose attributes are no mapping. -/
theorem findSome?_fault?_uncaught_iff {nodes : List Draft} {e : WriteError} :
    nodes.findSome? fault? = some e ∧ e.isCaught = false ↔
      ∃ operandName before m after, e = .attributesType operandName ∧ nodes = before ++ m :: after ∧
        (∀ b ∈ before, b.fault? = none) ∧ m.Unmapped operandName := by
  rw [List.findSome?_eq_some_iff]
  constructor
  · rintro ⟨⟨before, m, after, hnodes, hm, hbefore⟩, he⟩
    obtain ⟨operandName, rfl, hunmapped⟩ := fault?_eq_uncaught_iff.mp ⟨hm, he⟩
    exact ⟨operandName, before, m, after, rfl, hnodes, hbefore, hunmapped⟩
  · rintro ⟨operandName, before, m, after, rfl, hnodes, hbefore, hunmapped⟩
    obtain ⟨hm, he⟩ := fault?_eq_uncaught_iff.mpr ⟨operandName, rfl, hunmapped⟩
    exact ⟨⟨before, m, after, hnodes, hm, hbefore⟩, he⟩

/-! ## Results -/

/-- A draft that passes the check is written, by itself and as a document, and is generated without
a message. So wherever writing fails, some node has a violation, and the check has a report if it
has a result. -/
theorem serialize_of_check (display : Bool) (d : Draft) :
    (d.check = .ok ⟨[], []⟩ →
      (∃ own, serialize display d = .ok own) ∧
      ∃ mathml, mathml ≠ [] ∧ serialize display d.document = .ok mathml ∧
        (generate display d).value = .ok { mathml := mathml, errors := [], warnings := [] }) ∧
    ((∃ e, serialize display d = .error e) ∨ (∃ e, serialize display d.document = .error e) ∨
        (∃ e, (generate display d).value = .error e) →
      (∃ m ∈ d.nodes, m.violations ≠ []) ∧ ∀ r, d.check = .ok r → r.errors ≠ []) := by
  have hpasses : d.check = .ok ⟨[], []⟩ →
      (∃ own, serialize display d = .ok own) ∧
      ∃ mathml, mathml ≠ [] ∧ serialize display d.document = .ok mathml ∧
        (generate display d).value = .ok { mathml := mathml, errors := [], warnings := [] } := by
    intro hcheck
    obtain ⟨hown, mathml, hmathml⟩ := exists_serialized display hcheck
    have hgenerate : (generate display d).value = _ := value_generate_of_check hcheck
    rw [hmathml] at hgenerate
    exact ⟨hown, mathml, ne_nil_of_serialize (hasName_document d) hmathml, hmathml, hgenerate⟩
  refine ⟨hpasses, fun hfails => ?_⟩
  have hcheck : d.check ≠ .ok ⟨[], []⟩ := by
    rcases hfails with ⟨e, h⟩ | ⟨e, h⟩ | ⟨e, h⟩
    · exact check_ne_ok_nil_of_serialize (Or.inl h)
    · exact check_ne_ok_nil_of_serialize (Or.inr h)
    · intro hcheck
      obtain ⟨-, mathml, -, -, hgenerate⟩ := hpasses hcheck
      cases hgenerate.symm.trans h
  refine ⟨?_, fun r hr hempty => ?_⟩
  · by_contra hnone
    refine hcheck ((check_eq_ok_nil_iff d).mpr fun m hm => ?_)
    by_contra hne
    exact hnone ⟨m, hm, hne⟩
  · obtain ⟨errors, -, rfl⟩ := check_eq_ok_iff.mp hr
    obtain rfl : errors = [] := hempty
    exact hcheck hr

/-- A fraction with quotes and an angle bracket in it, and a row with a number in the place of a
node. -/
theorem serialize_of_check_fraction :
    (Draft.element (.text "mfrac") (.mapping [(.text "title", .text "\"")])
      [.text (.text "a<") [], .element (.text "mn") (.mapping []) []]).check = .ok ⟨[], []⟩ ∧
    (∃ mathml, (generate true (.element (.text "mfrac") (.mapping [(.text "title", .text "\"")])
      [.text (.text "a<") [], .element (.text "mn") (.mapping []) []])).value =
        .ok { mathml := mathml, errors := [], warnings := [] }) ∧
    serialize true (.element (.text "mrow") (.mapping []) [.plain (.int 42)]) =
      .error (.nodeType "int") ∧
    (∃ m ∈ (Draft.element (.text "mrow") (.mapping []) [.plain (.int 42)]).nodes,
      m.violations ≠ []) := by
  have hcheck : (Draft.element (.text "mfrac") (.mapping [(.text "title", .text "\"")])
      [.text (.text "a<") [], .element (.text "mn") (.mapping []) []]).check = .ok ⟨[], []⟩ := by
    decide +kernel
  have hserialize : serialize true (.element (.text "mrow") (.mapping []) [.plain (.int 42)]) =
      .error (.nodeType "int") := rfl
  obtain ⟨mathml, -, -, hgenerate⟩ := ((serialize_of_check true _).1 hcheck).2
  exact ⟨hcheck, ⟨mathml, hgenerate⟩, hserialize,
    ((serialize_of_check true _).2 (Or.inl ⟨_, hserialize⟩)).1⟩

/-- A generation gives the document; or it gives an empty one, with a message that says why writing
failed; or it has no result. There is no result exactly where the check quotes a key with too many
digits, or it has a result and the first node that cannot be written is an element with a name whose
attributes are no mapping. -/
theorem generate_outcome (display : Bool) (d : Draft) :
    ((∃ r mathml, d.check = .ok r ∧ mathml ≠ [] ∧ serialize display d.document = .ok mathml ∧
      (generate display d).value = .ok {
        mathml := mathml
        errors := r.errors
        warnings := if r.isValid then [] else [violationWarning] }) ∨
    (∃ r e, d.check = .ok r ∧ serialize display d.document = .error e ∧
      (generate display d).value = .ok {
        mathml := []
        errors := r.errors ++ ["Serialization failed: " ++ e.message]
        warnings := [violationWarning] }) ∨
    ∃ e, (generate display d).value = .error e) ∧
    (∀ e, (generate display d).value = .error (.check e) ↔ e = .tooLong Number.digitLimit ∧
      ∃ p m key, d.at? p = some m ∧ m.Quotes key ∧ Nat.pow 10 Number.digitLimit ≤ key.size) ∧
    ∀ e, (generate display d).value = .error (.write e) ↔
      (∃ r, d.check = .ok r) ∧
      ∃ operandName before m after, e = .attributesType operandName ∧
        (d.document.asRoot display).nodes = before ++ m :: after ∧
        (∀ b ∈ before, b.fault? = none) ∧ m.Unmapped operandName := by
  refine ⟨?_, fun e => generate_eq_check_iff.trans check_eq_error_iff, fun e => ?_⟩
  · cases hcheck : d.check with
    | error e => exact Or.inr (Or.inr ⟨_, value_generate_of_check_error hcheck⟩)
    | ok r =>
      have hgenerate : (generate display d).value = _ := value_generate_of_check hcheck
      cases hdocument : serialize display d.document with
      | ok mathml =>
        rw [hdocument] at hgenerate
        exact Or.inl ⟨r, mathml, rfl, ne_nil_of_serialize (hasName_document d) hdocument, rfl,
          hgenerate⟩
      | error e =>
        rw [hdocument] at hgenerate
        cases hcaught : e.isCaught with
        | true =>
          have hinvalid : r.isValid = false := by
            cases hvalid : r.isValid with
            | false => rfl
            | true =>
              obtain ⟨errors, -, rfl⟩ := check_eq_ok_iff.mp hcheck
              obtain rfl := List.isEmpty_iff.mp hvalid
              exact absurd hcheck (check_ne_ok_nil_of_serialize (Or.inr hdocument))
          refine Or.inr (Or.inl ⟨r, e, rfl, rfl, ?_⟩)
          simpa [hcaught, checkWarnings, hinvalid] using hgenerate
        | false =>
          exact Or.inr (Or.inr ⟨.write e, by simpa [hcaught] using hgenerate⟩)
  · rw [generate_eq_write_iff, ← findSome?_fault?_uncaught_iff, ← of?_serialize,
      of?_eq_some_iff]

/-- An element with the null value in the place of its attributes. -/
theorem generate_outcome_null :
    (generate false (.element (.text "mi") .null [])).value =
      .error (.write (.attributesType "NoneType")) := by
  have hcheck : (Draft.element (.text "mi") .null []).check =
      .ok ⟨["mi: attributes must be a mapping, got NoneType"], []⟩ := by
    decide +kernel
  have hbefore : ∀ b ∈ [Draft.element (.text "math") (.mapping (rootAttributes false []))
      [.element (.text "mi") .null []]], b.fault? = none := by
    decide
  exact ((generate_outcome false _).2.2 _).mpr ⟨⟨_, hcheck⟩, "NoneType", _, _, [], rfl, rfl,
    hbefore, ⟨"mi", by decide, rfl⟩, .null, rfl, nofun, rfl⟩

-- An integer with too many digits is told of as a value, but not as a key.
example : (generate false (.element (.text "math") (.mapping [(.text "x", .int (Nat.pow 10 5000))])
    [])).value.toOption.map (fun r => (r.mathml, r.errors.length)) = some ([], 2) := by
  decide +kernel
example : (generate false (.element (.text "math") (.mapping [(.number (.int (Nat.pow 10 5000)),
    .text "x")]) [])).value = .error (.check (.tooLong 4300)) := by decide +kernel

end MathMarkup.Draft
