import Mathlib.Data.List.Perm.Basic
import MathMarkup.Proofs.Places
import MathMarkup.Proofs.Spelled
import MathMarkup.Proofs.Xml.Name

/-!
# What the check of a draft reports

What may be wrong with a node is told by the node alone (`Draft.Violates`). The check of a draft
reports it of all nodes, in document order and with the path of each node, which is made of the
labels and numbers on the way to its place (`Draft.check_exhaustive`). So whatever stands at a place
is reported on alike, the path to this place apart, and what stands elsewhere is reported on alike
whatever stands at this place.

Two things keep the check from telling all that is wrong: a name with one line feed behind it is
taken for a name (`Draft.Misses`), and a report that quotes a key without a spelling ends the check
with no result.
-/

namespace MathMarkup.Draft

/-! ## The violations of a node -/

/-- The name that an element is given. -/
def name? : Draft → Option Value
  | .element name _ _ | .childless name _ _ => some name
  | _ => none

/-- The attributes that an element is given. -/
def attributes? : Draft → Option Value
  | .element _ attributes _ | .childless _ attributes _ => some attributes
  | _ => none

/-- What is wrong with a node itself, by what counts as a name. -/
inductive Violates (isName : Text → Bool) (d : Draft) : Violation → Prop where
  /-- A text has fields besides its content; their names are told in order, each once. -/
  | extraFields {content : Value} {extra names : List Text} : d = .text content extra →
      names ≠ [] → (∀ n, n ∈ names ↔ n ∈ extra ∧ n ≠ Text.ofString "content") →
      (names.Pairwise fun s t => Text.le s t = true ∧ s ≠ t) →
      Violates isName d (.extraFields names)
  | contentType {content : Value} {extra : List Text} : d = .text content extra →
      content.isText = false → Violates isName d (.contentType content.typeName)
  | malformed {value : Value} : d = .plain value → Violates isName d (.malformed value.typeName)
  | unnamed {name : Value} : d.name? = some name → (∀ t, name = .text t → t = []) →
      Violates isName d .unnamed
  | badName {t : Text} : d.name? = some (.text t) → t ≠ [] → isName t = false →
      Violates isName d (.badName t)
  | attributesType {attributes : Value} : d.attributes? = some attributes →
      (∀ entries, attributes ≠ .mapping entries) →
      Violates isName d (.attributesType attributes.typeName)
  | badKey {entries : List (Scalar × Value)} {key : Scalar} {value : Value} :
      d.attributes? = some (.mapping entries) → (key, value) ∈ entries →
      (∀ t, key = .text t → isName t = false) → Violates isName d (.badKey key)
  | badValue {entries : List (Scalar × Value)} {key : Scalar} {value : Value} :
      d.attributes? = some (.mapping entries) → (key, value) ∈ entries → value.isText = false →
      Violates isName d (.badValue key value.typeName)
  | childrenType {name attributes : Value} {children : Misplaced} :
      d = .childless name attributes children →
      Violates isName d (.childrenType children.value.typeName)
  | fixedArity {name : Text} {attributes : Value} {children : List Draft} {expected : Nat} :
      d = .element (.text name) attributes children → Markup.fixedArity? name = some expected →
      children.length ≠ expected → Violates isName d (.fixedArity name expected children.length)
  | leastArity {name : Text} {attributes : Value} {children : List Draft} {least : Nat} :
      d = .element (.text name) attributes children → Markup.leastArity? name = some least →
      children.length < least → Violates isName d (.leastArity name least children.length)

/-- The violation says of a text that is the name of an element, or a key, that it is no name. -/
def Rejects (d : Draft) (t : Text) (v : Violation) : Prop :=
  d.name? = some (.text t) ∧ v = .badName t ∨
    ∃ entries value, d.attributes? = some (.mapping entries) ∧ (.text t, value) ∈ entries ∧
      v = .badKey (.text t)

/-- The violation would be about a name with one line feed behind it. -/
def Misses (d : Draft) (v : Violation) : Prop :=
  ∃ t, Xml.isName t.chomp = true ∧ t.chomp ≠ t ∧ d.Rejects t v

/-- A violation of a node quotes the key of an attribute. -/
def Quotes (d : Draft) (key : Scalar) : Prop :=
  d.Violates Xml.isNameLine (.badKey key) ∨
    ∃ typeName, d.Violates Xml.isNameLine (.badValue key typeName)

variable {d m s : Draft} {v : Violation}

/-! ### Names of fields -/

theorem mem_sortedNames {names : List Text} {n : Text} : n ∈ sortedNames names ↔ n ∈ names := by
  rw [sortedNames, List.mem_mergeSort, List.mem_eraseDups]

theorem nodup_eraseDups (names : List Text) : names.eraseDups.Nodup := by
  induction hn : names.length using Nat.strong_induction_on generalizing names with
  | _ k ih =>
    subst hn
    cases names with
    | nil => exact List.nodup_nil
    | cons n rest =>
      have hshort : (rest.filter fun b => !b == n).length < (n :: rest).length :=
        Nat.lt_succ_of_le (List.length_filter_le _ _)
      rw [List.eraseDups_cons, List.nodup_cons]
      refine ⟨?_, ih _ hshort _ rfl⟩
      simp [List.mem_eraseDups]

theorem sortedNames_pairwise (names : List Text) :
    (sortedNames names).Pairwise fun s t => Text.le s t = true ∧ s ≠ t := by
  have hsorted : (sortedNames names).Pairwise fun s t => Text.le s t = true := by
    refine List.pairwise_mergeSort ?_ Text.le_total _
    intro s t u hst htu
    exact Text.le_trans hst htu
  have hdistinct : (sortedNames names).Nodup :=
    (List.mergeSort_perm _ _).nodup_iff.mpr (nodup_eraseDups names)
  exact hsorted.and hdistinct

/-- Names in order, each once, are told by which names they are. -/
theorem eq_of_pairwise_of_mem {s t : List Text}
    (hs : s.Pairwise fun x y => Text.le x y = true ∧ x ≠ y)
    (ht : t.Pairwise fun x y => Text.le x y = true ∧ x ≠ y) (h : ∀ n, n ∈ s ↔ n ∈ t) : s = t := by
  have hperm : s.Perm t :=
    (List.perm_ext_iff_of_nodup (hs.imp And.right) (ht.imp And.right)).mpr h
  refine hperm.eq_of_pairwise ?_ hs ht
  intro x y _ _ hxy hyx
  exact Text.le_antisymm hxy.1 hyx.1

theorem mem_textViolations {content : Value} {extra : List Text} :
    v ∈ textViolations content extra ↔ (Draft.text content extra).Violates Xml.isNameLine v := by
  have hmem : ∀ n, n ∈ sortedNames (extra.filter (· ≠ Text.ofString "content")) ↔
      n ∈ extra ∧ n ≠ Text.ofString "content" := by
    intro n
    rw [mem_sortedNames, List.mem_filter, decide_eq_true_iff]
  simp only [textViolations, List.mem_append]
  constructor
  · rintro (h | h)
    · split at h
      · cases h
      · next hne =>
        rw [List.mem_singleton.mp h]
        exact .extraFields rfl (by simpa using hne) hmem (sortedNames_pairwise _)
    · split at h
      · cases h
      · next htext =>
        rw [List.mem_singleton.mp h]
        exact .contentType rfl (by simpa using htext)
  · intro h
    cases h with
    | extraFields hd hne hnames hordered =>
      cases hd
      have heq := eq_of_pairwise_of_mem hordered (sortedNames_pairwise _) fun n =>
        (hnames n).trans (hmem n).symm
      left
      rw [← heq, if_neg (by simpa using hne)]
      exact List.mem_singleton_self _
    | contentType hd htext =>
      cases hd
      right
      rw [htext]
      exact List.mem_singleton_self _
    | malformed hd | childrenType hd | fixedArity hd | leastArity hd => cases hd
    | unnamed hd | badName hd | attributesType hd | badKey hd | badValue hd => cases hd

/-! ### Elements -/

section Element

variable {name attributes : Value}

theorem mem_nameViolations_iff : v ∈ nameViolations name ↔
    (∀ t, name = .text t → t = []) ∧ v = .unnamed ∨
      ∃ t, name = .text t ∧ t ≠ [] ∧ Xml.isNameLine t = false ∧ v = .badName t := by
  by_cases htext : ∃ t, name = .text t
  · obtain ⟨t, rfl⟩ := htext
    cases t with
    | nil => simp [nameViolations]
    | cons c t => cases h : Xml.isNameLine (c :: t) <;> simp [nameViolations, h]
  · have hlist : nameViolations name = [.unnamed] := by
      unfold nameViolations
      split
      · exact absurd ⟨_, rfl⟩ htext
      · rfl
    have hnone : ∀ t, name ≠ .text t := fun t ht => htext ⟨t, ht⟩
    simp [hlist, hnone]

theorem mem_attributeViolations_iff {key : Scalar} {value : Value} :
    v ∈ attributeViolations key value ↔
      (∀ t, key = .text t → Xml.isNameLine t = false) ∧ v = .badKey key ∨
        value.isText = false ∧ v = .badValue key value.typeName := by
  have hvalue : v ∈ (if value.isText then [] else [Violation.badValue key value.typeName]) ↔
      value.isText = false ∧ v = .badValue key value.typeName := by
    cases h : value.isText <;> simp
  unfold attributeViolations
  rw [List.mem_append, hvalue]
  refine or_congr_left ?_
  cases key with
  | text t => cases h : Xml.isNameLine t <;> simp [h]
  | null => simp
  | number n => simp
  | other o => simp

theorem mem_attributesViolations_iff : v ∈ attributesViolations attributes ↔
    (∀ entries, attributes ≠ .mapping entries) ∧ v = .attributesType attributes.typeName ∨
      ∃ entries key value, attributes = .mapping entries ∧ (key, value) ∈ entries ∧
        v ∈ attributeViolations key value := by
  cases attributes with
  | mapping entries => simp [attributesViolations]
  | scalar s => simp [attributesViolations]
  | list items => simp [attributesViolations]

theorem mem_arityViolations_iff {found : Nat} : v ∈ arityViolations name found ↔
    ∃ t, name = .text t ∧
      ((∃ expected, Markup.fixedArity? t = some expected ∧ found ≠ expected ∧
          v = .fixedArity t expected found) ∨
        ∃ least, Markup.leastArity? t = some least ∧ found < least ∧
          v = .leastArity t least found) := by
  unfold arityViolations
  split
  · next t =>
    cases hfixed : Markup.fixedArity? t <;> cases hleast : Markup.leastArity? t <;>
      simp [hfixed, hleast]
  · next hother =>
    refine iff_of_false List.not_mem_nil ?_
    rintro ⟨t, ht, -⟩
    exact hother t ht

/-! The name and the attributes of an element are looked at alike, whatever stands in the place of
its children. -/

theorem mem_violations_of_name (hname : d.name? = some name) (hv : v ∈ nameViolations name) :
    v ∈ d.violations := by
  cases d <;> cases hname <;> simp [violations, hv]

theorem mem_violations_of_attributes (hattributes : d.attributes? = some attributes)
    (hv : v ∈ attributesViolations attributes) : v ∈ d.violations := by
  cases d <;> cases hattributes <;> simp [violations, hv]

theorem violates_of_name (hname : d.name? = some name) (hv : v ∈ nameViolations name) :
    d.Violates Xml.isNameLine v := by
  rcases mem_nameViolations_iff.mp hv with ⟨ht, rfl⟩ | ⟨t, rfl, hne, hline, rfl⟩
  · exact .unnamed hname ht
  · exact .badName hname hne hline

theorem violates_of_attributes (hattributes : d.attributes? = some attributes)
    (hv : v ∈ attributesViolations attributes) : d.Violates Xml.isNameLine v := by
  rcases mem_attributesViolations_iff.mp hv with
    ⟨hmap, rfl⟩ | ⟨entries, key, value, rfl, hmem, hv⟩
  · exact .attributesType hattributes hmap
  · rcases mem_attributeViolations_iff.mp hv with ⟨hkey, rfl⟩ | ⟨hvalue, rfl⟩
    · exact .badKey hattributes hmem hkey
    · exact .badValue hattributes hmem hvalue

end Element

/-- Whatever is listed for a node is wrong with it. -/
theorem violates_of_mem_violations (h : v ∈ d.violations) : d.Violates Xml.isNameLine v := by
  cases d with
  | text content extra => exact mem_textViolations.mp h
  | plain value =>
    rw [List.mem_singleton.mp h]
    exact .malformed rfl
  | element name attributes children =>
    simp only [violations, List.mem_append] at h
    rcases h with (h | h) | h
    · exact violates_of_name rfl h
    · exact violates_of_attributes rfl h
    · obtain ⟨t, rfl, ⟨k, hk, hne, rfl⟩ | ⟨k, hk, hlt, rfl⟩⟩ := mem_arityViolations_iff.mp h
      · exact .fixedArity rfl hk hne
      · exact .leastArity rfl hk hlt
  | childless name attributes children =>
    simp only [violations, List.mem_append] at h
    rcases h with (h | h) | h
    · exact violates_of_name rfl h
    · exact violates_of_attributes rfl h
    · rw [List.mem_singleton.mp h]
      exact .childrenType rfl

/-- Whatever is wrong with a node is listed for it. -/
theorem Violates.mem_violations (h : d.Violates Xml.isNameLine v) : v ∈ d.violations := by
  cases h with
  | extraFields hd hne hnames hordered =>
    subst hd
    exact mem_textViolations.mpr (.extraFields rfl hne hnames hordered)
  | contentType hd htext =>
    subst hd
    exact mem_textViolations.mpr (.contentType rfl htext)
  | malformed hd =>
    subst hd
    exact List.mem_singleton_self _
  | unnamed hname ht =>
    exact mem_violations_of_name hname (mem_nameViolations_iff.mpr (Or.inl ⟨ht, rfl⟩))
  | badName hname hne hline =>
    exact mem_violations_of_name hname
      (mem_nameViolations_iff.mpr (Or.inr ⟨_, rfl, hne, hline, rfl⟩))
  | attributesType hattributes hmap =>
    exact mem_violations_of_attributes hattributes
      (mem_attributesViolations_iff.mpr (Or.inl ⟨hmap, rfl⟩))
  | @badKey _ key value hattributes hmem hkey =>
    have hv : .badKey key ∈ attributeViolations key value :=
      mem_attributeViolations_iff.mpr (Or.inl ⟨hkey, rfl⟩)
    exact mem_violations_of_attributes hattributes
      (mem_attributesViolations_iff.mpr (Or.inr ⟨_, _, _, rfl, hmem, hv⟩))
  | @badValue _ key value hattributes hmem hvalue =>
    have hv : .badValue key value.typeName ∈ attributeViolations key value :=
      mem_attributeViolations_iff.mpr (Or.inr ⟨hvalue, rfl⟩)
    exact mem_violations_of_attributes hattributes
      (mem_attributesViolations_iff.mpr (Or.inr ⟨_, _, _, rfl, hmem, hv⟩))
  | childrenType hd =>
    subst hd
    simp [violations]
  | fixedArity hd hfixed hne =>
    subst hd
    exact List.mem_append_right _
      (mem_arityViolations_iff.mpr ⟨_, rfl, Or.inl ⟨_, hfixed, hne, rfl⟩⟩)
  | leastArity hd hleast hlt =>
    subst hd
    exact List.mem_append_right _
      (mem_arityViolations_iff.mpr ⟨_, rfl, Or.inr ⟨_, hleast, hlt, rfl⟩⟩)

/-- The violations that are listed for a node are what is wrong with it. -/
theorem mem_violations_iff : v ∈ d.violations ↔ d.Violates Xml.isNameLine v :=
  ⟨violates_of_mem_violations, Violates.mem_violations⟩

/-- If other texts count as names, only violations about these are lost. -/
theorem Violates.or_rejects {isName isName' : Text → Bool} (h : d.Violates isName v) :
    d.Violates isName' v ∨ ∃ t, isName t = false ∧ isName' t = true ∧ d.Rejects t v := by
  cases h with
  | extraFields hd hne hnames hordered => exact Or.inl (.extraFields hd hne hnames hordered)
  | contentType hd htext => exact Or.inl (.contentType hd htext)
  | malformed hd => exact Or.inl (.malformed hd)
  | unnamed hname ht => exact Or.inl (.unnamed hname ht)
  | attributesType hattributes hmap => exact Or.inl (.attributesType hattributes hmap)
  | badValue hattributes hmem hvalue => exact Or.inl (.badValue hattributes hmem hvalue)
  | childrenType hd => exact Or.inl (.childrenType hd)
  | fixedArity hd hfixed hne => exact Or.inl (.fixedArity hd hfixed hne)
  | leastArity hd hleast hlt => exact Or.inl (.leastArity hd hleast hlt)
  | @badName t hname hne ht =>
    cases ht' : isName' t with
    | false => exact Or.inl (.badName hname hne ht')
    | true => exact Or.inr ⟨t, ht, ht', Or.inl ⟨hname, rfl⟩⟩
  | @badKey entries key value hattributes hmem hkey =>
    by_cases hname : ∃ t, key = .text t ∧ isName' t = true
    · obtain ⟨t, rfl, ht'⟩ := hname
      exact Or.inr ⟨t, hkey t rfl, ht', Or.inr ⟨entries, value, hattributes, hmem, rfl⟩⟩
    · refine Or.inl (.badKey hattributes hmem fun t ht => ?_)
      exact Bool.eq_false_iff.mpr fun ht' => hname ⟨t, ht, ht'⟩

/-- Besides what is found to be wrong with a node, only names with a line feed behind them are. -/
theorem violates_isName_iff :
    d.Violates Xml.isName v ↔ d.Violates Xml.isNameLine v ∨ d.Misses v := by
  constructor
  · refine fun h => h.or_rejects.imp_right ?_
    rintro ⟨t, hname, hline, hrejects⟩
    refine ⟨t, Xml.isNameLine_eq t ▸ hline, fun hchomp => ?_, hrejects⟩
    rw [(Xml.isName_iff_of_isNameLine hline).mpr hchomp] at hname
    cases hname
  · rintro (h | ⟨t, hproper, hchomp, hrejects⟩)
    · refine h.or_rejects.resolve_right ?_
      rintro ⟨t, hline, hname, -⟩
      rw [Xml.isNameLine_of_isName hname] at hline
      cases hline
    · have ht : Xml.isName t = false := Bool.eq_false_iff.mpr fun hname =>
        hchomp (Text.chomp_of_not_mem (Xml.lineFeed_not_mem_of_isName hname))
      rcases hrejects with ⟨hname, rfl⟩ | ⟨entries, value, hattributes, hmem, rfl⟩
      · refine .badName hname ?_ ht
        rintro rfl
        exact hchomp rfl
      · refine .badKey hattributes hmem fun t' ht' => ?_
        cases ht'
        exact ht

/-! ## Paths -/

/-- The steps to a place: on the way, each element with the number of the child. -/
def trail : Draft → List Nat → List Text
  | .element name _ children, i :: p =>
    (label name ++ "[" ++ Text.ofNat i ++ "]") :: (children[i]?.elim [] fun c => c.trail p)
  | _, _ => []

/-- The path to a place from the given path on. -/
def pathTo (parent : Text) (d : Draft) (p : List Nat) : Text :=
  (d.trail p).foldl pathStep parent

/-- The last step of the path of a node, which a value that is no node does not have. -/
def ownStep : Draft → List Text
  | .text _ _ => ["#text"]
  | .plain _ => []
  | .element name _ _ | .childless name _ _ => [label name]

/-- A step as it stands behind a path. -/
def stepText (step : Text) : Text :=
  .scalar '/' :: step

/-- The violations of all nodes in document order, with the paths of the nodes from the given path
on. -/
def located (parent : Text) (d : Draft) : List (Text × Violation) :=
  d.places.flatMap fun x => x.2.violations.map fun v => (x.2.path (pathTo parent d x.1), v)

/-- The same without the path to the draft. -/
def locatedBelow (d : Draft) : List (Text × Violation) :=
  d.places.flatMap fun x =>
    x.2.violations.map fun v => ((d.trail x.1 ++ x.2.ownStep).flatMap stepText, v)

/-- The reports on violations, up to the first that cannot be worded. -/
def reportAll (violations : List (Text × Violation)) : Except SpellError (List Text) :=
  violations.mapM fun x => report x.1 x.2

variable {parent : Text} {i : Nat} {p : List Nat}

theorem trail_nil (d : Draft) : d.trail [] = [] := by
  cases d <;> rfl

theorem pathTo_nil (parent : Text) (d : Draft) : pathTo parent d [] = parent := by
  rw [pathTo, trail_nil]
  rfl

theorem pathStep_append (parent step more : Text) :
    pathStep parent step ++ more = pathStep parent (step ++ more) := by
  unfold pathStep
  split
  · rfl
  · rw [List.append_assoc]

/-- A child has the path of its element with its number. -/
theorem pathTo_cons {name attributes : Value} {children : List Draft} {c : Draft}
    (hc : children[i]? = some c) (parent : Text) (p : List Nat) :
    pathTo parent (.element name attributes children) (i :: p) =
      pathTo (path parent (.element name attributes children) ++ "[" ++ Text.ofNat i ++ "]") c
        p := by
  simp only [pathTo, trail, hc, Option.elim_some, List.foldl_cons, path, pathStep_append]

theorem foldl_pathStep_of_ne_nil (h : parent ≠ []) (steps : List Text) :
    steps.foldl pathStep parent = parent ++ steps.flatMap stepText := by
  induction steps generalizing parent with
  | nil => exact (List.append_nil parent).symm
  | cons step steps ih =>
    have hstep : pathStep parent step = parent ++ stepText step := by
      rw [pathStep, if_neg (by simpa using h), List.append_assoc]
      rfl
    rw [List.foldl_cons, hstep, ih (by simp [h]), List.flatMap_cons, List.append_assoc]

theorem path_of_ne_nil (h : parent ≠ []) (d : Draft) :
    d.path parent = d.ownStep.foldl pathStep parent := by
  cases d with
  | plain value => simp [path, ownStep, h]
  | text content extra => rfl
  | element name attributes children => rfl
  | childless name attributes children => rfl

theorem pathTo_ne_nil (h : d.at? p = some m) (hp : p ≠ []) : pathTo [] d p ≠ [] := by
  obtain ⟨i, p, rfl⟩ := List.exists_cons_of_ne_nil hp
  obtain ⟨name, attributes, children, c, rfl, hc, -⟩ := exists_element_of_at? h
  have hchild : (path [] (.element name attributes children) ++ "[" ++ Text.ofNat i ++ "]" : Text) ≠
      [] :=
    List.append_ne_nil_of_right_ne_nil _ (by decide)
  rw [pathTo_cons hc, pathTo, foldl_pathStep_of_ne_nil hchild]
  exact List.append_ne_nil_of_left_ne_nil hchild _

/-! ## Reports -/

theorem reportAll_append (before after : List (Text × Violation)) :
    reportAll (before ++ after) = do
      let first ← reportAll before
      let more ← reportAll after
      return first ++ more :=
  List.mapM_append

theorem ownReports_eq_reportAll (parent : Text) (d : Draft) :
    ownReports parent d = reportAll (d.violations.map fun v => (d.path parent, v)) := by
  rw [ownReports, reportAll, List.mapM_map]
  rfl

theorem located_eq (parent : Text) (d : Draft) (h : d.childNodes = []) :
    d.located parent = d.violations.map fun v => (d.path parent, v) := by
  rw [located, places_eq, h, List.flatMap_cons, pathTo_nil]
  exact List.append_nil _

theorem located_element (parent : Text) (name attributes : Value) (children : List Draft) :
    (Draft.element name attributes children).located parent =
      ((Draft.element name attributes children).violations.map fun v =>
        (path parent (.element name attributes children), v)) ++
      children.zipIdx.flatMap fun x => x.1.located
        (path parent (.element name attributes children) ++ "[" ++ Text.ofNat x.2 ++ "]") := by
  have hchild : ∀ x ∈ children.zipIdx,
      ((x.1.places.map fun y => ((x.2 :: y.1, y.2) : List Nat × Draft)).flatMap fun y =>
        y.2.violations.map fun v =>
          (y.2.path (pathTo parent (.element name attributes children) y.1), v)) =
        x.1.located
          (path parent (.element name attributes children) ++ "[" ++ Text.ofNat x.2 ++ "]") := by
    intro x hx
    rw [List.flatMap_map, located]
    simp only [pathTo_cons (List.mem_zipIdx_iff_getElem?.mp hx)]
  rw [located, places_eq, List.flatMap_cons, pathTo_nil, childNodes, List.flatMap_assoc,
    List.flatMap_congr hchild]

theorem childReports_eq_reportAll {children : List Draft} (parent : Text) (index : Nat)
    (h : ∀ c ∈ children, ∀ path, reports path c = reportAll (c.located path)) :
    childReports parent index children = reportAll ((children.zipIdx index).flatMap fun x =>
      x.1.located (parent ++ "[" ++ Text.ofNat x.2 ++ "]")) := by
  induction children generalizing index with
  | nil => rfl
  | cons c rest ih =>
    rw [childReports, h c List.mem_cons_self, ih _ fun x hx => h x (List.mem_cons_of_mem c hx),
      List.zipIdx_cons, List.flatMap_cons, reportAll_append]

/-- The reports on a draft are those on the violations of its nodes, in document order. -/
theorem reports_eq_reportAll (parent : Text) (d : Draft) :
    reports parent d = reportAll (d.located parent) := by
  induction d using inductionOn generalizing parent with
  | text content extra => rw [reports, ownReports_eq_reportAll, located_eq _ _ rfl]
  | childless name attributes children =>
    rw [reports, ownReports_eq_reportAll, located_eq _ _ rfl]
  | plain value => rw [reports, ownReports_eq_reportAll, located_eq _ _ rfl]
  | element name attributes children ih =>
    rw [reports, ownReports_eq_reportAll,
      childReports_eq_reportAll _ _ fun c hc path => ih c hc path, located_element,
      reportAll_append]

theorem check_eq_reportAll (d : Draft) :
    d.check = do return ⟨← reportAll (d.located []), []⟩ := by
  rw [check, reports_eq_reportAll]

/-- Behind a path only the path shows where a draft stands. -/
theorem located_of_ne_nil (h : parent ≠ []) (d : Draft) :
    d.located parent = d.locatedBelow.map fun x => (parent ++ x.1, x.2) := by
  rw [located, locatedBelow, List.map_flatMap]
  refine List.flatMap_congr fun x _ => ?_
  have hpath : x.2.path (pathTo parent d x.1) =
      parent ++ (d.trail x.1 ++ x.2.ownStep).flatMap stepText := by
    have hto : pathTo parent d x.1 = parent ++ (d.trail x.1).flatMap stepText :=
      foldl_pathStep_of_ne_nil h _
    have hne : pathTo parent d x.1 ≠ [] := by
      rw [hto]
      simp [h]
    rw [path_of_ne_nil hne, foldl_pathStep_of_ne_nil hne, hto, List.flatMap_append,
      List.append_assoc]
  rw [hpath, List.map_map]
  rfl

/-- The violations of what stands at a place are listed between those of what stands before and
behind it, and no more than this changes with it. -/
theorem exists_located_replaceAt (h : d.at? p = some s) (parent : Text) :
    ∃ before after, ∀ new, (d.replaceAt p new).located parent =
      before ++ new.located (pathTo parent d p) ++ after := by
  induction p generalizing d parent with
  | nil =>
    refine ⟨[], [], fun new => ?_⟩
    rw [pathTo_nil, List.append_nil]
    rfl
  | cons i p ih =>
    obtain ⟨name, attributes, children, c, rfl, hc, hs⟩ := exists_element_of_at? h
    obtain ⟨hi, rfl⟩ := List.getElem?_eq_some_iff.mp hc
    let here := path parent (.element name attributes children)
    let below := fun x : Draft × Nat => x.1.located (here ++ "[" ++ Text.ofNat x.2 ++ "]")
    obtain ⟨before, after, hchild⟩ := ih hs (here ++ "[" ++ Text.ofNat i ++ "]")
    refine ⟨(violations (.element name attributes children)).map (fun v => (here, v)) ++
      (children.take i).zipIdx.flatMap below ++ before,
      after ++ ((children.drop (i + 1)).zipIdx (i + 1)).flatMap below, fun new => ?_⟩
    -- the element itself is looked at by the number of its children, which stays
    have hown : violations (.element name attributes
        (children.modify i fun c => c.replaceAt p new)) =
          violations (.element name attributes children) := by
      simp only [violations, List.length_modify]
    have hchildren : (children.modify i fun c => c.replaceAt p new).zipIdx.flatMap below =
        (children.take i).zipIdx.flatMap below ++
          ((children[i].replaceAt p new).located (here ++ "[" ++ Text.ofNat i ++ "]") ++
            ((children.drop (i + 1)).zipIdx (i + 1)).flatMap below) := by
      rw [List.modify_eq_take_cons_drop hi, List.zipIdx_append, List.flatMap_append,
        List.length_take_of_le hi.le, Nat.zero_add, List.zipIdx_cons, List.flatMap_cons]
    rw [replaceAt, located_element, hown]
    show _ ++ List.flatMap below _ = _
    rw [hchildren, hchild, pathTo_cons hc]
    simp only [List.append_assoc]
    rfl

/-! ## Failures of the check -/

variable {e : SpellError}

/-- A report fails exactly if it quotes a key with too many digits. -/
theorem report_eq_error_iff {path : Text} : report path v = .error e ↔
    e = .tooLong Number.digitLimit ∧ ∃ key, (v = .badKey key ∨ ∃ t, v = .badValue key t) ∧
      Nat.pow 10 Number.digitLimit ≤ key.size := by
  have hquote : ∀ (key : Scalar) (f : Text → Text),
      ((do return f (← key.literal)) : Except SpellError Text) = .error e ↔
        e = .tooLong Number.digitLimit ∧ Nat.pow 10 Number.digitLimit ≤ key.size := by
    intro key f
    rw [bind_eq_error_iff, Scalar.literal_eq_error_iff]
    simp only [Option.some.injEq, exists_eq_left']
    refine or_iff_left ?_
    rintro ⟨t, -, h⟩
    cases h
  have hmessage : report path v = .error e ↔ v.message = .error e := by
    rw [report, bind_eq_error_iff]
    refine or_iff_left ?_
    rintro ⟨t, -, h⟩
    cases h
  rw [hmessage]
  cases v with
  | badKey key =>
    rw [Violation.message, hquote]
    simp
  | badValue key t =>
    rw [Violation.message, hquote _ fun k => "attribute " ++ k ++ " must be a string, got " ++ t]
    simp
  | extraFields | contentType | malformed | unnamed | badName | attributesType | childrenType
  | fixedArity | leastArity => simp [Violation.message]

theorem mem_located_iff {path : Text} : (path, v) ∈ d.located parent ↔
    ∃ p m, d.at? p = some m ∧ v ∈ m.violations ∧ path = m.path (pathTo parent d p) := by
  simp only [located, List.mem_flatMap, List.mem_map, Prod.mk.injEq, Prod.exists, mem_places_iff]
  constructor
  · rintro ⟨p, m, hm, v, hv, rfl, rfl⟩
    exact ⟨p, m, hm, hv, rfl⟩
  · rintro ⟨p, m, hm, hv, rfl⟩
    exact ⟨p, m, hm, v, hv, rfl, rfl⟩

/-- The check has no result exactly if some node quotes a key with too many digits. -/
theorem check_eq_error_iff : d.check = .error e ↔ e = .tooLong Number.digitLimit ∧
    ∃ p m key, d.at? p = some m ∧ m.Quotes key ∧ Nat.pow 10 Number.digitLimit ≤ key.size := by
  have hcheck : d.check = .error e ↔ reportAll (d.located []) = .error e := by
    rw [check_eq_reportAll, bind_eq_error_iff]
    refine or_iff_left ?_
    rintro ⟨errors, -, h⟩
    cases h
  have hsame : ∀ (x y : Text × Violation) e e', report x.1 x.2 = .error e →
      report y.1 y.2 = .error e' → e = e' := by
    intro x y e e' hx hy
    rw [(report_eq_error_iff.mp hx).1, (report_eq_error_iff.mp hy).1]
  rw [hcheck, reportAll, mapM_eq_error_iff hsame]
  constructor
  · rintro ⟨⟨path, v⟩, hmem, hreport⟩
    obtain ⟨p, m, hm, hv, rfl⟩ := mem_located_iff.mp hmem
    obtain ⟨he, key, hquotes, hsize⟩ := report_eq_error_iff.mp hreport
    refine ⟨he, p, m, key, hm, ?_, hsize⟩
    rcases hquotes with rfl | ⟨t, rfl⟩
    · exact Or.inl (mem_violations_iff.mp hv)
    · exact Or.inr ⟨t, mem_violations_iff.mp hv⟩
  · rintro ⟨rfl, p, m, key, hm, hquotes, hsize⟩
    obtain ⟨v, hv, hkey⟩ : ∃ v ∈ m.violations, v = .badKey key ∨ ∃ t, v = .badValue key t := by
      rcases hquotes with h | ⟨t, h⟩
      · exact ⟨_, mem_violations_iff.mpr h, Or.inl rfl⟩
      · exact ⟨_, mem_violations_iff.mpr h, Or.inr ⟨t, rfl⟩⟩
    exact ⟨(_, v), mem_located_iff.mpr ⟨p, m, hm, hv, rfl⟩,
      report_eq_error_iff.mpr ⟨rfl, key, hkey, hsize⟩⟩

/-! ## What the check reports -/

/-- The check words the violations of all nodes that can be reached through lists of children, in
document order, each with the path of its node. It fails exactly if a key that is to be quoted has
too many digits, and the draft passes if no node violates anything. What is missed besides are names
with a line feed behind them. What stands at a place is reported on alike wherever it stands, the
path before it apart, and it does not matter for the other reports. -/
theorem check_exhaustive (d : Draft) :
    (d.check = do return ⟨← reportAll (d.located []), []⟩) ∧
    (∀ p m, (p, m) ∈ d.places ↔ d.at? p = some m) ∧
    (d.places.Pairwise fun x y => x.1 < y.1) ∧
    (∀ (m : Draft) v, v ∈ m.violations ↔ m.Violates Xml.isNameLine v) ∧
    (∀ (m : Draft) v, m.Violates Xml.isName v ↔ m.Violates Xml.isNameLine v ∨ m.Misses v) ∧
    (∀ e, d.check = .error e ↔ e = .tooLong Number.digitLimit ∧
      ∃ p m key, d.at? p = some m ∧ m.Quotes key ∧ Nat.pow 10 Number.digitLimit ≤ key.size) ∧
    ((∃ r, d.check = .ok r ∧ r.isValid = true) ↔
      ∀ p m, d.at? p = some m → ∀ v, ¬ m.Violates Xml.isNameLine v) ∧
    ∀ p s, d.at? p = some s → d.replaceAt p s = d ∧ ∃ before after, ∀ new,
      ((d.replaceAt p new).check = do
        let first ← reportAll before
        let own ← reports (pathTo [] d p) new
        let last ← reportAll after
        return ⟨first ++ own ++ last, []⟩) ∧
      (p ≠ [] → reports (pathTo [] d p) new =
        reportAll (new.locatedBelow.map fun x => (pathTo [] d p ++ x.1, x.2))) := by
  refine ⟨check_eq_reportAll d, fun p m => mem_places_iff, places_pairwise_lt d,
    fun m v => mem_violations_iff, fun m v => violates_isName_iff, fun e => check_eq_error_iff,
    ?_, ?_⟩
  · have hvalid : (∃ r, d.check = .ok r ∧ r.isValid = true) ↔ d.check = .ok ⟨[], []⟩ := by
      constructor
      · rintro ⟨r, hr, hempty⟩
        obtain ⟨errors, -, rfl⟩ := check_eq_ok_iff.mp hr
        obtain rfl := List.isEmpty_iff.mp hempty
        exact hr
      · intro h
        exact ⟨_, h, rfl⟩
    rw [hvalid, check_eq_ok_nil_iff]
    constructor
    · intro h p m hm v hv
      rw [← mem_violations_iff, h m (mem_nodes_iff.mpr ⟨p, hm⟩)] at hv
      cases hv
    · intro h m hm
      obtain ⟨p, hp⟩ := mem_nodes_iff.mp hm
      exact List.eq_nil_iff_forall_not_mem.mpr fun v hv => h p m hp v (mem_violations_iff.mp hv)
  · intro p s h
    obtain ⟨before, after, hlocated⟩ := exists_located_replaceAt h []
    refine ⟨replaceAt_self h, before, after, fun new => ⟨?_, fun hp => ?_⟩⟩
    · rw [check_eq_reportAll, hlocated new, reportAll_append, reportAll_append,
        reports_eq_reportAll]
      simp only [bind_assoc, pure_bind]
    · rw [reports_eq_reportAll, located_of_ne_nil (pathTo_ne_nil h hp)]

-- The attributes and the children of an element are inspected apart from each other.
example : check (.element (.text "mn") .null [.plain (.int 1)]) = .ok
    ⟨[ "mn: attributes must be a mapping, got NoneType",
      "mn[0]: malformed node of type int" ], []⟩ := by decide +kernel

-- What is no name passes if it is one up to a line feed, and a key may end the check.
example : check (.element (.text "mi\n") (.mapping []) []) = .ok ⟨[], []⟩ := by decide
example : check (.element (.text "mi")
    (.mapping [(.number (.int (Nat.pow 10 5000)), .text "x")]) []) = .error (.tooLong 4300) := by
  decide +kernel

end MathMarkup.Draft
