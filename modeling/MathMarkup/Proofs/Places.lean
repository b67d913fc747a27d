import Mathlib.Data.List.Lex
import Mathlib.Data.List.Pairwise
import MathMarkup.Proofs.DraftTree

/-!
# Places in a draft

The place of a node in a draft is the list of the numbers of the children that lead to it from the
root (`Draft.at?`). `Draft.places` lists all nodes with their places. Document order is the order
of the places as lists, a place before those that go on behind it (`Draft.places_pairwise_lt`).
Another draft may be put at a place (`Draft.replaceAt`).
-/

namespace MathMarkup.Draft

/-- The children of an element, if they are a list. -/
def childNodes : Draft → List Draft
  | .element _ _ children => children
  | _ => []

/-- The node at a place. -/
def at? : Draft → List Nat → Option Draft
  | d, [] => some d
  | d, i :: p => d.childNodes[i]?.bind fun c => c.at? p

/-- The draft with another one at a place. -/
def replaceAt : Draft → List Nat → Draft → Draft
  | _, [], new => new
  | .element name attributes children, i :: p, new =>
    .element name attributes (children.modify i fun c => c.replaceAt p new)
  | d, _ :: _, _ => d

mutual

/-- All nodes with their places, in document order. -/
def places : Draft → List (List Nat × Draft)
  | .element name attributes children =>
    ([], .element name attributes children) :: placesOfAll 0 children
  | .text content extra => [([], .text content extra)]
  | .childless name attributes children => [([], .childless name attributes children)]
  | .plain value => [([], .plain value)]

/-- The nodes of children, which are numbered from the given number on. -/
def placesOfAll (index : Nat) : List Draft → List (List Nat × Draft)
  | [] => []
  | c :: rest => (c.places.map fun x => (index :: x.1, x.2)) ++ placesOfAll (index + 1) rest

end

variable {d m s : Draft} {i : Nat} {p q : List Nat}

/-- To show something of a draft, it may be assumed of its children, if they are a list. -/
@[elab_as_elim]
theorem childInduction {motive : Draft → Prop} (d : Draft)
    (step : ∀ d, (∀ c ∈ d.childNodes, motive c) → motive d) : motive d := by
  induction d using inductionOn with
  | element name attributes children ih => exact step _ ih
  | text content extra => exact step _ nofun
  | childless name attributes children => exact step _ nofun
  | plain value => exact step _ nofun

theorem at?_nil (d : Draft) : d.at? [] = some d := rfl

theorem at?_cons (d : Draft) (i : Nat) (p : List Nat) :
    d.at? (i :: p) = d.childNodes[i]?.bind fun c => c.at? p := rfl

theorem at?_cons_eq_some_iff :
    d.at? (i :: p) = some m ↔ ∃ c, d.childNodes[i]? = some c ∧ c.at? p = some m := by
  rw [at?_cons, Option.bind_eq_some_iff]

/-- A node at a place behind the root lies in a child of an element. -/
theorem exists_element_of_at? (h : d.at? (i :: p) = some m) :
    ∃ name attributes children c, d = .element name attributes children ∧ children[i]? = some c ∧
      c.at? p = some m := by
  obtain ⟨c, hc, hm⟩ := at?_cons_eq_some_iff.mp h
  cases d with
  | element name attributes children => exact ⟨name, attributes, children, c, rfl, hc, hm⟩
  | text content extra => cases hc
  | childless name attributes children => cases hc
  | plain value => cases hc

/-! ## The list of all places -/

theorem placesOfAll_eq_flatMap (index : Nat) (children : List Draft) :
    placesOfAll index children = (children.zipIdx index).flatMap fun x =>
      x.1.places.map fun y => (x.2 :: y.1, y.2) := by
  induction children generalizing index with
  | nil => rfl
  | cons c rest ih => rw [placesOfAll, ih, List.zipIdx_cons, List.flatMap_cons]

theorem places_eq (d : Draft) :
    d.places = ([], d) :: d.childNodes.zipIdx.flatMap fun x =>
      x.1.places.map fun y => (x.2 :: y.1, y.2) := by
  cases d with
  | element name attributes children => rw [places, placesOfAll_eq_flatMap, childNodes]
  | text content extra => rfl
  | childless name attributes children => rfl
  | plain value => rfl

/-- Each place of a draft is listed with its node. -/
theorem mem_places_iff : (p, m) ∈ d.places ↔ d.at? p = some m := by
  induction d using childInduction generalizing p with
  | step d ih =>
    rw [places_eq, List.mem_cons, List.mem_flatMap]
    cases p with
    | nil =>
      rw [at?_nil, Option.some.injEq]
      constructor
      · rintro (h | ⟨x, -, h⟩)
        · exact (Prod.mk.inj h).2.symm
        · obtain ⟨y, -, h⟩ := List.mem_map.mp h
          cases h
      · rintro rfl
        exact Or.inl rfl
    | cons i p =>
      rw [at?_cons_eq_some_iff]
      constructor
      · rintro (h | ⟨x, hx, h⟩)
        · cases h
        · obtain ⟨y, hy, h⟩ := List.mem_map.mp h
          obtain ⟨hplace, rfl⟩ := Prod.mk.inj h
          obtain ⟨rfl, rfl⟩ := List.cons.inj hplace
          have hchild := List.mem_zipIdx_iff_getElem?.mp hx
          exact ⟨x.1, hchild, (ih _ (List.mem_of_getElem? hchild)).mp hy⟩
      · rintro ⟨c, hc, hm⟩
        have hmem := (ih c (List.mem_of_getElem? hc)).mpr hm
        exact Or.inr ⟨(c, i), List.mem_zipIdx_iff_getElem?.mpr hc,
          List.mem_map.mpr ⟨(p, m), hmem, rfl⟩⟩

/-- The places are listed in document order, each once. -/
theorem places_pairwise_lt (d : Draft) : d.places.Pairwise fun x y => x.1 < y.1 := by
  induction d using childInduction with
  | step d ih =>
    rw [places_eq, List.pairwise_cons, List.pairwise_flatMap]
    refine ⟨?_, ?_, ?_⟩
    · intro y hy
      obtain ⟨x, -, hy⟩ := List.mem_flatMap.mp hy
      obtain ⟨z, -, rfl⟩ := List.mem_map.mp hy
      exact List.nil_lt_cons _ _
    · intro x hx
      have hchild := List.mem_of_getElem? (List.mem_zipIdx_iff_getElem?.mp hx)
      rw [List.pairwise_map]
      exact (ih x.1 hchild).imp fun h => List.cons_lt_cons_iff.mpr (Or.inr ⟨rfl, h⟩)
    · have hnumbers : d.childNodes.zipIdx.Pairwise fun x y => x.2 < y.2 := by
        rw [← List.pairwise_map, List.zipIdx_map_snd]
        exact List.pairwise_lt_range'
      refine hnumbers.imp fun hlt => ?_
      intro x hx y hy
      obtain ⟨x, -, rfl⟩ := List.mem_map.mp hx
      obtain ⟨y, -, rfl⟩ := List.mem_map.mp hy
      exact List.cons_lt_cons_iff.mpr (Or.inl hlt)

/-- The nodes of a draft are those at its places. -/
theorem map_snd_places (d : Draft) : d.places.map Prod.snd = d.nodes := by
  induction d using childInduction with
  | step d ih =>
    have hnodes : d.nodes = d :: d.childNodes.flatMap nodes := by
      cases d with
      | element name attributes children => rw [nodes, nodesOfAll_eq_flatMap, childNodes]
      | text content extra => rfl
      | childless name attributes children => rfl
      | plain value => rfl
    have hbelow : ∀ x ∈ d.childNodes.zipIdx,
        (x.1.places.map fun y => ((x.2 :: y.1, y.2) : List Nat × Draft)).map Prod.snd =
          x.1.nodes := by
      intro x hx
      rw [List.map_map, ← ih x.1 (List.mem_of_getElem? (List.mem_zipIdx_iff_getElem?.mp hx))]
      rfl
    rw [places_eq, hnodes, List.map_cons, List.map_flatMap, List.flatMap_congr hbelow,
      ← List.flatMap_map (f := Prod.fst) (g := nodes), List.zipIdx_map_fst]

theorem mem_nodes_iff : m ∈ d.nodes ↔ ∃ p, d.at? p = some m := by
  rw [← map_snd_places, List.mem_map]
  constructor
  · rintro ⟨⟨p, m⟩, h, rfl⟩
    exact ⟨p, mem_places_iff.mp h⟩
  · rintro ⟨p, h⟩
    exact ⟨(p, m), mem_places_iff.mpr h, rfl⟩

/-! ## Another draft at a place -/

/-- What stands at a place may be put there. -/
theorem replaceAt_self (h : d.at? p = some s) : d.replaceAt p s = d := by
  induction p generalizing d with
  | nil => exact (Option.some.inj h).symm
  | cons i p ih =>
    obtain ⟨name, attributes, children, c, rfl, hc, hs⟩ := exists_element_of_at? h
    rw [replaceAt]
    congr 1
    refine List.ext_getElem? fun j => ?_
    rw [List.getElem?_modify]
    by_cases hj : i = j
    · subst hj
      simp [hc, ih hs]
    · simp [hj]

end MathMarkup.Draft
