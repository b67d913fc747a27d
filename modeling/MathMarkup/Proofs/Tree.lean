import Mathlib.Data.List.Basic
import MathMarkup.Proofs.DraftTree

/-!
# The nodes of a tree

`Node.nodes` lists a node and all below it. What a check of a tree finds is a matter of the single
nodes: a tree has no report exactly if each of its nodes is sound by itself (`check_ofNode_iff`).
-/

namespace MathMarkup

namespace Node

/-- Whether the node is an element. -/
def isElement : Node → Bool
  | .text _ => false
  | .element _ _ _ => true

@[simp] theorem isElement_text (t : Text) : (Node.text t).isElement = false := rfl

@[simp] theorem isElement_element (name : Text) (attributes : Assoc Text Text)
    (children : List Node) : (Node.element name attributes children).isElement = true := rfl

mutual

/-- The node itself and all below it, in document order. -/
def nodes : Node → List Node
  | .text content => [.text content]
  | .element name attributes children =>
    .element name attributes children :: nodesOfAll children

/-- The nodes of several trees, one after the other. -/
def nodesOfAll : List Node → List Node
  | [] => []
  | c :: rest => c.nodes ++ nodesOfAll rest

end

/-- To show something of a node, it may be assumed of its children. -/
@[elab_as_elim]
theorem inductionOn {motive : Node → Prop} (n : Node) (text : ∀ content, motive (.text content))
    (element : ∀ name attributes children, (∀ c ∈ children, motive c) →
      motive (.element name attributes children)) : motive n :=
  match n with
  | .text content => text content
  | .element name attributes children =>
    element name attributes children fun c hc =>
      have : sizeOf c < sizeOf children := List.sizeOf_lt_of_mem hc
      inductionOn c text element
termination_by sizeOf n
decreasing_by
  simp only [Node.element.sizeOf_spec]
  omega

theorem nodesOfAll_eq_flatMap (children : List Node) :
    nodesOfAll children = children.flatMap nodes := by
  induction children with
  | nil => rfl
  | cons c rest ih => rw [nodesOfAll, ih, List.flatMap_cons]

theorem innerTexts_eq_flatMap (children : List Node) :
    innerTexts children = children.flatMap innerText := by
  induction children with
  | nil => rfl
  | cons c rest ih => rw [innerTexts, ih, List.flatMap_cons]

theorem mem_nodesOfAll {m : Node} {children : List Node} :
    m ∈ nodesOfAll children ↔ ∃ c ∈ children, m ∈ c.nodes := by
  rw [nodesOfAll_eq_flatMap, List.mem_flatMap]

theorem mem_nodes_text {m : Node} {content : Text} :
    m ∈ (Node.text content).nodes ↔ m = .text content := by
  simp [nodes]

theorem mem_nodes_element {m : Node} {name : Text} {attributes : Assoc Text Text}
    {children : List Node} :
    m ∈ (Node.element name attributes children).nodes ↔
      m = .element name attributes children ∨ ∃ c ∈ children, m ∈ c.nodes := by
  simp [nodes, mem_nodesOfAll]

theorem mem_nodes_self (n : Node) : n ∈ n.nodes := by
  cases n with
  | text content => exact mem_nodes_text.mpr rfl
  | element name attributes children => exact mem_nodes_element.mpr (Or.inl rfl)

/-! ## Sound nodes -/

/-- The elements with two children. -/
def pairNames : List Text :=
  ["mfrac", "msub", "msup", "munder", "mover", "mroot"].map Text.ofString

/-- The elements with three children. -/
def tripleNames : List Text :=
  ["msubsup", "munderover"].map Text.ofString

/-- The elements that are not empty. -/
def filledNames : List Text :=
  ["mtable", "mtr"].map Text.ofString

/-- A node with proper names and as many children as its name asks for, whatever stands below. -/
def Sound : Node → Prop
  | .text _ => True
  | .element name attributes children =>
    Xml.isNameLine name = true ∧ (∀ a ∈ attributes, Xml.isNameLine a.1 = true) ∧
    (name ∈ pairNames → children.length = 2) ∧ (name ∈ tripleNames → children.length = 3) ∧
    (name ∈ filledNames → 1 ≤ children.length)

end Node

namespace Markup

/-- The elements with a fixed number of children, by that number. -/
theorem fixedArity?_eq_some_iff {name : Text} {k : Nat} :
    fixedArity? name = some k ↔
      name ∈ Node.pairNames ∧ k = 2 ∨ name ∈ Node.tripleNames ∧ k = 3 := by
  simp only [fixedArity?, fixedArities, Assoc.get?, Node.pairNames, Node.tripleNames, List.map_cons,
    List.map_nil, List.mem_cons, List.not_mem_nil, or_false]
  constructor
  · intro h
    repeat' split at h
    all_goals cases h
    all_goals subst_vars; simp
  · rintro (⟨h, rfl⟩ | ⟨h, rfl⟩)
    · rcases h with rfl | rfl | rfl | rfl | rfl | rfl <;> simp
    · rcases h with rfl | rfl <;> simp

theorem leastArity?_eq_some_iff {name : Text} {k : Nat} :
    leastArity? name = some k ↔ name ∈ Node.filledNames ∧ k = 1 := by
  simp only [leastArity?, Node.filledNames, List.map_cons, List.map_nil, List.mem_cons,
    List.not_mem_nil, or_false]
  split
  · next h => simp [h, eq_comm]
  · next h => simp [h]

end Markup

namespace Draft

open Node

theorem nameViolations_text_eq_nil_iff {name : Text} :
    nameViolations (.text name) = [] ↔ Xml.isNameLine name = true := by
  cases name with
  | nil => simp [nameViolations, Xml.isNameLine]
  | cons c rest => simp [nameViolations]

theorem attributesViolations_ofNode_eq_nil_iff {attributes : Assoc Text Text} :
    attributesViolations (.mapping (attributes.map fun a => (.text a.1, .text a.2))) = [] ↔
      ∀ a ∈ attributes, Xml.isNameLine a.1 = true := by
  simp only [attributesViolations, List.flatMap_map, List.flatMap_eq_nil_iff]
  refine forall₂_congr fun a _ => ?_
  simp [attributeViolations, Value.isText]

theorem arityViolations_eq_nil_iff {name : Text} {found : Nat} :
    arityViolations (.text name) found = [] ↔
      (name ∈ pairNames → found = 2) ∧ (name ∈ tripleNames → found = 3) ∧
        (name ∈ filledNames → 1 ≤ found) := by
  have hfixed : (∀ k, Markup.fixedArity? name = some k → found = k) ↔
      (name ∈ pairNames → found = 2) ∧ (name ∈ tripleNames → found = 3) := by
    simp only [Markup.fixedArity?_eq_some_iff]
    constructor
    · intro h
      exact ⟨fun hp => h 2 (Or.inl ⟨hp, rfl⟩), fun ht => h 3 (Or.inr ⟨ht, rfl⟩)⟩
    · rintro ⟨hp, ht⟩ k (⟨h, rfl⟩ | ⟨h, rfl⟩)
      · exact hp h
      · exact ht h
  have hleast : (∀ k, Markup.leastArity? name = some k → k ≤ found) ↔
      (name ∈ filledNames → 1 ≤ found) := by
    simp only [Markup.leastArity?_eq_some_iff]
    exact ⟨fun h hn => h 1 ⟨hn, rfl⟩, fun h k ⟨hn, hk⟩ => hk ▸ h hn⟩
  rw [← and_assoc, ← hfixed, ← hleast]
  cases hf : Markup.fixedArity? name <;> cases hl : Markup.leastArity? name <;>
    simp [arityViolations, hf, hl]

/-- A node has no violation of its own exactly if it is sound. -/
theorem violations_ofNode_eq_nil_iff (n : Node) : (ofNode n).violations = [] ↔ n.Sound := by
  cases n with
  | text content => simp [ofNode, violations, textViolations, sortedNames, Value.isText, Sound]
  | element name attributes children =>
    simp only [ofNode, violations, List.append_eq_nil_iff, nameViolations_text_eq_nil_iff,
      attributesViolations_ofNode_eq_nil_iff, arityViolations_eq_nil_iff, Sound, ofNodes_eq_map,
      List.length_map, and_assoc]

theorem nodes_ofNode (n : Node) : (ofNode n).nodes = n.nodes.map ofNode := by
  induction n using Node.inductionOn with
  | text content => rfl
  | element name attributes children ih =>
    simp only [ofNode, nodes, Node.nodes, List.map_cons, ofNodes_eq_map, nodesOfAll_eq_flatMap,
      Node.nodesOfAll_eq_flatMap, List.flatMap_map, List.map_flatMap]
    rw [List.flatMap_congr ih]

/-- A tree passes the check exactly if all its nodes are sound. -/
theorem check_ofNode_iff (n : Node) :
    check (ofNode n) = .ok ⟨[], []⟩ ↔ ∀ m ∈ n.nodes, m.Sound := by
  simp only [check_eq_ok_nil_iff, nodes_ofNode, List.forall_mem_map, violations_ofNode_eq_nil_iff]

end Draft

end MathMarkup
