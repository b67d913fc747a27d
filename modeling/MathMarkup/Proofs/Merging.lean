import Mathlib.Data.List.Chain
import MathMarkup.Proofs.Tree

/-!
# Merging texts

Texts that stand side by side are written as one text, and an empty text is not written at all. So
a written tree tells no more than the tree with its texts merged (`Node.merged`), where neither
occurs below the root (`Node.separated_merged`).
-/

namespace MathMarkup.Node

/-- Nodes with another node before them. An empty text is left out, and a text is put together with
a text that it would stand beside. -/
def consMerged : Node → List Node → List Node
  | .text s, .text t :: rest => .text (s ++ t) :: rest
  | .text s, rest => if s.isEmpty then rest else .text s :: rest
  | n, rest => n :: rest

mutual

/-- A tree with the texts below its root merged. -/
def merged : Node → Node
  | .text content => .text content
  | .element name attributes children => .element name attributes (mergedAll children)

/-- Children with their texts merged. -/
def mergedAll : List Node → List Node
  | [] => []
  | n :: rest => n.merged.consMerged (mergedAll rest)

end

/-! ## One node more -/

@[simp] theorem consMerged_element (name : Text) (attributes : Assoc Text Text)
    (children rest : List Node) :
    (element name attributes children).consMerged rest =
      element name attributes children :: rest := rfl

theorem consMerged_nil (rest : List Node) : (text []).consMerged rest = rest := by
  cases rest with
  | nil => rfl
  | cons n rest => cases n <;> rfl

/-- A text that is not empty and has no text behind it stays as it is. -/
theorem consMerged_of_head {s : Text} (hs : s ≠ []) {rest : List Node}
    (h : ∀ n, rest.head? = some n → n.isElement = true) :
    (text s).consMerged rest = text s :: rest := by
  have hfilled : s.isEmpty = false := List.isEmpty_eq_false_iff.mpr hs
  cases rest with
  | nil => simp [consMerged, hfilled]
  | cons n rest =>
    cases n with
    | text t => cases h _ rfl
    | element name attributes children => simp [consMerged, hfilled]

theorem consMerged_consMerged (s t : Text) (rest : List Node) :
    (text s).consMerged ((text t).consMerged rest) = (text (s ++ t)).consMerged rest := by
  by_cases ht : t = []
  · rw [ht, consMerged_nil, List.append_nil]
  · have hst : s ++ t ≠ [] := by simp [ht]
    cases rest with
    | nil =>
      rw [consMerged_of_head ht (by simp), consMerged_of_head hst (by simp)]
      rfl
    | cons n rest =>
      cases n with
      | text u =>
        show [text (s ++ (t ++ u))] ++ rest = text (s ++ t ++ u) :: rest
        rw [List.append_assoc]
        rfl
      | element name attributes children =>
        rw [consMerged_of_head ht (by simp), consMerged_of_head hst (by simp)]
        rfl

/-! ## Separated texts -/

/-- No node is the empty text, and no two texts stand side by side. -/
def AreSeparated (nodes : List Node) : Prop :=
  (∀ n ∈ nodes, n.isEmpty = false) ∧
    nodes.IsChain fun a b => a.isElement = true ∨ b.isElement = true

/-- The texts among the children of an element are separated. -/
def Separated : Node → Prop
  | .text _ => True
  | .element _ _ children => AreSeparated children

theorem AreSeparated.consMerged {nodes : List Node} (h : AreSeparated nodes) (n : Node) :
    AreSeparated (n.consMerged nodes) := by
  obtain ⟨hfilled, hchain⟩ := h
  cases n with
  | element name attributes children =>
    refine ⟨List.forall_mem_cons.mpr ⟨rfl, hfilled⟩, ?_⟩
    cases nodes with
    | nil => exact List.isChain_singleton _
    | cons m rest => exact List.isChain_cons_cons.mpr ⟨Or.inl rfl, hchain⟩
  | text s =>
    by_cases hs : s = []
    · rw [hs, consMerged_nil]
      exact ⟨hfilled, hchain⟩
    · have hempty : (text s).isEmpty = false := List.isEmpty_eq_false_iff.mpr hs
      cases nodes with
      | nil =>
        rw [consMerged_of_head hs (by simp)]
        exact ⟨by simpa using hempty, List.isChain_singleton _⟩
      | cons m rest =>
        cases m with
        | element name attributes children =>
          rw [consMerged_of_head hs (by simp)]
          exact ⟨List.forall_mem_cons.mpr ⟨hempty, hfilled⟩,
            List.isChain_cons_cons.mpr ⟨Or.inr rfl, hchain⟩⟩
        | text t =>
          have hlonger : (text (s ++ t)).isEmpty = false :=
            List.isEmpty_eq_false_iff.mpr (by simp [hs])
          refine ⟨List.forall_mem_cons.mpr ⟨hlonger, (List.forall_mem_cons.mp hfilled).2⟩, ?_⟩
          -- the longer text has the neighbour of the text that it was put together with
          cases rest with
          | nil => exact List.isChain_singleton _
          | cons k rest => exact List.isChain_cons_cons.mpr (List.isChain_cons_cons.mp hchain)

theorem areSeparated_mergedAll (children : List Node) : AreSeparated (mergedAll children) := by
  induction children with
  | nil => exact ⟨by simp [mergedAll], List.isChain_nil⟩
  | cons n rest ih => exact ih.consMerged n.merged

theorem mem_consMerged {n m : Node} {rest : List Node} (h : m ∈ n.consMerged rest) :
    m = n ∨ m ∈ rest ∨ m.isElement = false := by
  unfold consMerged at h
  split at h
  · rcases List.mem_cons.mp h with rfl | hm
    · exact Or.inr (Or.inr rfl)
    · exact Or.inr (Or.inl (List.mem_cons_of_mem _ hm))
  · split at h
    · exact Or.inr (Or.inl h)
    · exact (List.mem_cons.mp h).imp_right Or.inl
  · exact (List.mem_cons.mp h).imp_right Or.inl

/-- The elements among merged children are the merged elements. -/
theorem mem_mergedAll {children : List Node} {m : Node} (h : m ∈ mergedAll children) :
    (∃ c ∈ children, m = c.merged) ∨ m.isElement = false := by
  induction children with
  | nil => cases h
  | cons c rest ih =>
    rcases mem_consMerged h with rfl | hm | htext
    · exact Or.inl ⟨c, List.mem_cons_self, rfl⟩
    · exact (ih hm).imp_left fun ⟨d, hd, heq⟩ => ⟨d, List.mem_cons_of_mem _ hd, heq⟩
    · exact Or.inr htext

/-- Below the root of a merged tree texts are separated everywhere. -/
theorem separated_merged (n : Node) : ∀ m ∈ n.merged.nodes, m.Separated := by
  induction n using Node.inductionOn with
  | text content =>
    intro m hm
    rw [mem_nodes_text.mp hm]
    trivial
  | element name attributes children ih =>
    intro m hm
    rcases mem_nodes_element.mp hm with rfl | ⟨c, hc, hm⟩
    · exact areSeparated_mergedAll children
    · rcases mem_mergedAll hc with ⟨d, hd, rfl⟩ | htext
      · exact ih d hd m hm
      · cases c with
        | text content =>
          rw [mem_nodes_text.mp hm]
          trivial
        | element => cases htext

end MathMarkup.Node
