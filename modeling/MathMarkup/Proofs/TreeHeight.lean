import MathMarkup.Parser.Script

/-!
# The height of a tree

The height of a node is the number of elements on the longest way down. A script behind a run in
parentheses stands around a row that holds the run; such a fold adds two levels, and folds are
counted apart (`Node.folds`). A node is low if all other levels are few (`Node.Low`).
-/

namespace MathMarkup

namespace Node

/-! ## Heights -/

mutual

/-- The number of elements on the longest way down from the node. -/
def height : Node → Nat
  | .text _ => 0
  | .element _ _ children => heightOfAll children + 1

/-- The height of the highest node. -/
def heightOfAll : List Node → Nat
  | [] => 0
  | c :: rest => max c.height (heightOfAll rest)

end

/-- A row that starts with an opening parenthesis and ends with a closing one. -/
def isParenthesised : Node → Bool
  | .text _ => false
  | .element name _ children => name = "mrow" && children.head?.any (Parser.isParen "(") &&
    children.getLast?.any (Parser.isParen ")")

/-- The elements of a base with scripts. -/
def scriptedNames : List Text :=
  ["msub", "msup", "msubsup", "munder", "mover", "munderover"].map Text.ofString

/-- Whether the children are those of a script element around a row in parentheses. -/
def isFold (name : Text) (children : List Node) : Bool :=
  scriptedNames.contains name && children.head?.any isParenthesised

mutual

/-- The greatest number of scripts around rows in parentheses on a way down from the node. -/
def folds : Node → Nat
  | .text _ => 0
  | .element name _ children => foldsOfAll children + if isFold name children then 1 else 0

/-- The greatest number of folds in any of the nodes. -/
def foldsOfAll : List Node → Nat
  | [] => 0
  | c :: rest => max c.folds (foldsOfAll rest)

end

variable {n : Node} {children : List Node} {name : Text} {attributes : Assoc Text Text} {k m : Nat}

theorem heightOfAll_le_iff : heightOfAll children ≤ k ↔ ∀ c ∈ children, c.height ≤ k := by
  induction children with
  | nil => simp [heightOfAll]
  | cons c rest ih => rw [heightOfAll, Nat.max_le, ih, List.forall_mem_cons]

theorem folds_le_foldsOfAll {c : Node} (h : c ∈ children) : c.folds ≤ foldsOfAll children := by
  induction children with
  | nil => cases h
  | cons d rest ih =>
    unfold foldsOfAll
    rcases List.mem_cons.mp h with rfl | h
    · exact Nat.le_max_left _ _
    · exact Nat.le_trans (ih h) (Nat.le_max_right _ _)

/-! ## Low nodes -/

/-- The height is at most the number of levels, with two more for each fold. -/
def Low (k : Nat) (n : Node) : Prop :=
  n.height ≤ k + 2 * n.folds

theorem Low.mono (h : n.Low k) (hk : k ≤ m) : n.Low m := by
  unfold Low at *
  omega

theorem low_text (content : Text) : (Node.text content).Low k :=
  Nat.zero_le _

theorem heightOfAll_le (h : ∀ c ∈ children, c.Low k) :
    heightOfAll children ≤ k + 2 * foldsOfAll children := by
  refine heightOfAll_le_iff.mpr fun c hc => ?_
  have hlow : c.height ≤ k + 2 * c.folds := h c hc
  have hfolds := folds_le_foldsOfAll hc
  omega

/-- An element is a level above its children. -/
theorem low_element (h : ∀ c ∈ children, c.Low k) :
    (element name attributes children).Low (k + 1) := by
  have hall := heightOfAll_le h
  unfold Low height folds
  omega

/-- A script element around a row in parentheses is at the level of what the row holds. -/
theorem low_fold {rowAttributes : Assoc Text Text} {inner arguments : List Node}
    (hname : name ∈ scriptedNames)
    (hrow : (element "mrow" rowAttributes inner).isParenthesised = true)
    (hinner : ∀ c ∈ inner, c.Low k) (harguments : ∀ c ∈ arguments, c.Low k) :
    (element name attributes (element "mrow" rowAttributes inner :: arguments)).Low k := by
  have hfold : isFold name (element "mrow" rowAttributes inner :: arguments) = true := by
    simp [isFold, hname, hrow]
  have hin := heightOfAll_le hinner
  have hargs := heightOfAll_le harguments
  simp only [Low, height, heightOfAll, folds, foldsOfAll, hfold, if_true]
  omega

theorem low_leaf (name content : Text) (attributes : Assoc Text Text) :
    (leaf name content attributes).Low 1 :=
  low_element (k := 0) (List.forall_mem_singleton.mpr (low_text content))

theorem low_empty (name : Text) (attributes : Assoc Text Text) :
    (element name attributes []).Low 1 :=
  low_element (k := 0) nofun

theorem low_one (h : n.Low k) : (element name attributes [n]).Low (k + 1) :=
  low_element (List.forall_mem_singleton.mpr h)

theorem low_two {n' : Node} (h : n.Low k) (h' : n'.Low k) :
    (element name attributes [n, n']).Low (k + 1) :=
  low_element (List.forall_mem_cons.mpr ⟨h, List.forall_mem_singleton.mpr h'⟩)

theorem low_collapse (h : ∀ c ∈ children, c.Low k) : (collapse children).Low (k + 1) := by
  unfold collapse
  split
  · exact low_text _
  · exact (h _ List.mem_cons_self).mono (Nat.le_succ k)
  · exact low_element h

theorem Low.slot (h : n.Low k) (hk : 1 ≤ k) : n.slot.Low k := by
  unfold Node.slot
  split
  · exact (low_empty _ _).mono hk
  · exact h

/-- Attributes do not count. -/
theorem Low.setAttribute (h : n.Low k) (key value : Text) : (n.setAttribute key value).Low k := by
  cases n with
  | text content => exact h
  | element name attributes children => exact h

theorem Low.addAttribute (h : n.Low k) (key value : Text) : (n.addAttribute key value).Low k := by
  cases n with
  | text content => exact h
  | element name attributes children => exact h

end Node

end MathMarkup
