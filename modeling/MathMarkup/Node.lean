import MathMarkup.Assoc
import MathMarkup.Text.CodePoint

/-!
# Trees of markup

A node is a text or an element with attributes in order and children. This is what a parse gives;
trees that may be malformed are drafts (`MathMarkup.Draft`).
-/

namespace MathMarkup

/-- A piece of markup. -/
inductive Node where
  | text (content : Text)
  | element (name : Text) (attributes : Assoc Text Text) (children : List Node)
deriving Repr, Inhabited

namespace Node

mutual

/-- Equality of nodes is decided part by part. -/
def decEq : (a b : Node) → Decidable (a = b)
  | .text s, .text t => decidable_of_iff (s = t) (by simp)
  | .text _, .element _ _ _ => isFalse (by simp)
  | .element _ _ _, .text _ => isFalse (by simp)
  | .element n a c, .element n' a' c' =>
    match decEqList c c' with
    | isTrue h => decidable_of_iff (n = n' ∧ a = a') (by simp [h])
    | isFalse h => isFalse (by simp [h])

/-- Equality of lists of nodes is decided node by node. -/
def decEqList : (a b : List Node) → Decidable (a = b)
  | [], [] => isTrue rfl
  | [], _ :: _ => isFalse (by simp)
  | _ :: _, [] => isFalse (by simp)
  | x :: xs, y :: ys =>
    match decEq x y, decEqList xs ys with
    | isTrue h, isTrue h' => isTrue (by simp [h, h'])
    | isFalse h, _ => isFalse (by simp [h])
    | _, isFalse h => isFalse (by simp [h])

end

instance : DecidableEq Node := decEq

/-! ## Parts -/

/-- Whether the node is an element with the given name. -/
def hasName (name : Text) : Node → Bool
  | .text _ => false
  | .element n _ _ => n = name

/-- Whether the node is the empty text. -/
def isEmpty : Node → Bool
  | .text content => content.isEmpty
  | .element _ _ _ => false

/-- The value of an attribute. -/
def attribute? (key : Text) : Node → Option Text
  | .text _ => none
  | .element _ attributes _ => attributes.get? key

/-- The node with an attribute set. A text has no attributes and stays as it is. -/
def setAttribute (key value : Text) : Node → Node
  | .text content => .text content
  | .element name attributes children => .element name (attributes.insert key value) children

/-- The node with an attribute set unless it has a value already. -/
def addAttribute (key value : Text) : Node → Node
  | .text content => .text content
  | .element name attributes children => .element name (attributes.insertNew key value) children

mutual

/-- The text content of a node. -/
def innerText : Node → Text
  | .text content => content
  | .element _ _ children => innerTexts children

/-- The text contents of several nodes, one after the other. -/
def innerTexts : List Node → Text
  | [] => []
  | c :: rest => c.innerText ++ innerTexts rest

end

/-! ## Building nodes -/

/-- An element that holds a single text. -/
def leaf (name content : Text) (attributes : Assoc Text Text) : Node :=
  .element name attributes [.text content]

/-- An identifier. -/
def identifier (content : Text) : Node :=
  leaf "mi" content []

/-- A number. -/
def number (content : Text) : Node :=
  leaf "mn" content []

/-- An operator. -/
def operator (content : Text) (attributes : Assoc Text Text) : Node :=
  leaf "mo" content attributes

/-- Text inside a formula. -/
def textElement (content : Text) (attributes : Assoc Text Text) : Node :=
  leaf "mtext" content attributes

/-- A row of nodes. -/
def row (children : List Node) : Node :=
  .element "mrow" [] children

/-- Siblings as one node: the empty text for none, a single one as it is, and a row for more. -/
def collapse : List Node → Node
  | [] => .text []
  | [child] => child
  | children => row children

/-- A node for a place that must hold an element: an empty row in place of the empty text. -/
def slot (node : Node) : Node :=
  if node.isEmpty then row [] else node

@[simp] theorem isEmpty_text_nil : (Node.text []).isEmpty = true := rfl

/-- What fills a slot is never the empty text. -/
theorem isEmpty_slot (node : Node) : node.slot.isEmpty = false := by
  unfold slot
  split
  · rfl
  · next h => simpa using h

end Node

end MathMarkup
