import MathMarkup.Node
import MathMarkup.Value

/-!
# Drafts

A draft is a tree put together by hand and not yet checked: any value may stand where a name, an
attribute mapping, a text or a list of children belongs. A list of children is one of drafts, so no
tree is a draft in two ways. Every well-formed tree is a draft (`Draft.ofNode`).
-/

namespace MathMarkup

/-- A value in the place of children that is no list of them. -/
structure Misplaced where
  value : Value
  notList : value.isList = false
deriving Repr

instance : Inhabited Misplaced :=
  ⟨⟨.null, rfl⟩⟩

/-- A tree that may be malformed. -/
inductive Draft where
  /-- A text node, with the names of further fields that it carries. -/
  | text (content : Value) (extra : List Text)
  /-- An element with a list of children. -/
  | element (name attributes : Value) (children : List Draft)
  /-- An element with some other value in the place of its children. -/
  | childless (name attributes : Value) (children : Misplaced)
  /-- A value that is no node. -/
  | plain (value : Value)
deriving Repr, Inhabited

namespace Draft

mutual

/-- A well-formed tree as a draft. -/
def ofNode : Node → Draft
  | .text content => .text (.text content) []
  | .element name attributes children =>
    .element (.text name) (.mapping (attributes.map fun a => (.text a.1, .text a.2)))
      (ofNodes children)

/-- Well-formed trees as drafts. -/
def ofNodes : List Node → List Draft
  | [] => []
  | n :: rest => ofNode n :: ofNodes rest

end

theorem ofNodes_eq_map (nodes : List Node) : ofNodes nodes = nodes.map ofNode := by
  induction nodes with
  | nil => rfl
  | cons n rest ih => simp [ofNodes, ih]

/-- Whether the draft is an element with the given name. -/
def hasName (name : Text) : Draft → Bool
  | .element (.text n) _ _ => n = name
  | .childless (.text n) _ _ => n = name
  | _ => false

/-! ## Inspection -/

/-- Why a draft cannot be inspected. -/
inductive InspectError where
  /-- The children are of a type that has no items. -/
  | notIterable (operandName : Text)
  /-- A collected part of the content is no text. -/
  | notText (index : Nat) (typeName : Text)
deriving DecidableEq, Repr

/-- The message of an error. -/
def InspectError.message : InspectError → Text
  | .notIterable operandName => "'" ++ operandName ++ "' object is not iterable"
  | .notText index typeName =>
    "sequence item " ++ Text.ofNat index ++ ": expected str instance, " ++ typeName ++ " found"

/-- The types of the items that a value has when it stands in the place of children, if it has
items. None of them is a node. -/
def itemTypes : Value → Option (List Text)
  | .text t => some (t.map fun _ => "str")
  | .list items => some (items.map Value.typeName)
  | .mapping entries => some (entries.map fun e => e.1.typeName)
  | .scalar (.other o) => o.itemTypes
  | .scalar _ => none

/-- Fails for a value in the place of children that cannot be gone through. -/
def goThrough (children : Misplaced) : Except InspectError Unit :=
  if (itemTypes children.value).isSome then .ok ()
  else .error (.notIterable children.value.operandName)

/-- The text of a part of the content. -/
def partText : Value → Text
  | .text t => t
  | _ => []

/-- The texts put together, if all parts are texts. -/
def joinTexts (parts : List Value) : Except InspectError Text :=
  match parts.zipIdx.find? fun p => !p.1.isText with
  | some (v, i) => .error (.notText i v.typeName)
  | none => .ok (parts.flatMap partText)

mutual

/-- The text content of an element; a text or a plain value has none. -/
def innerText : Draft → Except InspectError Text
  | .text _ _ => .ok []
  | .plain _ => .ok []
  | .childless _ _ children => (goThrough children).map fun _ => []
  | .element _ _ children => do joinTexts (← innerParts children)

/-- The parts that children contribute to the text content. -/
def innerParts : List Draft → Except InspectError (List Value)
  | [] => .ok []
  | .text content _ :: rest => do return content :: (← innerParts rest)
  | .plain _ :: rest => innerParts rest
  | child :: rest => do
    let t ← innerText child
    return .text t :: (← innerParts rest)

end

mutual

/-- The elements below the root that have the given name, in document order. -/
def findAll (name : Text) : Draft → Except InspectError (List Draft)
  | .text _ _ => .ok []
  | .plain _ => .ok []
  | .childless _ _ children => (goThrough children).map fun _ => []
  | .element _ _ children => findAllIn name children

/-- The elements with the given name among some nodes and below them, in document order. -/
def findAllIn (name : Text) : List Draft → Except InspectError (List Draft)
  | [] => .ok []
  | child :: rest => do
    let below ← findAll name child
    let behind ← findAllIn name rest
    return (if child.hasName name then [child] else []) ++ below ++ behind

end

end Draft

end MathMarkup
