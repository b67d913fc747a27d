import MathMarkup.Value.Yaml.Plain

/-!
# The nodes of a YAML text

A text is read as a tree of nodes first; `Node.value` gives the tree its value. Quoted scalars are
texts, plain ones have the meaning of their spelling. A key is a scalar. The entries that a mapping
takes over from others come before its own, so that its own win.
-/

namespace MathMarkup.Value.Yaml

/-- A part of a text. A place without content is an empty plain scalar. -/
inductive Node where
  | plain (t : Text)
  | quoted (t : Text)
  | list (items : List Node)
  | mapping (entries : List (Node × Node))
deriving Repr, Inhabited

/-- What a key says. -/
inductive Key where
  | scalar (s : Scalar)
  | merge
deriving DecidableEq, Repr

namespace Node

/-- The node as a key. -/
def key : Node → Except Error Key
  | .plain t => (meaning t).map fun
    | .scalar s => .scalar s
    | .merge => .merge
    | .equals => .scalar (.text t)
  | .quoted t => .ok (.scalar (.text t))
  | .list _ => .error .malformed
  | .mapping _ => .error .malformed

/-- The value of a plain scalar that is no key. -/
def plainValue (t : Text) : Except Error Value := do
  match ← meaning t with
  | .scalar s => .ok (.scalar s)
  | .merge => .error .malformed
  | .equals => .error .malformed

/-- The entries of a mapping. -/
def entriesOf : Value → Except Error (List (Scalar × Value))
  | .mapping entries => .ok entries
  | _ => .error .malformed

/-- The entries that are taken over from a mapping or from several, of which the first wins. -/
def mergedEntries : Value → Except Error (List (Scalar × Value))
  | .list items => do
    return (← items.mapM entriesOf).reverse.flatten
  | v => entriesOf v

mutual

/-- The value of a node. -/
def value : Node → Except Error Value
  | .plain t => plainValue t
  | .quoted t => .ok (.text t)
  | .list items => (itemValues items).map .list
  | .mapping entries => do
    let (merged, own) ← entryValues entries
    return .mapping (Entries.ofPairs (merged ++ own))

/-- The values of the items of a list. -/
def itemValues : List Node → Except Error (List Value)
  | [] => .ok []
  | item :: rest => do
    let first ← item.value
    return first :: (← itemValues rest)

/-- The entries that a mapping takes over, and its own. -/
def entryValues :
    List (Node × Node) → Except Error (List (Scalar × Value) × List (Scalar × Value))
  | [] => .ok ([], [])
  | (k, v) :: rest => do
    let k ← k.key
    let v ← v.value
    let (merged, own) ← entryValues rest
    match k with
    | .scalar s => return (merged, (s, v) :: own)
    | .merge => return ((← mergedEntries v) ++ merged, own)

end

end Node

end MathMarkup.Value.Yaml
