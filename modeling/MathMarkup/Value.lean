import MathMarkup.Number
import MathMarkup.Text.Quoted

/-!
# Dynamic values

What an option, a symbol file or a hand-made tree may hold: scalars, lists, and mappings with their
entries in order. An object of a further type counts as a scalar, of which only what is seen of it
from outside is told. The keys of a mapping are scalars and are compared as numbers where they are
numbers; a second entry for a key replaces the value of the first and keeps its position.

A value has two spellings. `literal` quotes texts, `shown` gives a text as it is; below the top
level both quote. Both fail where an integer with too many digits is to be spelled.
-/

namespace MathMarkup

/-- An object of some further type, such as a date or a set, by what is seen of it. -/
structure Object where
  typeName : Text
  /-- The name of the type as messages about operations give it. -/
  operandName : Text
  /-- Objects that are equal have the same number. -/
  number : Nat
  isTruthy : Bool
  /-- The types of its items, if it has items. -/
  itemTypes : Option (List Text)
  shown : Text
  literal : Text
  /-- The greatest size of an integer that is spelled with it. -/
  greatest : Nat
  printable : ∀ c ∈ literal, c.isPrintable = true
deriving DecidableEq, Repr

/-- A value without parts. -/
inductive Scalar where
  | null
  | number (n : Number)
  | text (t : Text)
  | other (o : Object)
deriving DecidableEq, Repr, Inhabited

namespace Scalar

/-- Whether two scalars are the same key of a mapping. -/
def sameKey : Scalar → Scalar → Bool
  | .null, .null => true
  | .number x, .number y => x.sameNumber y
  | .text s, .text t => s = t
  | .other o, .other o' => o.number = o'.number
  | _, _ => false

/-- The spelling with quotes around a text. -/
def literal (digits : Option Nat := some Number.digitLimit) : Scalar → Except SpellError Text
  | .null => .ok "None"
  | .number n => n.text digits
  | .text t => .ok t.quoted
  | .other o => do
    Number.checkDigits digits o.greatest
    return o.literal

/-- The spelling with a text as it is. -/
def shown (digits : Option Nat := some Number.digitLimit) : Scalar → Except SpellError Text
  | .text t => .ok t
  | .other o => do
    Number.checkDigits digits o.greatest
    return o.shown
  | s => s.literal digits

/-- The word for the type of a scalar. -/
def typeName : Scalar → Text
  | .null => "NoneType"
  | .number n => n.typeName
  | .text _ => "str"
  | .other o => o.typeName

/-- The word for its type in a message about an operation. -/
def operandName : Scalar → Text
  | .other o => o.operandName
  | s => s.typeName

/-- Null, zero and the empty text are false. -/
def isTruthy : Scalar → Bool
  | .null => false
  | .number n => !n.isZero
  | .text t => !t.isEmpty
  | .other o => o.isTruthy

end Scalar

/-- A value of any shape. -/
inductive Value where
  | scalar (s : Scalar)
  | list (items : List Value)
  | mapping (entries : List (Scalar × Value))
deriving Repr, Inhabited

namespace Value

/-- The null value. -/
@[match_pattern] abbrev null : Value := .scalar .null

/-- A truth value. -/
@[match_pattern] abbrev bool (b : Bool) : Value := .scalar (.number (.bool b))

/-- An integer. -/
@[match_pattern] abbrev int (n : Int) : Value := .scalar (.number (.int n))

/-- A floating-point value. -/
@[match_pattern] abbrev float (x : Binary64) : Value := .scalar (.number (.float x))

/-- A text. -/
@[match_pattern] abbrev text (t : Text) : Value := .scalar (.text t)

mutual

/-- Equality of values is decided part by part. -/
def decEq : (a b : Value) → Decidable (a = b)
  | .scalar s, .scalar t => decidable_of_iff (s = t) (by simp)
  | .list xs, .list ys =>
    match decEqItems xs ys with
    | isTrue h => isTrue (by simp [h])
    | isFalse h => isFalse (by simp [h])
  | .mapping xs, .mapping ys =>
    match decEqEntries xs ys with
    | isTrue h => isTrue (by simp [h])
    | isFalse h => isFalse (by simp [h])
  | .scalar _, .list _ | .scalar _, .mapping _ | .list _, .scalar _ | .list _, .mapping _
  | .mapping _, .scalar _ | .mapping _, .list _ => isFalse nofun

/-- Equality of lists of values is decided item by item. -/
def decEqItems : (a b : List Value) → Decidable (a = b)
  | [], [] => isTrue rfl
  | [], _ :: _ => isFalse nofun
  | _ :: _, [] => isFalse nofun
  | x :: xs, y :: ys =>
    match decEq x y, decEqItems xs ys with
    | isTrue h, isTrue h' => isTrue (by simp [h, h'])
    | isFalse h, _ => isFalse (by simp [h])
    | _, isFalse h => isFalse (by simp [h])

/-- Equality of the entries of mappings is decided entry by entry. -/
def decEqEntries : (a b : List (Scalar × Value)) → Decidable (a = b)
  | [], [] => isTrue rfl
  | [], _ :: _ => isFalse nofun
  | _ :: _, [] => isFalse nofun
  | (k, v) :: xs, (l, w) :: ys =>
    match decEq v w, decEqEntries xs ys with
    | isTrue h, isTrue h' => decidable_of_iff (k = l) (by simp [h, h'])
    | isFalse h, _ => isFalse (by simp [h])
    | _, isFalse h => isFalse (by simp [h])

end

instance : DecidableEq Value := decEq

/-- Whether the value is a text. -/
def isText : Value → Bool
  | .text _ => true
  | _ => false

theorem isText_iff {v : Value} : v.isText = true ↔ ∃ t, v = .text t := by
  constructor
  · intro h
    unfold isText at h
    split at h
    · exact ⟨_, rfl⟩
    · cases h
  · rintro ⟨t, rfl⟩
    rfl

/-- Whether the value is a list. -/
def isList : Value → Bool
  | .list _ => true
  | _ => false

/-- The word for the type of a value. -/
def typeName : Value → Text
  | .scalar s => s.typeName
  | .list _ => "list"
  | .mapping _ => "dict"

/-- The word for its type in a message about an operation. -/
def operandName : Value → Text
  | .scalar s => s.operandName
  | v => v.typeName

/-- Whether a flag with this value is set: null, zero and whatever is empty are not. -/
def isTruthy : Value → Bool
  | .scalar s => s.isTruthy
  | .list items => !items.isEmpty
  | .mapping entries => !entries.isEmpty

mutual

/-- The spelling with quotes around texts. -/
def literal (digits : Option Nat := some Number.digitLimit) : Value → Except SpellError Text
  | .scalar s => s.literal digits
  | .list items => do
    return "[" ++ Text.join ", " (← itemLiterals digits items) ++ "]"
  | .mapping entries => do
    return "\x7b" ++ Text.join ", " (← entryLiterals digits entries) ++ "\x7d"

/-- The spellings of the items of a list. -/
def itemLiterals (digits : Option Nat) : List Value → Except SpellError (List Text)
  | [] => .ok []
  | v :: rest => do
    let first ← v.literal digits
    return first :: (← itemLiterals digits rest)

/-- The spellings of the entries of a mapping. -/
def entryLiterals (digits : Option Nat) : List (Scalar × Value) → Except SpellError (List Text)
  | [] => .ok []
  | (k, v) :: rest => do
    let key ← k.literal digits
    let value ← v.literal digits
    return (key ++ ": " ++ value) :: (← entryLiterals digits rest)

end

/-- The spelling with a text as it is. -/
def shown (digits : Option Nat := some Number.digitLimit) : Value → Except SpellError Text
  | .scalar s => s.shown digits
  | v => v.literal digits

example : (literal (some 4300) (.list [.int 1, .text (Text.ofString "a"), .null,
    .bool true])).toOption = some (Text.ofString "[1, 'a', None, True]") := by decide +kernel
example : (literal (some 3) (.mapping [(.text (Text.ofString "n"), .int (-1000))])).toOption =
    none := by decide +kernel

end Value

namespace Entries

/-- The entries with the value of `key` set: in place if there is one, at the end otherwise. -/
def insert {α : Type} (key : Scalar) (value : α) : List (Scalar × α) → List (Scalar × α)
  | [] => [(key, value)]
  | (k, v) :: rest => if k.sameKey key then (k, value) :: rest else (k, v) :: insert key value rest

/-- Entries read in order, the last one for a key winning at the first one's position. -/
def ofPairs {α : Type} (pairs : List (Scalar × α)) : List (Scalar × α) :=
  pairs.foldl (fun entries p => insert p.1 p.2 entries) []

/-- The value of a key. -/
def get? {α : Type} (key : Scalar) (entries : List (Scalar × α)) : Option α :=
  (entries.find? fun e => e.1.sameKey key).map Prod.snd

end Entries

end MathMarkup
