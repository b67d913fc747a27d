import MathMarkup.Number.Shortest

/-!
# Numbers of a dynamic value

An integer of any size, a binary floating-point value, or a truth value, which counts as 0 or 1
wherever a number is compared. Integers are compared whatever their size, but they are spelled only
up to a number of digits, unless that is unbounded.
-/

namespace MathMarkup

/-- Why a value has no spelling. -/
inductive SpellError where
  /-- It holds an integer with more than so many decimal digits. -/
  | tooLong (limit : Nat)
deriving DecidableEq, Repr

/-- The wording of an error. -/
def SpellError.message : SpellError → Text
  | .tooLong limit =>
    "Exceeds the limit (" ++ Text.ofNat limit ++
      " digits) for integer string conversion; " ++
      "use sys.set_int_max_str_digits() to increase the limit"

/-- A number as it stands in an option or a file. -/
inductive Number where
  | bool (b : Bool)
  | int (n : Int)
  | float (x : Binary64)
deriving DecidableEq, Repr

namespace Number

/-- The order of a number and an integer; a NaN has none. -/
def compareInt? (x : Number) (n : Int) : Option Ordering :=
  match x with
  | .bool b => some (compare (if b then 1 else 0) n)
  | .int m => some (compare m n)
  | .float (.finite s m e) => some (Binary64.compareInt s m e n)
  | .float (.infinite negative) => some (if negative then .lt else .gt)
  | .float .nan => none

/-- Whether the number is less than the integer. -/
def isBelow (x : Number) (n : Int) : Bool :=
  x.compareInt? n = some .lt

/-- Integers are compared as such. -/
theorem isBelow_int (m n : Int) : (Number.int m).isBelow n = decide (m < n) := by
  have h : compare m n = .lt ↔ m < n := Int.compare_eq_lt
  simp only [isBelow, compareInt?, Option.some.injEq, h]

/-- Whether the number is at most the integer. -/
def isAtMost (x : Number) (n : Int) : Bool :=
  x.compareInt? n = some .lt || x.compareInt? n = some .eq

/-- The least natural number that is not less than the given one. Infinity and NaN have none. -/
def ceiling? : Number → Option Nat
  | .bool b => some (if b then 1 else 0)
  | .int n => some n.toNat
  | .float (.finite false m e) =>
    some ((m * Nat.pow 2 e.toNat + (Nat.pow 2 (-e).toNat - 1)) / Nat.pow 2 (-e).toNat)
  | .float (.finite true _ _) => some 0
  | .float (.infinite true) => some 0
  | .float (.infinite false) => none
  | .float .nan => none

/-- Whether the number is equal to zero. -/
def isZero (x : Number) : Bool :=
  x.compareInt? 0 = some .eq

/-- Whether two numbers are equal as numbers, whatever their types. -/
def sameNumber : Number → Number → Bool
  | .float x, .float y => x.sameNumber y
  | .bool b, y => y.compareInt? (if b then 1 else 0) = some .eq
  | .int n, y => y.compareInt? n = some .eq
  | x, .bool b => x.compareInt? (if b then 1 else 0) = some .eq
  | x, .int n => x.compareInt? n = some .eq

example : sameNumber (.bool true) (.float (.finite false (2 ^ 52) (-52))) = true := by
  decide +kernel

/-- The spelling of a number, however long it is. -/
def fullText : Number → Text
  | .bool true => "True"
  | .bool false => "False"
  | .int n => Text.ofInt n
  | .float x => x.text

/-- How many decimal digits an integer may have where it is read or spelled. -/
def digitLimit : Nat := 4300

/-- Fails for an integer of the given size if it has more decimal digits than there may be. -/
def checkDigits (digits : Option Nat) (size : Nat) : Except SpellError Unit :=
  match digits with
  | some limit => if Nat.pow 10 limit ≤ size then .error (.tooLong limit) else .ok ()
  | none => .ok ()

/-- The spelling of a number with at most so many digits, if they are bounded. -/
def text (digits : Option Nat := some digitLimit) : Number → Except SpellError Text
  | .int n => do
    checkDigits digits n.natAbs
    return Text.ofInt n
  | x => .ok x.fullText

/-- The message about an integer with too many digits that is read. -/
def tooLongMessage (digits : Nat) : Text :=
  "Exceeds the limit (" ++ Text.ofNat digitLimit ++
    " digits) for integer string conversion: value has " ++ Text.ofNat digits ++
    " digits; use sys.set_int_max_str_digits() to increase the limit"

/-- The word for the type of a number. -/
def typeName : Number → Text
  | .bool _ => "bool"
  | .int _ => "int"
  | .float _ => "float"

end Number

end MathMarkup
