import MathMarkup.Value

/-!
# Values from JSON

A reader for JSON text, a little wider than the standard: `NaN`, `Infinity` and `-Infinity` are
numbers, and an escape may name a surrogate that stands alone. A number without fraction and
exponent is an integer, of any size up to a limit on its digits. Of several entries for a key the
last one counts. Control characters inside a string and a byte order mark at the start are refused.

## Termination

The readers of values, items and members call each other with one unit of fuel less. Each call
takes in at least one code point or hands the text to another reader once, so twice the length of
the text is enough.
-/

namespace MathMarkup.Value.Json

/-- Why a text has no value. -/
inductive Error where
  | malformed
  /-- An integer has too many digits. -/
  | tooLong (digits : Nat)
deriving DecidableEq, Repr

/-- The wording of an error, if it has one of its own. -/
def Error.message? : Error → Option Text
  | .malformed => none
  | .tooLong digits => some (Number.tooLongMessage digits)

/-- What was found, or the error of a malformed text. -/
def found {α : Type} : Option α → Except Error α
  | some a => .ok a
  | none => .error .malformed

/-- The four code points that may stand between tokens. -/
def isGap (c : CodePoint) : Bool :=
  c = .scalar ' ' || c = .scalar '\t' || c = .scalar '\n' || c = .scalar '\r'

/-- The text behind the gap at its start. -/
def skipGap (t : Text) : Text :=
  t.dropWhile isGap

/-- The text behind the given word. -/
def skipWord? (word t : Text) : Option Text :=
  if t.startsWith word then some (t.drop word.length) else none

/-! ## Strings -/

/-- The value of a hexadecimal digit. -/
def hexValue? : CodePoint → Option Nat
  | .scalar c =>
    if '0' ≤ c && c ≤ '9' then some (c.toNat - 48)
    else if 'a' ≤ c && c ≤ 'f' then some (c.toNat - 87)
    else if 'A' ≤ c && c ≤ 'F' then some (c.toNat - 55)
    else none
  | .surrogate _ => none

/-- The number written by four hexadecimal digits, and the text behind them. -/
def hexQuad? : Text → Option (Nat × Text)
  | a :: b :: c :: d :: rest => do
    let a ← hexValue? a
    let b ← hexValue? b
    let c ← hexValue? c
    let d ← hexValue? d
    return (((a * 16 + b) * 16 + c) * 16 + d, rest)
  | _ => none

/-- The code point that a one-letter escape stands for. -/
def simpleEscape? : CodePoint → Option Char
  | .scalar '"' => some '"'
  | .scalar '\\' => some '\\'
  | .scalar '/' => some '/'
  | .scalar 'b' => some '\x08'
  | .scalar 'f' => some '\x0c'
  | .scalar 'n' => some '\n'
  | .scalar 'r' => some '\r'
  | .scalar 't' => some '\t'
  | _ => none

/-- A piece of a string: one code point or one half of an escaped pair. -/
def readPiece? : Text → Option (CodePoint × Text)
  | .scalar '\\' :: .scalar 'u' :: rest => do
    let (n, rest) ← hexQuad? rest
    let c ← CodePoint.ofNat? n
    return (c, rest)
  | .scalar '\\' :: e :: rest => (simpleEscape? e).map fun c => (.scalar c, rest)
  | .scalar '\\' :: [] => none
  | c :: rest => if c.toNat < 0x20 then none else some (c, rest)
  | [] => none

/-- The pieces of a string up to its closing quote, each marked as escaped by number or not. -/
def readPieces? : Nat → Text → Option (List (Bool × CodePoint) × Text)
  | 0, _ => none
  | _ + 1, .scalar '"' :: rest => some ([], rest)
  | fuel + 1, t => do
    let numbered := t.startsWith "\\u"
    let (c, rest) ← readPiece? t
    let (pieces, rest) ← readPieces? fuel rest
    return ((numbered, c) :: pieces, rest)

/-- Joins each escaped high surrogate with an escaped low one right behind it. -/
def joinPairs : List (Bool × CodePoint) → Text
  | (true, .surrogate high) :: (true, .surrogate low) :: rest =>
    if high.val < 0x400 ∧ 0x400 ≤ low.val then
      .scalar (Char.ofNat (0x10000 + high.val * 0x400 + (low.val - 0x400))) :: joinPairs rest
    else
      .surrogate high :: joinPairs ((true, .surrogate low) :: rest)
  | (_, c) :: rest => c :: joinPairs rest
  | [] => []

/-- The string whose opening quote has been read. -/
def readString? (t : Text) : Option (Text × Text) := do
  let (pieces, rest) ← readPieces? (t.length + 1) t
  return (joinPairs pieces, rest)

/-! ## Numbers -/

/-- The number written by decimal digits. -/
def digitsValue (digits : Text) : Nat :=
  digits.foldl (fun n c => n * 10 + (c.toNat - 48)) 0

/-- A run of digits and the text behind it. -/
def readDigits (t : Text) : Text × Text :=
  (t.takeWhile CodePoint.isDigit, t.dropWhile CodePoint.isDigit)

/-- The digits behind a point. Without a digit behind it, the point is not part of the number. -/
def readFraction : Text → Text × Text
  | .scalar '.' :: rest =>
    match readDigits rest with
    | ([], _) => ([], .scalar '.' :: rest)
    | (digits, rest) => (digits, rest)
  | t => ([], t)

/-- The exponent behind an `e`, if a digit follows. -/
def readExponent (t : Text) : Option Int × Text :=
  match t with
  | .scalar e :: rest =>
    if e = 'e' ∨ e = 'E' then
      let (negative, rest) := match rest with
        | .scalar '-' :: more => (true, more)
        | .scalar '+' :: more => (false, more)
        | _ => (false, rest)
      match readDigits rest with
      | ([], _) => (none, t)
      | (digits, rest) =>
        let n : Int := digitsValue digits
        (some (if negative then -n else n), rest)
    else (none, t)
  | _ => (none, t)

/-- A number without its sign. A zero is not followed by further digits. -/
def readMagnitude (negative : Bool) (t : Text) : Except Error (Number × Text) :=
  let (whole, rest) := match t with
    | .scalar '0' :: rest => ([CodePoint.scalar '0'], rest)
    | _ => readDigits t
  let (places, rest) := readFraction rest
  let (exponent?, rest) := readExponent rest
  if whole.isEmpty then .error .malformed
  else if places.isEmpty ∧ exponent?.isNone then
    if Number.digitLimit < whole.length then .error (.tooLong whole.length)
    else
      let n : Int := digitsValue whole
      .ok (.int (if negative then -n else n), rest)
  else
    let digits := digitsValue (whole ++ places)
    .ok (.float (Binary64.ofDecimal negative digits (exponent?.getD 0 - places.length)), rest)

/-! ## Values -/

/-- The words that are values. -/
def wordScalars : List (Text × Scalar) :=
  [("null", .null), ("true", .number (.bool true)), ("false", .number (.bool false)),
   ("NaN", .number (.float .nan)), ("Infinity", .number (.float (.infinite false))),
   ("-Infinity", .number (.float (.infinite true)))]

/-- A value that has no parts. -/
def readScalar (t : Text) : Except Error (Scalar × Text) :=
  match wordScalars.findSome? fun (word, s) => (skipWord? word t).map fun rest => (s, rest) with
  | some result => .ok result
  | none =>
    match t with
    | .scalar '"' :: rest => (found (readString? rest)).map fun (s, rest) => (.text s, rest)
    | .scalar '-' :: rest => (readMagnitude true rest).map fun (n, rest) => (.number n, rest)
    | _ => (readMagnitude false t).map fun (n, rest) => (.number n, rest)

/-- A key and the colon behind it. -/
def readKey? : Text → Option (Text × Text)
  | .scalar '"' :: rest => do
    let (key, rest) ← readString? rest
    match skipGap rest with
    | .scalar ':' :: rest => some (key, skipGap rest)
    | _ => none
  | _ => none

mutual

/-- A value at the start of the text, and the text behind it. -/
def read : Nat → Text → Except Error (Value × Text)
  | 0, _ => .error .malformed
  | fuel + 1, .scalar '[' :: rest =>
    match skipGap rest with
    | .scalar ']' :: rest => .ok (.list [], rest)
    | rest => (readItems fuel rest).map fun (items, rest) => (.list items, rest)
  | fuel + 1, .scalar '\x7b' :: rest =>
    match skipGap rest with
    | .scalar '\x7d' :: rest => .ok (.mapping [], rest)
    | rest => (readMembers fuel rest).map fun (ms, rest) => (.mapping (Entries.ofPairs ms), rest)
  | _ + 1, t => (readScalar t).map fun (s, rest) => (.scalar s, rest)

/-- One or more items up to the closing bracket. -/
def readItems : Nat → Text → Except Error (List Value × Text)
  | 0, _ => .error .malformed
  | fuel + 1, t => do
    let (item, rest) ← read fuel t
    match skipGap rest with
    | .scalar ']' :: rest => .ok ([item], rest)
    | .scalar ',' :: rest =>
      (readItems fuel (skipGap rest)).map fun (items, rest) => (item :: items, rest)
    | _ => .error .malformed

/-- One or more members up to the closing brace. -/
def readMembers : Nat → Text → Except Error (List (Scalar × Value) × Text)
  | 0, _ => .error .malformed
  | fuel + 1, t => do
    let (key, rest) ← found (readKey? t)
    let (value, rest) ← read fuel rest
    match skipGap rest with
    | .scalar '\x7d' :: rest => .ok ([(.text key, value)], rest)
    | .scalar ',' :: rest =>
      (readMembers fuel (skipGap rest)).map fun (ms, rest) => ((.text key, value) :: ms, rest)
    | _ => .error .malformed

end

end Json

/-- The value written by a JSON text, if the text is well formed and holds nothing else. -/
def ofJson (t : Text) : Except Json.Error Value := do
  let (value, rest) ← Json.read (2 * t.length + 2) (Json.skipGap t)
  if (Json.skipGap rest).isEmpty then return value else .error .malformed

end MathMarkup.Value
