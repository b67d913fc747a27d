import MathMarkup.Value

/-!
# Values as JSON

The JSON spelling of a value, in ASCII: every code point beyond `~` and every control character is
escaped by number, those outside the first plane as a pair of surrogates. A key that is no text is
written by its spelling, and so is an object of a further type.
-/

namespace MathMarkup.Value

/-- One 16-bit unit as an escape. -/
def unitEscape (n : Nat) : String :=
  let digits := Nat.toDigits 16 n
  "\\u" ++ String.ofList (List.replicate (4 - digits.length) '0' ++ digits)

/-- One code point inside a string. -/
def pointJson (c : CodePoint) : String :=
  let n := c.toNat
  if n = 0x22 then "\\\""
  else if n = 0x5C then "\\\\"
  else if n < 0x20 ∨ 0x7E < n then
    if n < 0x10000 then unitEscape n
    else unitEscape (0xD800 + (n - 0x10000) / 0x400) ++ unitEscape (0xDC00 + (n - 0x10000) % 0x400)
  else String.singleton (Char.ofNat n)

/-- A text as a string. -/
def textJson (t : Text) : String :=
  t.foldl (fun s c => s ++ pointJson c) "\"" ++ "\""

/-- The characters of an ASCII text. -/
def asciiString (t : Text) : String :=
  t.foldl (fun s c => s.push (Char.ofNat c.toNat)) ""

/-- A value without parts. -/
def scalarJson : Scalar → String
  | .null => "null"
  | .number (.bool true) => "true"
  | .number (.bool false) => "false"
  | .number (.int n) => asciiString (Text.ofInt n)
  | .number (.float .nan) => "NaN"
  | .number (.float (.infinite false)) => "Infinity"
  | .number (.float (.infinite true)) => "-Infinity"
  | .number (.float x) => asciiString x.text
  | .text t => textJson t
  | .other o => textJson o.shown

/-- A key as a text, however long it is. -/
def keyText : Scalar → Text
  | .null => "None"
  | .number n => n.fullText
  | .text t => t
  | .other o => o.shown

mutual

/-- The JSON spelling of a value. -/
def toJson : Value → String
  | .scalar s => scalarJson s
  | .list items => "[" ++ itemsJson "" items ++ "]"
  | .mapping entries => "\x7b" ++ entriesJson "" entries ++ "\x7d"

/-- The items of a list, with a separator before the first one. -/
def itemsJson (before : String) : List Value → String
  | [] => ""
  | v :: rest => before ++ toJson v ++ itemsJson "," rest

/-- The entries of a mapping, with a separator before the first one. -/
def entriesJson (before : String) : List (Scalar × Value) → String
  | [] => ""
  | (k, v) :: rest => before ++ textJson (keyText k) ++ ":" ++ toJson v ++ entriesJson "," rest

end

example : toJson (.mapping [(.text (Text.ofString "a"), .list [.int 1, .null])]) =
    "\x7b\"a\":[1,null]\x7d" := by decide +kernel

end MathMarkup.Value
