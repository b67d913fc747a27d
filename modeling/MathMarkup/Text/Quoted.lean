import MathMarkup.Text.Printable

/-!
# Quoted text

How a text is shown inside a message: between quotes, on one line, in printable code points only.

* The quotes are single, unless the text holds a single quote and no double one.
* The backslash and the quote in use are written behind a backslash, and so are line feed, carriage
  return and tab, as `\n`, `\r` and `\t`.
* Any other code point that is not printable is written by its number in lower-case hexadecimal,
  with two, four or eight digits: `\x1f`, `\u200b`, `\U000e0001`.
-/

namespace MathMarkup.Text

/-- The hexadecimal digits of `n`, filled up with zeros to `width` digits. -/
def hex (width n : Nat) : Text :=
  let digits := (Nat.toDigits 16 n).map CodePoint.scalar
  List.replicate (width - digits.length) (.scalar '0') ++ digits

example : hex 4 0x200B = ofString "200b" := by decide +kernel

/-- The numbered escape of a code point that is not printable. -/
def numberedEscape (n : Nat) : Text :=
  if n < 0x100 then ofString "\\x" ++ hex 2 n
  else if n < 0x10000 then ofString "\\u" ++ hex 4 n
  else ofString "\\U" ++ hex 8 n

/-- One code point between quotes of the kind `quote`. -/
def quotedPoint (quote : Char) (c : CodePoint) : Text :=
  if c = .scalar quote ∨ c = .scalar '\\' then [.scalar '\\', c]
  else if c = .scalar '\n' then ofString "\\n"
  else if c = .scalar '\r' then ofString "\\r"
  else if c = .scalar '\t' then ofString "\\t"
  else if c.isPrintable then [c]
  else numberedEscape c.toNat

/-- The quote that stands around a text. -/
def quoteOf (t : Text) : Char :=
  if t.contains (.scalar '\'') && !t.contains (.scalar '"') then '"' else '\''

/-- The text between quotes. -/
def quoted (t : Text) : Text :=
  .scalar t.quoteOf :: t.flatMap (quotedPoint t.quoteOf) ++ [.scalar t.quoteOf]

example : quoted (ofString "a\nb") = ofString "'a\\nb'" := by decide +kernel
example : quoted (ofString "it's") = ofString "\"it's\"" := by decide +kernel
example : quoted [.surrogate 0] = ofString "'\\ud800'" := by decide +kernel

end MathMarkup.Text
