import MathMarkup.Text.CodePoint

/-!
# Places in a YAML text

A cursor is the rest of a text together with the line and the column where it starts. Blocks are
told apart by columns, and a key stands on one line.

Line ends are line feeds and three further code points. Where a scalar goes over several lines, its
line ends are folded: a single one becomes a space, and of several the first is dropped; a line or
paragraph separator is kept as it is.
-/

namespace MathMarkup.Value.Yaml

/-! ## Line ends and blanks -/

/-- A line end. -/
def isBreak (c : CodePoint) : Bool :=
  c = .scalar '\n' || c = .scalar '\u0085' || c = .scalar '\u2028' || c = .scalar '\u2029'

/-- A line end as it stands in the value of a scalar. -/
def breakValue (c : CodePoint) : CodePoint :=
  if c = .scalar '\u0085' then .scalar '\n' else c

/-- The text that consecutive line ends give. -/
def foldBreaks : List CodePoint → Text
  | [] => []
  | first :: more =>
    if breakValue first ≠ .scalar '\n' then first :: more.map breakValue
    else if more.isEmpty then [.scalar ' ']
    else more.map breakValue

/-- The space character, which alone separates inside a line. -/
def isPad (c : CodePoint) : Bool :=
  c = .scalar ' '

/-- A code point that ends a word: a space, a tab or a line end. -/
def isGap (c : CodePoint) : Bool :=
  isPad c || c = .scalar '\t' || isBreak c

/-- Whether nothing stands at the start of a text that would continue a word. -/
def endsWord (t : Text) : Bool :=
  t.head?.all isGap

/-- Whether a text starts with one of the marks between documents. -/
def startsMarker (t : Text) : Bool :=
  (Text.startsWith t "---" || Text.startsWith t "...") && endsWord (t.drop 3)

/-- How many code points of spaces, line ends and comments a text starts with. -/
def gapLength : (comment : Bool) → Text → Nat
  | _, [] => 0
  | comment, c :: rest =>
    if isBreak c then gapLength false rest + 1
    else if comment || isPad c then gapLength comment rest + 1
    else if c = .scalar '#' then gapLength true rest + 1
    else 0

/-! ## Cursors -/

/-- The rest of a text, and where it starts. -/
structure Cursor where
  rest : Text
  offset : Nat := 0
  line : Nat := 0
  column : Nat := 0
deriving DecidableEq, Repr

namespace Cursor

/-- The cursor behind the next code points. -/
def advance : Nat → Cursor → Cursor
  | 0, c => c
  | n + 1, c =>
    match c.rest with
    | [] => c
    | x :: rest =>
      if isBreak x then advance n ⟨rest, c.offset + 1, c.line + 1, 0⟩
      else advance n ⟨rest, c.offset + 1, c.line, c.column + 1⟩

/-- The cursor behind spaces, line ends and comments. -/
def skip (c : Cursor) : Cursor :=
  c.advance (gapLength false c.rest)

/-- The cursor behind spaces. -/
def skipPad (c : Cursor) : Cursor :=
  c.advance (c.rest.takeWhile isPad).length

/-- Whether a mark between documents stands here. -/
def atMarker (c : Cursor) : Bool :=
  c.column = 0 && startsMarker c.rest

/-- Whether the document ends here. -/
def atEnd (c : Cursor) : Bool :=
  c.rest.isEmpty || c.atMarker

/-- Whether the given character stands here. -/
def isAt (c : Cursor) (x : Char) : Bool :=
  c.rest.head? = some (.scalar x)

end Cursor

end MathMarkup.Value.Yaml
