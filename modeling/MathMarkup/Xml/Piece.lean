import MathMarkup.Xml.Char
import MathMarkup.Xml.Report

/-!
# The pieces of an XML document

A document is cut into characters, references, tags, character data sections, and asides, that is,
comments and processing instructions. `pieceAt?` gives the piece at the start of a text; a text that
cannot be cut is not well formed.

## Termination

All scans recurse on the text. The attributes of a tag are read from the text of that tag, with its
length as fuel.
-/

namespace MathMarkup.Xml

/-- A piece of a document. -/
inductive Piece where
  /-- A character that stands for itself. -/
  | char (c : CodePoint)
  /-- A character given by a reference. -/
  | reference (c : CodePoint)
  | startTag (name : Text) (attributes : List (Text × Text)) (closed : Bool)
  | endTag (name : Text)
  /-- A section of character data. -/
  | data
  /-- A comment or a processing instruction, and what is to be said about it. -/
  | aside (reports : List Report)
deriving DecidableEq, Repr

/-! ## References -/

/-- The five entities that need no declaration. -/
def entity? (name : Text) : Option Char :=
  if name = Text.ofString "lt" then some '<'
  else if name = Text.ofString "gt" then some '>'
  else if name = Text.ofString "amp" then some '&'
  else if name = Text.ofString "quot" then some '"'
  else if name = Text.ofString "apos" then some '\''
  else none

/-- The value of a digit in a base up to sixteen. -/
def digit? (base : Nat) (c : CodePoint) : Option Nat :=
  let n := c.toNat
  let d? := if 48 ≤ n ∧ n ≤ 57 then some (n - 48)
    else if 97 ≤ n ∧ n ≤ 102 then some (n - 87)
    else if 65 ≤ n ∧ n ≤ 70 then some (n - 55)
    else none
  d?.filter (· < base)

/-- The number that digits spell. -/
def number? (base : Nat) (digits : Text) : Option Nat :=
  if digits.isEmpty then none
  else digits.foldl (fun n? c => do return (← n?) * base + (← digit? base c)) (some 0)

/-- The character that the body of a reference stands for. -/
def referenced? (body : Text) : Option CodePoint :=
  let coded (base : Nat) (digits : Text) : Option CodePoint :=
    ((number? base digits).bind CodePoint.ofNat?).filter isChar
  match body with
  | .scalar '#' :: .scalar 'x' :: digits => coded 16 digits
  | .scalar '#' :: digits => coded 10 digits
  | name => (entity? name).map CodePoint.scalar

/-- The character of the reference whose ampersand stands before the text, and how many code points
it takes behind the ampersand. -/
def readReference? (t : Text) : Option (CodePoint × Nat) :=
  let body := t.takeWhile (· ≠ .scalar ';')
  if body.length < t.length then (referenced? body).map fun c => (c, body.length + 1) else none

/-! ## Tags -/

/-- An attribute value with its references resolved and its white space made plain. The first
argument counts the code points of a reference already read. -/
def attributeValue? : (taken : Nat) → Text → Option Text
  | _, [] => some []
  | taken + 1, _ :: rest => attributeValue? taken rest
  | 0, .scalar '\r' :: .scalar '\n' :: rest => attributeValue? 0 (.scalar '\n' :: rest)
  | 0, c :: rest =>
    if c = .scalar '&' then do
      let (d, length) ← readReference? rest
      return d :: (← attributeValue? length rest)
    else if c = .scalar '<' ∨ !isChar c then none
    else do
      return (if isSpace c then .scalar ' ' else c) :: (← attributeValue? 0 rest)

/-- The attribute at the start of a text, and the text behind it. -/
def readAttribute? (t : Text) : Option ((Text × Text) × Text) := do
  let name := takeName t
  match (t.drop name.length).dropWhile isSpace with
  | .scalar '=' :: behind =>
    match behind.dropWhile isSpace with
    | .scalar quote :: rest =>
      if quote = '"' ∨ quote = '\'' then
        let raw := rest.takeWhile (· ≠ .scalar quote)
        match rest.drop raw.length with
        | _ :: behind => return ((name, ← attributeValue? 0 raw), behind)
        | [] => none
      else none
    | _ => none
  | _ => none

/-- The attributes in the text of a tag, behind its name. White space stands before each. -/
def readAttributes? : (fuel : Nat) → Text → Option (List (Text × Text))
  | 0, _ => none
  | fuel + 1, t =>
    let trimmed := t.dropWhile isSpace
    if trimmed.isEmpty then some []
    else if trimmed.length = t.length then none
    else do
      let (first, rest) ← readAttribute? trimmed
      return first :: (← readAttributes? fuel rest)

/-- How many code points stand before the end of a tag. An angle inside quotes does not end it. -/
def tagLength? : (quote : Option Char) → Text → Option Nat
  | _, [] => none
  | none, c :: rest =>
    if c = .scalar '>' then some 0
    else if c = .scalar '"' then (tagLength? (some '"') rest).map (· + 1)
    else if c = .scalar '\'' then (tagLength? (some '\'') rest).map (· + 1)
    else (tagLength? none rest).map (· + 1)
  | some quote, c :: rest =>
    (tagLength? (if c = .scalar quote then none else some quote) rest).map (· + 1)

/-- The start tag with the given text between its angles. -/
def startTag? (body : Text) : Option Piece :=
  let name := takeName body
  let rest := body.drop name.length
  let (closed, rest) := match rest.reverse with
    | .scalar '/' :: more => (true, more.reverse)
    | _ => (false, rest)
  if name.isEmpty then none
  else (readAttributes? (rest.length + 1) rest).map fun attributes =>
    .startTag name attributes closed

/-- The end tag with the given text between its slash and its angle. -/
def endTag? (body : Text) : Option Piece :=
  let name := takeName body
  if !name.isEmpty && (body.drop name.length).all isSpace then some (.endTag name) else none

/-! ## Asides and data -/

/-- How many code points stand before the first occurrence of `mark`. -/
def lengthBefore? (mark : Text) : Text → Option Nat
  | [] => none
  | c :: rest =>
    if Text.startsWith (c :: rest) mark then some 0 else (lengthBefore? mark rest).map (· + 1)

/-- The length of the characters before `mark`, if a document may hold them. -/
def spanBefore? (mark t : Text) : Option Nat :=
  (lengthBefore? mark t).filter fun n => (t.take n).all isChar

/-- The length of a comment behind its opening. Two hyphens stand only at its end. -/
def commentLength? (t : Text) : Option Nat :=
  (spanBefore? "--" t).bind fun n =>
    match t.drop (n + 2) with
    | .scalar '>' :: _ => some (n + 3)
    | _ => none

/-- Whether a text starts with the reserved word, in any case. -/
def startsReserved : Text → Bool
  | .scalar x :: .scalar m :: .scalar l :: _ =>
    x.toLower = 'x' && m.toLower = 'm' && l.toLower = 'l'
  | _ => false

/-- Whether a text is a target that a standard has given a meaning. -/
def isStandardTarget (t : Text) : Bool :=
  t = Text.ofString "xml-stylesheet" || t = Text.ofString "xml-model"

/-- What is wrong with the target of a processing instruction. The reserved word itself is not
allowed, in any case. A target that only starts with it is odd, and a colon is a fault. -/
def targetReports? (target : Text) : Option (List Report) :=
  if startsReserved target ∧ target.length = 3 then none
  else some <|
    Report.warningIf (startsReserved target && !isStandardTarget target) ++
    Report.faultIf (target.contains (.scalar ':'))

/-- The processing instruction behind its opening, and its length there. White space divides its
target from what follows. -/
def instruction? (t : Text) : Option (Piece × Nat) :=
  let target := takeName t
  let rest := t.drop target.length
  if target.head?.any fun c => startsName c || c = .scalar ':' then do
    let reports ← targetReports? target
    let n ← spanBefore? "?>" rest
    if n = 0 ∨ isSpace (rest.headD (.scalar 'x')) then
      return (.aside reports, target.length + n + 2)
    else none
  else none

/-! ## Pieces -/

/-- The piece whose opening angle stands before the text, and how many code points it takes behind
the angle. -/
def markupAt? (rest : Text) : Option (Piece × Nat) :=
  match rest with
  | .scalar '/' :: more =>
    (tagLength? none more).bind fun n => (endTag? (more.take n)).map fun p => (p, n + 2)
  | .scalar '?' :: more => (instruction? more).map fun (p, n) => (p, n + 1)
  | .scalar '!' :: more =>
    if Text.startsWith more "--" then
      (commentLength? (more.drop 2)).map fun n => (.aside [], n + 3)
    else if Text.startsWith more "[CDATA[" then
      (spanBefore? "]]>" (more.drop 7)).map fun n => (.data, n + 11)
    else none
  | _ => (tagLength? none rest).bind fun n => (startTag? (rest.take n)).map fun p => (p, n + 1)

/-- The piece that starts with the given code point, and how many code points it takes behind it. -/
def pieceAt? (c : CodePoint) (rest : Text) : Option (Piece × Nat) :=
  if c = .scalar '<' then markupAt? rest
  else if c = .scalar '&' then
    (readReference? rest).map fun (d, n) => (.reference d, n)
  else if !isChar c then none
  else if c = .scalar ']' ∧ Text.startsWith rest "]>" then none
  else some (.char c, 0)

end MathMarkup.Xml
