import MathMarkup.Text.CodePoint

/-!
# Characters of XML documents

Which code points may stand in a document, which of them are white space, and which may start or
continue a name.
-/

namespace MathMarkup.Xml

/-- The ranges of the code points that a document may hold. -/
def charRanges : List (Nat × Nat) :=
  [(0x09, 0x0A), (0x0D, 0x0D), (0x20, 0xD7FF), (0xE000, 0xFFFD), (0x10000, 0x10FFFF)]

/-- Whether a document may hold the code point. -/
def isChar (c : CodePoint) : Bool :=
  c.inRanges charRanges

/-- White space. -/
def isSpace (c : CodePoint) : Bool :=
  c = .scalar ' ' || c = .scalar '\t' || c = .scalar '\n' || c = .scalar '\r'

/-- The ranges of the code points that may start a name, the colon aside. -/
def startRanges : List (Nat × Nat) :=
  [(0x41, 0x5A), (0x5F, 0x5F), (0x61, 0x7A), (0xC0, 0xD6), (0xD8, 0xF6), (0xF8, 0x2FF),
   (0x370, 0x37D), (0x37F, 0x1FFF), (0x200C, 0x200D), (0x2070, 0x218F), (0x2C00, 0x2FEF),
   (0x3001, 0xD7FF), (0xF900, 0xFDCF), (0xFDF0, 0xFFFD), (0x10000, 0xEFFFF)]

/-- The ranges of the code points that may only continue a name. -/
def partRanges : List (Nat × Nat) :=
  [(0x2D, 0x2E), (0x30, 0x39), (0xB7, 0xB7), (0x300, 0x36F), (0x203F, 0x2040)]

/-- Whether the code point may start a name or the part of a name behind a colon. -/
def startsName (c : CodePoint) : Bool :=
  c.inRanges startRanges

/-- Whether the code point may stand in a name, the colon aside. -/
def continuesName (c : CodePoint) : Bool :=
  startsName c || c.inRanges partRanges

/-- Whether the text is a name without a colon. -/
def isPlainName : Text → Bool
  | [] => false
  | c :: rest => startsName c && rest.all continuesName

/-- A name as it is written: a prefix, empty if there is none, and a local part. -/
structure QName where
  head : Text
  localPart : Text
deriving DecidableEq, Repr

/-- The name that a text of name characters spells. One colon divides it, if a name stands on both
sides and no other colon; otherwise all colons stay in the local part. -/
def QName.ofText? (t : Text) : Option QName :=
  let head := t.takeWhile (· ≠ .scalar ':')
  let localPart := t.drop (head.length + 1)
  if isPlainName head && isPlainName localPart then some ⟨head, localPart⟩
  else if t.head?.any fun c => startsName c || c = .scalar ':' then some ⟨[], t⟩
  else none

/-- Whether no colon stands in the local part. -/
def QName.isWellFormed (q : QName) : Bool :=
  !q.localPart.contains (.scalar ':')

/-- The name with its prefix. -/
def QName.text (q : QName) : Text :=
  if q.head.isEmpty then q.localPart else q.head ++ .scalar ':' :: q.localPart

/-- The name at the start of a text, colons included. -/
def takeName (t : Text) : Text :=
  t.takeWhile fun c => continuesName c || c = .scalar ':'

example : (QName.ofText? (Text.ofString "m:mi")).map QName.localPart =
    some (Text.ofString "mi") := by decide +kernel
example : (QName.ofText? (Text.ofString "a:b:c")).map QName.isWellFormed = some false := by
  decide +kernel

end MathMarkup.Xml
