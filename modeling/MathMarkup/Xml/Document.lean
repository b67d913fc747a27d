import MathMarkup.Xml.Encoding
import MathMarkup.Xml.Identifier
import MathMarkup.Xml.Namespace

/-!
# XML documents

A document is read from left to right. The elements that are open stand on a stack, and each piece
of the text changes it; at the end the stack is empty and there is one root. `document?` gives the
root of a well-formed document, and nothing for any other text.

Only the elements and where asides stand among them are kept. Elements lie at most 256 deep. The
last report about the document decides whether it is refused after all; of each kind a hundred are
taken note of. Behind the root of a document with a fault, reading stops at the first thing that may
not stand there; behind the root of any other it fails.

## Termination

`read?` recurses on the text and counts down the code points that a piece has already taken.
-/

namespace MathMarkup.Xml

/-- A part of a document that stands in the list of children of an element. -/
inductive Item where
  | element (name : Name) (attributes : List (Name × Text)) (children : List Item)
  /-- A comment or a processing instruction. -/
  | aside
deriving Repr

/-- An element whose end tag has not been read, with its children so far, latest first. -/
structure Opened where
  tag : Text
  entry : Entry
  children : List Item := []

/-- The element that is finished by its end tag. -/
def Opened.item (o : Opened) : Item :=
  .element o.entry.name o.entry.attributes o.children.reverse

/-- The state of reading a document: the open elements, innermost first, the root once it is
finished, the identifiers given so far, how many reports of each kind there were, and the last
one. -/
structure Builder where
  opened : List Opened := []
  root : Option Item := none
  identifiers : List Text := []
  warnings : Nat := 0
  faults : Nat := 0
  lastReport : Option Report := none

namespace Builder

/-- How deep elements may lie. -/
def depthLimit : Nat := 256

/-- The bindings in force. -/
def bindings (b : Builder) : Bindings :=
  match b.opened with
  | [] => []
  | o :: _ => o.entry.bindings

/-- How many reports of one kind are taken note of. -/
def reportLimit : Nat := 100

/-- Takes note of a report. -/
def noteReport (b : Builder) : Report → Builder
  | .warning =>
    if b.warnings < reportLimit then
      { b with warnings := b.warnings + 1, lastReport := some .warning }
    else b
  | .fault =>
    if b.faults < reportLimit then { b with faults := b.faults + 1, lastReport := some .fault }
    else b

/-- Takes note of reports, in their order. -/
def note (b : Builder) (reports : List Report) : Builder :=
  reports.foldl noteReport b

/-- Adds a finished item to the innermost element. -/
def addItem (o : Opened) (item : Item) : Opened :=
  { o with children := item :: o.children }

/-- Adds an element to those around it; without any it is the root. -/
def addElement (b : Builder) (opened : List Opened) (item : Item) : Builder :=
  match opened with
  | [] => { b with opened := [], root := some item }
  | o :: outer => { b with opened := addItem o item :: outer }

/-- Takes note of the identifier of an element. It is a name, and no other element has it. -/
def noteIdentifier (b : Builder) (value : Text) : Builder :=
  { b with identifiers := value :: b.identifiers }.note <|
    Report.faultIf (!isIdentifier value) ++
    Report.faultIf (!value.isEmpty && b.identifiers.contains value)

/-- A start tag opens an element, or gives a finished one if it is closed itself. -/
def startTag? (b : Builder) (tag : Text) (attributes : List (Text × Text)) (closed : Bool) :
    Option Builder :=
  if b.opened.length ≥ depthLimit ∨ (b.opened.isEmpty ∧ b.root.isSome) then none
  else (b.bindings.enter? tag attributes).map fun entry =>
    let noted := b.note entry.reports
    let noted := (entry.identifier.map noted.noteIdentifier).getD noted
    if closed then noted.addElement b.opened (Opened.item ⟨tag, entry, []⟩)
    else { noted with opened := ⟨tag, entry, []⟩ :: b.opened }

/-- An end tag finishes the innermost element, which has the same tag. -/
def endTag? (b : Builder) (tag : Text) : Option Builder :=
  match b.opened with
  | [] => none
  | o :: outer => if o.tag = tag then some (b.addElement outer o.item) else none

/-- An aside, inside an element or around the root. -/
def aside (b : Builder) : Builder :=
  match b.opened with
  | [] => b
  | o :: outer => { b with opened := addItem o .aside :: outer }

/-- What a piece does. Outside the root only asides and white space may stand. -/
def step? (b : Builder) : Piece → Option Builder
  | .char c => if b.opened.isEmpty && !isSpace c then none else some b
  | .reference _ => if b.opened.isEmpty then none else some b
  | .data => if b.opened.isEmpty then none else some b
  | .aside reports => some (b.note reports).aside
  | .startTag tag attributes closed => b.startTag? tag attributes closed
  | .endTag tag => b.endTag? tag

/-- Whether an aside starts with the given code point before the rest. -/
def startsAside (c : CodePoint) (rest : Text) : Bool :=
  c = .scalar '<' && (Text.startsWith rest "?" || Text.startsWith rest "!--")

/-- Whether nothing more is read: the root is finished, there was a fault, and neither white space
nor an aside follows. -/
def stopsAt (b : Builder) (c : CodePoint) (rest : Text) : Bool :=
  b.opened.isEmpty && b.root.isSome && b.faults ≠ 0 && !isSpace c && !startsAside c rest

/-- Reads a text. The first argument counts the code points of a piece already read. -/
def read? : (taken : Nat) → Builder → Text → Option Builder
  | _, b, [] => some b
  | taken + 1, b, _ :: rest => read? taken b rest
  | 0, b, c :: rest =>
    if b.stopsAt c rest then some b
    else
      match pieceAt? c rest with
      | none => none
      | some (piece, length) =>
        match b.step? piece with
        | none => none
        | some b => read? length b rest

/-- Counting down is jumping over the code points of a piece. -/
theorem read?_eq_read?_drop (taken : Nat) (b : Builder) (t : Text) :
    read? taken b t = read? 0 b (t.drop taken) := by
  induction t generalizing taken with
  | nil => simp [read?]
  | cons c t ih =>
    cases taken with
    | zero => rfl
    | succ n => simpa [read?] using ih n

/-- The root when all has been read. A fault must not be the last report. -/
def finish? (b : Builder) : Option Item :=
  if b.opened.isEmpty ∧ b.lastReport ≠ some .fault then b.root else none

end Builder

/-- The root of a well-formed document. -/
def document? (t : Text) : Option Item := do
  let content ← content? t
  (← Builder.read? 0 {} content).finish?

/-- A reader of XML documents, which gives the root of a well-formed text. -/
abbrev Reader : Type :=
  Text → Option Item

end MathMarkup.Xml
