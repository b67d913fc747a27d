import MathMarkup.Conversion
import MathMarkup.Draft.Check
import MathMarkup.Xml.Escape

/-!
# Writing drafts

A draft is written as markup text. Attributes are written in order, and a root named `math` gets its
namespace and its display attribute from the writer, whatever the draft says. A draft that cannot be
written gives the error of the first place, in document order, at which writing fails.
-/

namespace MathMarkup.Draft

/-- Why a draft cannot be written. -/
inductive WriteError where
  | contentType (typeName : Text)
  | nodeType (typeName : Text)
  | nameType (typeName : Text)
  | unnamed
  /-- The attributes are no mapping. -/
  | attributesType (operandName : Text)
  /-- A key or a value of an attribute has no spelling. -/
  | attribute (e : SpellError)
  /-- The children are of a type that has no items. -/
  | childrenType (operandName : Text)
deriving DecidableEq, Repr

namespace WriteError

/-- The wording of an error. -/
def message : WriteError → Text
  | .contentType typeName => "Text content must be a string, got " ++ typeName
  | .nodeType typeName => "Cannot serialize node of type " ++ typeName
  | .nameType typeName => "Element name must be a string, got " ++ typeName
  | .unnamed => "Cannot serialize an element without a name"
  | .attributesType operandName => "'" ++ operandName ++ "' object has no attribute 'items'"
  | .attribute e => e.message
  | .childrenType operandName => "'" ++ operandName ++ "' object is not iterable"

/-- Whether the generator reports the error in its result. Attributes that are no mapping are not
caught. -/
def isCaught : WriteError → Bool
  | .attributesType _ => false
  | _ => true

end WriteError

/-! ## Tags -/

/-- The spelling of the display mode. -/
def displayText (display : Bool) : Text :=
  if display then "block" else "inline"

/-- The attributes of a root named `math`: those of the writer, then the remaining ones. -/
def rootAttributes (display : Bool) (entries : List (Scalar × Value)) : List (Scalar × Value) :=
  (.text "xmlns", .text Markup.namespaceName) :: (.text "display", .text (displayText display)) ::
    entries.filter fun e => e.1 ≠ .text "xmlns" && e.1 ≠ .text "display"

/-- One attribute with a space before it. -/
def attributeText (key : Scalar) (value : Value) : Except SpellError Text := do
  let key ← key.shown
  let value ← value.shown
  return " " ++ key ++ "=\"" ++ Xml.escape value ++ "\""

/-- The start tag of an element. -/
def startTag (name : Text) (entries : List (Scalar × Value)) : Except SpellError Text := do
  let attributes ← entries.mapM fun e => attributeText e.1 e.2
  return "<" ++ name ++ attributes.flatten ++ ">"

/-- The end tag of an element. -/
def endTag (name : Text) : Text :=
  "</" ++ name ++ ">"

/-- The name that an element is written with. -/
def writtenName : Value → Except WriteError Text
  | .text name => if name.isEmpty then .error .unnamed else .ok name
  | v => .error (.nameType v.typeName)

/-- The attributes that an element is written with. With a display mode it is the root. -/
def writtenAttributes (root : Option Bool) (name : Text) :
    Value → Except WriteError (List (Scalar × Value))
  | .mapping entries =>
    match root with
    | some display =>
      if name = Text.ofString "math" then .ok (rootAttributes display entries) else .ok entries
    | none => .ok entries
  | v => .error (.attributesType v.operandName)

/-- The start tag that an element is written with. -/
def openingTag (root : Option Bool) (name : Text) (attributes : Value) :
    Except WriteError Text := do
  let entries ← writtenAttributes root name attributes
  (startTag name entries).mapError .attribute

/-! ## Trees -/

/-- A plain value in the place of children: nothing is written if it has no items, and an item that
it has is no node. -/
def writeItems (children : Misplaced) : Except WriteError Text :=
  match itemTypes children.value with
  | some [] => .ok []
  | some (typeName :: _) => .error (.nodeType typeName)
  | none => .error (.childrenType children.value.operandName)

mutual

/-- A draft as markup text. With a display mode the draft is the root. -/
def write (root : Option Bool) : Draft → Except WriteError Text
  | .text (.text content) _ => .ok (Xml.escape content)
  | .text content _ => .error (.contentType content.typeName)
  | .plain value => .error (.nodeType value.typeName)
  | .element name attributes children => do
    let name ← writtenName name
    let tag ← openingTag root name attributes
    let content ← writeAll children
    return tag ++ content ++ endTag name
  | .childless name attributes children => do
    let name ← writtenName name
    let tag ← openingTag root name attributes
    let content ← writeItems children
    return tag ++ content ++ endTag name

/-- Several drafts, one after the other. -/
def writeAll : List Draft → Except WriteError Text
  | [] => .ok []
  | d :: rest => do
    let first ← write none d
    let more ← writeAll rest
    return first ++ more

end

/-- A draft as markup text, as the root of a document. -/
def serialize (display : Bool) (d : Draft) : Except WriteError Text :=
  write (some display) d

/-- A draft as the root of a document: wrapped in `math` unless it is one. -/
def document (d : Draft) : Draft :=
  if d.hasName "math" then d else .element (.text "math") (.mapping []) [d]

/-- The warning of a generation from a draft with violations. -/
def violationWarning : Text :=
  "Node validation failed, but MathML generation was attempted anyway"

/-- The list of messages as one text. -/
def messageList (messages : List Text) : Text :=
  "[" ++ Text.join ", " (messages.map Text.quoted) ++ "]"

/-- Why a generation has no result. -/
inductive GenerateError where
  /-- The check has none. -/
  | check (e : SpellError)
  | write (e : WriteError)
deriving DecidableEq, Repr

/-- The wording of an error. -/
def GenerateError.message : GenerateError → Text
  | .check e => e.message
  | .write e => e.message

/-- Checks a draft and writes it as a document. Violations are reported and do not stop the writing;
a draft that cannot be written gives an empty document and a further message. -/
def generate (display : Bool) (d : Draft) : Logged (Except GenerateError Conversion) := do
  match ← d.checkLogged with
  | .error e => return .error (.check e)
  | .ok v =>
    if !v.isValid then
      .say .warning .generator ("Generating MathML from an invalid tree: " ++ messageList v.errors)
    let warnings := if v.isValid then [] else [violationWarning]
    match serialize display d.document with
    | .ok mathml => return .ok { mathml := mathml, errors := v.errors, warnings := warnings }
    | .error e =>
      if e.isCaught then
        .say .error .generator ("Failed to serialize MathML: " ++ e.message)
        return .ok {
          mathml := []
          errors := v.errors ++ ["Serialization failed: " ++ e.message]
          warnings := warnings }
      else
        return .error (.write e)

end MathMarkup.Draft
