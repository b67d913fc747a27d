import MathMarkup.Draft
import MathMarkup.Log
import MathMarkup.Markup
import MathMarkup.Text.Order
import MathMarkup.Validation
import MathMarkup.Xml.Name

/-!
# Checking drafts

The check reports every violation of every node that it can reach, in document order. Each node has
violations of its own (`Draft.violations`), which depend on that node alone; the walk
(`Draft.reports`) adds the path of the node, made of names and positions.
-/

namespace MathMarkup.Draft

/-- What may be wrong with a single node. -/
inductive Violation where
  | extraFields (names : List Text)
  | contentType (typeName : Text)
  | malformed (typeName : Text)
  | unnamed
  | badName (name : Text)
  | attributesType (typeName : Text)
  | badKey (key : Scalar)
  | badValue (key : Scalar) (typeName : Text)
  | childrenType (typeName : Text)
  | fixedArity (name : Text) (expected found : Nat)
  | leastArity (name : Text) (least found : Nat)
deriving DecidableEq, Repr

/-- The wording of a violation. It quotes the key of an attribute, which may have no spelling. -/
def Violation.message : Violation → Except SpellError Text
  | .extraFields names => .ok ("text node must not carry " ++ Text.join ", " names)
  | .contentType typeName => .ok ("text content must be a string, got " ++ typeName)
  | .malformed typeName => .ok ("malformed node of type " ++ typeName)
  | .unnamed => .ok "element name must be a non-empty string"
  | .badName name => .ok ("invalid element name " ++ name.quoted)
  | .attributesType typeName => .ok ("attributes must be a mapping, got " ++ typeName)
  | .badKey key => do return "invalid attribute name " ++ (← key.literal)
  | .badValue key typeName => do
    return "attribute " ++ (← key.literal) ++ " must be a string, got " ++ typeName
  | .childrenType typeName => .ok ("children must be a list, got " ++ typeName)
  | .fixedArity name expected found => .ok
    ("<" ++ name ++ "> requires " ++ Text.ofNat expected ++ " children, found " ++ Text.ofNat found)
  | .leastArity name least found => .ok
    ("<" ++ name ++ "> requires at least " ++ Text.ofNat least ++ " child, found " ++
      Text.ofNat found)

/-! ## The violations of one node -/

/-- The names in order, each once. -/
def sortedNames (names : List Text) : List Text :=
  names.eraseDups.mergeSort Text.le

/-- The violations of a text node. -/
def textViolations (content : Value) (extra : List Text) : List Violation :=
  let names := sortedNames (extra.filter (· ≠ Text.ofString "content"))
  (if names.isEmpty then [] else [.extraFields names]) ++
    (if content.isText then [] else [.contentType content.typeName])

/-- The violations of the name of an element. -/
def nameViolations : Value → List Violation
  | .text name =>
    if name.isEmpty then [.unnamed]
    else if Xml.isNameLine name then [] else [.badName name]
  | _ => [.unnamed]

/-- The violations of one attribute. -/
def attributeViolations (key : Scalar) (value : Value) : List Violation :=
  (match key with
    | .text k => if Xml.isNameLine k then [] else [.badKey key]
    | _ => [.badKey key]) ++
  (if value.isText then [] else [.badValue key value.typeName])

/-- The violations of the attributes of an element. -/
def attributesViolations : Value → List Violation
  | .mapping entries => entries.flatMap fun e => attributeViolations e.1 e.2
  | v => [.attributesType v.typeName]

/-- The violations of the number of children of an element. -/
def arityViolations (name : Value) (found : Nat) : List Violation :=
  match name with
  | .text name =>
    (match Markup.fixedArity? name with
      | some expected => if found = expected then [] else [.fixedArity name expected found]
      | none => []) ++
    (match Markup.leastArity? name with
      | some least => if found < least then [.leastArity name least found] else []
      | none => [])
  | _ => []

/-- What is wrong with a node itself, whatever stands below it. -/
def violations : Draft → List Violation
  | .text content extra => textViolations content extra
  | .plain value => [.malformed value.typeName]
  | .element name attributes children =>
    nameViolations name ++ attributesViolations attributes ++
      arityViolations name children.length
  | .childless name attributes children =>
    nameViolations name ++ attributesViolations attributes ++
      [.childrenType children.value.typeName]

/-! ## The walk -/

/-- The label of an element in a path. -/
def label : Value → Text
  | .text name => if name.isEmpty then "?" else name
  | _ => "?"

/-- A step added to a path. -/
def pathStep (parent step : Text) : Text :=
  if parent.isEmpty then step else parent ++ "/" ++ step

/-- The path of a node below the given one. -/
def path (parent : Text) : Draft → Text
  | .text _ _ => pathStep parent "#text"
  | .plain _ => if parent.isEmpty then "<root>" else parent
  | .element name _ _ => pathStep parent (label name)
  | .childless name _ _ => pathStep parent (label name)

/-- A violation with the path of its node. -/
def report (path : Text) (v : Violation) : Except SpellError Text := do
  return path ++ ": " ++ (← v.message)

/-- The violations of a node with its path. -/
def ownReports (parent : Text) (d : Draft) : Except SpellError (List Text) :=
  d.violations.mapM (report (d.path parent))

mutual

/-- The reports on a node and on all below it. -/
def reports (parent : Text) : Draft → Except SpellError (List Text)
  | .element name attributes children => do
    let own ← ownReports parent (.element name attributes children)
    let below ← childReports (path parent (.element name attributes children)) 0 children
    return own ++ below
  | .text content extra => ownReports parent (.text content extra)
  | .plain value => ownReports parent (.plain value)
  | .childless name attributes children =>
    ownReports parent (.childless name attributes children)

/-- The reports on children from the given position on. -/
def childReports (parent : Text) (index : Nat) : List Draft → Except SpellError (List Text)
  | [] => .ok []
  | child :: rest => do
    let first ← reports (parent ++ "[" ++ Text.ofNat index ++ "]") child
    let more ← childReports parent (index + 1) rest
    return first ++ more

end

/-- The check of a draft. It has no result where a key that is to be quoted has no spelling. -/
def check (d : Draft) : Except SpellError Validation := do
  return ⟨← reports [] d, []⟩

/-- The check of a draft, with the entry that counts the problems. -/
def checkLogged (d : Draft) : Logged (Except SpellError Validation) := do
  match d.check with
  | .error e => return .error e
  | .ok v =>
    if !v.isValid then
      .say .debug .check ("AST validation found " ++ Text.ofNat v.errors.length ++ " problem(s)")
    return .ok v

end MathMarkup.Draft
