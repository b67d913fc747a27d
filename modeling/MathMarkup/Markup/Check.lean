import MathMarkup.Markup
import MathMarkup.Xml.Document

/-!
# Checking markup text

The text is read as an XML document, and its elements are compared with the vocabulary: the root,
then every element in document order. The reader comes from outside and is a parameter;
`Xml.document?` is one. A text that is not well formed has that one problem. A comment or a
processing instruction inside the root has no name that could be looked up, and neither has an
element whose name cannot be told from its spelling; the check fails there.
-/

namespace MathMarkup.Markup

/-- What may be wrong with a markup text. -/
inductive Problem where
  | notWellFormed
  | rootName
  | rootNamespace
  | rootDisplay
  | unknownElement (name : Text)
  | childElements (name : Text)
  | arity (name : Text) (expected found : Nat)
deriving DecidableEq, Repr

/-- The wording of a problem. -/
def Problem.message : Problem → Text
  | .notWellFormed => "XML syntax error"
  | .rootName => "Root element must be <math>"
  | .rootNamespace => "Missing or incorrect MathML namespace"
  | .rootDisplay => "Root display attribute must be 'block' or 'inline'"
  | .unknownElement name => "Invalid MathML element: <" ++ name ++ ">"
  | .childElements name => "Element <" ++ name ++ "> should not have child elements"
  | .arity name expected found =>
    "Element <" ++ name ++ "> requires " ++ Text.ofNat expected ++ " children, found " ++
      Text.ofNat found

/-- Why a text cannot be checked. -/
inductive CheckError where
  /-- A comment or a processing instruction stands inside the root. -/
  | aside
  /-- The name of an element is not clear. -/
  | unclearName
deriving DecidableEq, Repr

/-- The problems of the root as the root. -/
def rootProblems (name : Xml.Name) (attributes : List (Xml.Name × Text)) : List Problem :=
  (if name.localPart = Text.ofString "math" then [] else [.rootName]) ++
  (if name.space = some namespaceName then [] else [.rootNamespace]) ++
  (match attributes.lookup (.bare "display") with
    | some value =>
      if value = Text.ofString "block" ∨ value = Text.ofString "inline" then []
      else [.rootDisplay]
    | none => [.rootDisplay])

/-- The problems of an element with the given local name and number of children. -/
def elementProblems (name : Text) (found : Nat) : List Problem :=
  (if knownElements.contains name then [] else [.unknownElement name]) ++
  (if tokenElements.contains name && 0 < found then [.childElements name] else []) ++
  (match fixedArity? name with
    | some expected => if found = expected then [] else [.arity name expected found]
    | none => [])

mutual

/-- The problems of an element and of all below it. -/
def itemProblems : Xml.Item → Except CheckError (List Problem)
  | .aside => .error .aside
  | .element name _ children => do
    if !name.isClear then .error .unclearName
    let below ← childProblems children
    return elementProblems name.localPart children.length ++ below

/-- The problems of several elements and of all below them. -/
def childProblems : List Xml.Item → Except CheckError (List Problem)
  | [] => .ok []
  | child :: rest => do
    let first ← itemProblems child
    let more ← childProblems rest
    return first ++ more

end

/-- The problems of a markup text. -/
def problems (xml : Xml.Reader) (mathml : Text) : Except CheckError (List Problem) :=
  match xml mathml with
  | none => .ok [.notWellFormed]
  | some .aside => .error .aside
  | some (.element name attributes children) => do
    let below ← itemProblems (.element name attributes children)
    return rootProblems name attributes ++ below

/-- The messages of a check of a markup text. -/
def check (xml : Xml.Reader) (mathml : Text) : Except CheckError (List Text) := do
  return (← problems xml mathml).map Problem.message

end MathMarkup.Markup
