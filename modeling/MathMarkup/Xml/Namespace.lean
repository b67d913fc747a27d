import MathMarkup.Xml.Char
import MathMarkup.Xml.Report
import MathMarkup.Xml.Uri

/-!
# Namespaces

A start tag may bind prefixes to namespaces for its element and all below it; the empty prefix is
bound by `xmlns` alone. `Bindings.enter?` reads the name and the attributes of a start tag under the
bindings around it, with a report of each rule on names that they break. Only an attribute or a
binding that is given twice stops the reading.
-/

namespace MathMarkup.Xml

/-- A name together with the namespace that it belongs to. -/
structure Name where
  space : Option Text
  localPart : Text
deriving DecidableEq, Repr

/-- A name in no namespace. -/
def Name.bare (localPart : Text) : Name :=
  ⟨none, localPart⟩

/-- Whether the name can be told from its spelling, where the namespace stands in braces before the
local part. -/
def Name.isClear (name : Name) : Bool :=
  !name.localPart.contains (.scalar ':') && !(name.space.any (·.contains (.scalar '\x7d')))

/-- The namespace of the prefix `xml`, which is always bound. -/
def xmlSpace : Text :=
  "http://www.w3.org/XML/1998/namespace"

/-- The namespace of declarations, to which nothing may be bound. -/
def xmlnsSpace : Text :=
  "http://www.w3.org/2000/xmlns/"

/-- Prefixes with the namespaces that they stand for, innermost first. The empty text bound to the
empty prefix undoes a binding further out. -/
abbrev Bindings := List (Text × Text)

/-! ## Declarations -/

/-- The prefix that an attribute binds, if it is a declaration. -/
def QName.declares? (q : QName) : Option Text :=
  if q = ⟨[], "xmlns"⟩ then some []
  else if q.head = Text.ofString "xmlns" then some q.localPart
  else none

/-- Whether a declaration makes a binding. The reserved prefixes and namespaces are not bound, and
only the empty prefix is unbound. -/
def isBinding (head space : Text) : Bool :=
  head ≠ Text.ofString "xml" && head ≠ Text.ofString "xmlns" && space ≠ xmlSpace &&
    space ≠ xmlnsSpace && (head.isEmpty || !space.isEmpty)

/-- What is wrong with a declaration. A binding is made even if the name of the namespace has the
wrong shape; a relative one is odd as the default. -/
def declarationReports (head space : Text) : List Report :=
  if head = Text.ofString "xml" ∧ space = xmlSpace ∨ head.isEmpty ∧ space.isEmpty then []
  else if !isBinding head space ∨ !Uri.isReference space then [.fault]
  else Report.warningIf (head.isEmpty && !Uri.isAbsolute space)

/-! ## Names under bindings -/

namespace Bindings

/-- The namespace of a prefix that is not empty. -/
def space? (b : Bindings) (head : Text) : Option Text :=
  if head = Text.ofString "xml" then some xmlSpace else b.lookup head

/-- Whether a name has a prefix without a namespace. -/
def isUnbound (b : Bindings) (q : QName) : Bool :=
  !q.head.isEmpty && (b.space? q.head).isNone

/-- A name with a prefix. If no namespace is bound to it, the prefix stays in the name. -/
def prefixedName (b : Bindings) (q : QName) : Name :=
  match b.space? q.head with
  | some space => ⟨some space, q.localPart⟩
  | none => .bare q.text

/-- What an attribute is told apart from others by: its namespace, if there is one, and its local
part. -/
def attributeKey (b : Bindings) (q : QName) : Option Text × Text :=
  (if q.head.isEmpty then none else b.space? q.head, q.localPart)

/-- The name of an element. Without a prefix it is in the default namespace, if there is one. -/
def elementName (b : Bindings) (q : QName) : Name :=
  if q.head.isEmpty then ⟨(b.lookup []).filter (!·.isEmpty), q.localPart⟩ else b.prefixedName q

/-- The name of an attribute. Without a prefix it is in no namespace. -/
def attributeName (b : Bindings) (q : QName) : Name :=
  if q.head.isEmpty then .bare q.localPart else b.prefixedName q

end Bindings

/-! ## Attributes with a meaning of their own -/

/-- Whether the name is the given one with the prefix `xml`. -/
def QName.isXml (q : QName) (localPart : String) : Bool :=
  q.head = Text.ofString "xml" && q.localPart = Text.ofString localPart

/-- Whether a value says how white space is treated. -/
def isSpaceValue (value : Text) : Bool :=
  value = Text.ofString "default" || value = Text.ofString "preserve"

/-- What is wrong with an attribute by itself. -/
def attributeReports (a : QName × Text) : List Report :=
  Report.faultIf (!a.1.isWellFormed) ++
  Report.warningIf (a.1.isXml "space" && !isSpaceValue a.2) ++
  (match a.1.declares? with
    | some head => declarationReports head a.2
    | none => [])

/-! ## Start tags -/

/-- What a start tag says: the name of its element, its attributes without the declarations, its
identifier, the bindings inside it, and what is wrong with it, the identifier aside. -/
structure Entry where
  name : Name
  attributes : List (Name × Text)
  identifier : Option Text
  bindings : Bindings
  reports : List Report
deriving DecidableEq, Repr

/-- For each attribute with the key of an earlier one, whether it has the prefix of the first one
with that key. Attributes whose prefix has no namespace are not compared. -/
def Bindings.repeated (b : Bindings) (names : List QName) : List Bool :=
  let bound := (names.filter fun q => !b.isUnbound q).zipIdx
  let firstWith (q : QName) : Option (QName × Nat) :=
    bound.find? fun p => b.attributeKey p.1 = b.attributeKey q
  bound.filterMap fun (q, i) =>
    (firstWith q).bind fun (first, j) => if j < i then some (first.head = q.head) else none

/-- Whether the attributes of a tag are told apart well enough to read on: none repeats the first
one with its key under the same prefix, and once two repeat others under different prefixes, no name
with a prefix is written twice. -/
def Bindings.isDistinct (b : Bindings) (names : List QName) : Bool :=
  let repeated := b.repeated names
  !repeated.contains true &&
    (repeated.length ≤ 1 || decide (names.filter fun q => !q.head.isEmpty).Nodup)

/-- The start tag read under the bindings around it. No prefix is bound twice, and the attributes
are told apart. What is wrong with single attributes is reported in their order, then prefixes
without a namespace and attributes that are the same under different prefixes. -/
def Bindings.enter? (outer : Bindings) (tag : Text) (written : List (Text × Text)) :
    Option Entry := do
  let q ← QName.ofText? tag
  let all ← written.mapM fun a => (QName.ofText? a.1).map fun name => (name, a.2)
  let declared := all.filterMap fun a => a.1.declares?.map fun head => (head, a.2)
  let bound := declared.filter fun d => isBinding d.1 d.2
  let given := all.filter fun a => a.1.declares?.isNone
  let bindings : Bindings := bound ++ outer
  let names := given.map Prod.fst
  let unbound := (names ++ [q]).filter bindings.isUnbound
  if (bound.map Prod.fst).Nodup ∧ bindings.isDistinct names then
    return {
      name := bindings.elementName q
      attributes := given.map fun a => (bindings.attributeName a.1, a.2)
      identifier := (given.find? fun a => a.1.isXml "id").map Prod.snd
      bindings
      reports := Report.faultIf (!q.isWellFormed) ++ all.flatMap attributeReports ++
        List.replicate (unbound.length + (bindings.repeated names).length) .fault }
  else none

end MathMarkup.Xml
