import MathMarkup.Node
import MathMarkup.Options
import MathMarkup.Xml.Document

/-!
# What a conversion runs on

The digits that an integer is spelled with and the stack are bounded by what runs the library, and
the reader of XML is a library of its own. A `Host` says of each computation that can use up the
stack whether it does, since that depends on no rule of this library. By default integers have the
usual bound, the stack has room for everything, and documents are read by `Xml.document?`.
-/

namespace MathMarkup

/-- The bounds of what a conversion runs on, and its reader of documents. -/
structure Host where
  /-- The most digits of an integer that is spelled, if they are bounded. -/
  digits : Option Nat := some Number.digitLimit
  /-- Whether the stack has room for the parse of a source. -/
  parses : Options → Text → Bool := fun _ _ => true
  /-- Whether the stack has room for going through a tree. -/
  walks : Node → Bool := fun _ => true
  /-- Whether the stack has room for spelling a value. -/
  spells : Value → Bool := fun _ => true
  /-- What is said when the stack is used up. -/
  overflowMessage : Text := "maximum recursion depth exceeded"
  xml : Xml.Reader := Xml.document?

end MathMarkup
