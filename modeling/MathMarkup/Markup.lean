import MathMarkup.Assoc
import MathMarkup.Text.CodePoint

/-!
# The vocabulary of the markup

The names of elements that are known, how many children some of them must have, and the namespace
that they belong to.
-/

namespace MathMarkup.Markup

/-- The namespace of the markup. -/
def namespaceName : Text :=
  "http://www.w3.org/1998/Math/MathML"

/-- Elements with a fixed number of children. -/
def fixedArities : Assoc Text Nat :=
  [("mfrac", 2), ("msub", 2), ("msup", 2), ("munder", 2), ("mover", 2), ("mroot", 2),
   ("msubsup", 3), ("munderover", 3)]

/-- The number of children that an element must have, if it is fixed. -/
def fixedArity? (name : Text) : Option Nat :=
  fixedArities.get? name

/-- The least number of children of an element, if there is one. Tables and their rows are not
empty. -/
def leastArity? (name : Text) : Option Nat :=
  if name = Text.ofString "mtable" ∨ name = Text.ofString "mtr" then some 1 else none

/-- Elements that hold text and no elements. -/
def tokenElements : List Text :=
  ["mi", "mn", "mo", "mtext", "ms"].map Text.ofString

/-- The names of all known elements. -/
def knownElements : List Text :=
  ["math", "mrow", "mi", "mn", "mo", "mtext", "mspace", "ms", "mglyph", "msub", "msup", "msubsup",
   "munder", "mover", "munderover", "mmultiscripts", "mtable", "mtr", "mtd", "mlabeledtr", "mstack",
   "mlongdiv", "msgroup", "msrow", "mscarries", "mscarry", "msline", "mfrac", "msqrt", "mroot",
   "mstyle", "merror", "mpadded", "mphantom", "mfenced", "menclose", "maction", "semantics",
   "annotation", "annotation-xml", "mprescripts", "none", "maligngroup", "malignmark"].map
    Text.ofString

end MathMarkup.Markup
