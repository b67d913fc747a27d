import MathMarkup.Text.CodePoint

/-!
# Names of elements and attributes

A name starts with an ASCII letter or an underscore, and goes on with ASCII letters, digits,
underscores, points, colons and hyphens. The test looks at a name as at a line, so that one line
feed behind the name is let pass.
-/

namespace MathMarkup.Xml

/-- A code point that may start a name. -/
def isNameStart (c : CodePoint) : Bool :=
  c.isAsciiLetter || c = .scalar '_'

/-- A code point that may go on in a name. -/
def isNamePart (c : CodePoint) : Bool :=
  isNameStart c || c.isDigit || c = .scalar '.' || c = .scalar ':' || c = .scalar '-'

/-- Whether the text, one line feed at its end aside, is a name. -/
def isNameLine : Text → Bool
  | [] => false
  | c :: rest =>
    isNameStart c &&
      (match rest.dropWhile isNamePart with
        | [] => true
        | [.scalar '\n'] => true
        | _ => false)

example : isNameLine (Text.ofString "a:b.c-d_e1") = true := by decide
example : isNameLine (Text.ofString "mi\n") = true := by decide
example : isNameLine (Text.ofString "mi\n\n") = false := by decide

end MathMarkup.Xml
