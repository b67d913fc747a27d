import MathMarkup.Text.CodePoint

/-!
# The outcome of a check

A check lists what is wrong; what it looks at is valid when nothing is.
-/

namespace MathMarkup

/-- The messages of a check. -/
structure Validation where
  errors : List Text
  warnings : List Text := []
deriving DecidableEq, Repr

/-- Whether nothing is wrong. -/
def Validation.isValid (v : Validation) : Bool :=
  v.errors.isEmpty

end MathMarkup
