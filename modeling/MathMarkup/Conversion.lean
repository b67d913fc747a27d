import MathMarkup.Diagnostic

/-!
# The result of a conversion

The markup text with the messages collected on the way, and the reports of a failed parse.
-/

namespace MathMarkup

/-- The result of a conversion. -/
structure Conversion where
  mathml : Text
  errors : List Text := []
  warnings : List Text := []
  details : List Diagnostic := []
deriving DecidableEq, Repr

/-- A conversion is successful when it has no errors. -/
def Conversion.isSuccessful (c : Conversion) : Bool :=
  c.errors.isEmpty

end MathMarkup
