import MathMarkup.Value

/-!
# Why a YAML text has no value

Most faults are faults of form. The others are well formed and still have no value: an integer
without digits or with too many of them, an escape with a number that no code point has, and what
has the form of some further type, such as a date, and does not denote anything of that type.
-/

namespace MathMarkup.Value.Yaml

/-- Why a text has no value. -/
inductive Error where
  | malformed
  /-- Only underscores stand where the digits of an integer should be. -/
  | noDigits (base : Nat)
  /-- An integer has too many decimal digits. -/
  | tooLong (digits : Nat)
  /-- An escape gives a number beyond the last code point. -/
  | noCodePoint
  /-- A scalar of some further type is not valid. -/
  | invalid (message : Text)
deriving DecidableEq, Repr

/-- The wording of an error, if it has one of its own. -/
def Error.message? : Error → Option Text
  | .malformed => none
  | .noDigits base => some ("invalid literal for int() with base " ++ Text.ofNat base ++ ": ''")
  | .tooLong digits => some (Number.tooLongMessage digits)
  | .noCodePoint => some "chr() arg not in range(0x110000)"
  | .invalid message => some message

/-- A reader of YAML texts. -/
abbrev Reader : Type :=
  Text → Except Error Value

end MathMarkup.Value.Yaml
