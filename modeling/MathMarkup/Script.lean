import MathMarkup.Token

/-!
# Scripts

A superscript is announced by a caret and a subscript by an underscore.
-/

namespace MathMarkup

/-- The two kinds of scripts. -/
inductive Script where
  | superscript
  | subscript
deriving DecidableEq, Repr

namespace Script

/-- The symbol that announces a script. -/
def marker : Script → Text
  | .superscript => "^"
  | .subscript => "_"

/-- The word for a script. -/
def name : Script → Text
  | .superscript => "superscript"
  | .subscript => "subscript"

/-- The script that a token announces. -/
def ofToken? (t : Token) : Option Script :=
  if t.isSymbol "^" then some .superscript
  else if t.isSymbol "_" then some .subscript
  else none

theorem value_of_ofToken? {t : Token} {s : Script} (h : ofToken? t = some s) :
    t.kind = .symbol ∧ t.value = s.marker := by
  unfold ofToken? at h
  split at h
  · next ht => cases h; exact Token.is_iff.1 ht
  · split at h
    · next ht => cases h; exact Token.is_iff.1 ht
    · cases h

end Script

end MathMarkup
