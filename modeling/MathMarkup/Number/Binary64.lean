/-!
# Binary floating-point values of 64 bits

A finite value is a sign, a significand and a power of two; zero keeps its sign. A decimal is read
as the nearest value, and halfway between two values as the one with the even significand. The
arithmetic is exact, on natural numbers.
-/

namespace MathMarkup

/-- A value of the 64-bit binary format. A finite one is `±significand · 2 ^ exponent` with a
significand below `2 ^ 53` and an exponent from -1074 to 971; unless the exponent is least, the
significand is at least `2 ^ 52`. -/
inductive Binary64 where
  | finite (negative : Bool) (significand : Nat) (exponent : Int)
  | infinite (negative : Bool)
  | nan
deriving DecidableEq, Repr

namespace Binary64

/-- The quotient rounded to the nearest natural number, halves to the even one. -/
def roundDiv (num den : Nat) : Nat :=
  let q := num / den
  let r := num % den
  if den < 2 * r ∨ (2 * r = den ∧ q % 2 = 1) then q + 1 else q

/-- The value nearest to `±num / den`. -/
def ofQuotient (negative : Bool) (num den : Nat) : Binary64 :=
  if num = 0 ∨ den = 0 then .finite negative 0 (-1074)
  else
    let guess : Int := max (-1074) ((Nat.log2 num : Int) - Nat.log2 den - 53)
    let scaled (e : Int) : Nat :=
      roundDiv (num * Nat.pow 2 (-e).toNat) (den * Nat.pow 2 e.toNat)
    let exponent := if scaled guess < Nat.pow 2 53 then guess else guess + 1
    let significand := scaled exponent
    let (significand, exponent) :=
      if significand < Nat.pow 2 53 then (significand, exponent)
      else (Nat.pow 2 52, exponent + 1)
    if 971 < exponent then .infinite negative else .finite negative significand exponent

/-- The value nearest to `±digits · 10 ^ exponent`. The exponent is looked at first, so that a far
too large or too small one costs nothing. -/
def ofDecimal (negative : Bool) (digits : Nat) (exponent : Int) : Binary64 :=
  let magnitude : Int := (Nat.toDigits 10 digits).length + exponent
  if digits = 0 ∨ magnitude < -400 then .finite negative 0 (-1074)
  else if 400 < magnitude then .infinite negative
  else ofQuotient negative (digits * Nat.pow 10 exponent.toNat) (Nat.pow 10 (-exponent).toNat)

/-- The value nearest to a natural number. -/
def ofNat (n : Nat) : Binary64 :=
  ofQuotient false n 1

/-- The value nearest to a multiple. -/
def timesNat (x : Binary64) (n : Nat) : Binary64 :=
  match x with
  | .finite negative m e =>
    ofQuotient negative (m * n * Nat.pow 2 e.toNat) (Nat.pow 2 (-e).toNat)
  | _ => x

/-- The value of the sign of `x` nearest to the sum of both magnitudes. -/
def addMagnitude (x y : Binary64) : Binary64 :=
  match x, y with
  | .finite negative m e, .finite _ m' e' =>
    let low := min e e'
    let sum := m * Nat.pow 2 (e - low).toNat + m' * Nat.pow 2 (e' - low).toNat
    ofQuotient negative (sum * Nat.pow 2 low.toNat) (Nat.pow 2 (-low).toNat)
  | .finite negative _ _, .infinite _ => .infinite negative
  | .finite _ _ _, .nan => .nan
  | x, _ => x

example : ofDecimal false 5 (-1) = .finite false (2 ^ 52) (-53) := by decide +kernel
example : ofDecimal true 0 0 = .finite true 0 (-1074) := by decide +kernel
example : ofDecimal false 1 400 = .infinite false := by decide +kernel

/-- The order of `±significand · 2 ^ exponent` and an integer. -/
def compareInt (negative : Bool) (significand : Nat) (exponent : Int) (n : Int) : Ordering :=
  let scaled : Int := significand * Nat.pow 2 exponent.toNat
  compare (if negative then -scaled else scaled) (n * Nat.pow 2 (-exponent).toNat)

/-- Whether two values are equal numbers: both zeros are, a NaN equals nothing. -/
def sameNumber : Binary64 → Binary64 → Bool
  | .finite s m e, .finite s' m' e' => (m = 0 && m' = 0) || (s = s' && m = m' && e = e')
  | .infinite s, .infinite s' => s = s'
  | _, _ => false

end Binary64

end MathMarkup
