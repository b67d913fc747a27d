import MathMarkup.Number.Binary64
import MathMarkup.Text.CodePoint

/-!
# The shortest decimal of a binary value

A finite binary value is written with the fewest digits that read back as the same value; of two
candidates of that length the nearer one is taken, and on a tie the one with the even last digit.

The reals that read back as a value form an interval: from halfway to the neighbour below up to
halfway to the neighbour above, ends included when the significand is even. Whether a decimal lies
in it is decided by cross-multiplying natural numbers. The search tries 1, 2, … 17 digits, which is
always enough; its last resort is the exact decimal.

`Binary64.text` lays the digits out: positional notation for exponents from -4 to 15, always with a
point, and otherwise a mantissa with a signed exponent of at least two digits.
-/

namespace MathMarkup.Binary64

/-- A positive decimal, `digits · 10 ^ exponent`. -/
structure Decimal where
  digits : Nat
  exponent : Int
deriving DecidableEq, Repr

/-- The order of `a · 10 ^ i` and `n · 2 ^ j`. -/
def compareScaled (a : Nat) (i : Int) (n : Nat) (j : Int) : Ordering :=
  compare (a * Nat.pow 10 i.toNat * Nat.pow 2 (-j).toNat)
    (n * Nat.pow 2 j.toNat * Nat.pow 10 (-i).toNat)

/-- Whether the decimal lies among the reals nearest to `m · 2 ^ e`. The gap below a power of two is
half as wide as the gap above it. -/
def readsBack (m : Nat) (e : Int) (d : Decimal) : Bool :=
  let low := if m = Nat.pow 2 52 ∧ -1074 < e then 4 * m - 1 else 4 * m - 2
  let closed := m % 2 = 0
  let lower := compareScaled d.digits d.exponent low (e - 2)
  let upper := compareScaled d.digits d.exponent (4 * m + 2) (e - 2)
  (lower = .gt || (closed && lower = .eq)) && (upper = .lt || (closed && upper = .eq))

/-- The least `k` with `m · 2 ^ e < 10 ^ k`, for a positive `m`. It is estimated from the binary
logarithm; the estimate is off by less than two. -/
def magnitude (m : Nat) (e : Int) : Int :=
  let estimate : Int := ((Nat.log2 m : Int) + e) * 30103 / 100000
  (([estimate - 1, estimate, estimate + 1, estimate + 2].find? fun k =>
    compareScaled 1 k m e = .gt)).getD (estimate + 3)

/-- The decimal with `n` digits nearest to `m · 2 ^ e`, if it reads back. -/
def candidate (m : Nat) (e k : Int) (n : Nat) : Option Decimal :=
  let exponent := k - n
  let below := m * Nat.pow 2 e.toNat * Nat.pow 10 (-exponent).toNat /
    (Nat.pow 2 (-e).toNat * Nat.pow 10 exponent.toNat)
  let hit (d : Nat) := readsBack m e ⟨d, exponent⟩
  match hit below, hit (below + 1) with
  | true, false => some ⟨below, exponent⟩
  | false, true => some ⟨below + 1, exponent⟩
  | false, false => none
  | true, true =>
    -- twice the value against the sum of the two candidates
    match compareScaled (2 * below + 1) exponent m (e + 1) with
    | .gt => some ⟨below, exponent⟩
    | .lt => some ⟨below + 1, exponent⟩
    | .eq => some ⟨if below % 2 = 0 then below else below + 1, exponent⟩

/-- The exact decimal of `m · 2 ^ e`. -/
def exactDecimal (m : Nat) (e : Int) : Decimal :=
  if 0 ≤ e then ⟨m * Nat.pow 2 e.toNat, 0⟩ else ⟨m * Nat.pow 5 (-e).toNat, e⟩

/-- The shortest decimal that reads back as `m · 2 ^ e`, for a positive `m`. -/
def shortest (m : Nat) (e : Int) : Decimal :=
  ((List.range 17).findSome? fun n => candidate m e (magnitude m e) (n + 1)).getD
    (exactDecimal m e)

/-- The digits of a number without the zeros at its end. -/
def significantDigits (n : Nat) : List Char :=
  ((Nat.toDigits 10 n).reverse.dropWhile (· = '0')).reverse

/-- The digits laid out with the point behind the first `point` of them. -/
def positional (digits : List Char) (point : Int) : List Char :=
  if point ≤ 0 then
    '0' :: '.' :: List.replicate (-point).toNat '0' ++ digits
  else
    let whole := digits.take point.toNat
    let places := digits.drop point.toNat
    whole ++ List.replicate (point.toNat - whole.length) '0' ++
      '.' :: (if places.isEmpty then ['0'] else places)

/-- The digits laid out with one of them before the point and an exponent. -/
def scientific (digits : List Char) (exponent : Int) : List Char :=
  let mantissa := match digits with
    | first :: second :: rest => first :: '.' :: second :: rest
    | _ => digits
  let size := Nat.toDigits 10 exponent.natAbs
  mantissa ++ 'e' :: (if exponent < 0 then '-' else '+') ::
    List.replicate (2 - size.length) '0' ++ size

/-- The characters of a finite value without its sign. -/
def magnitudeChars (m : Nat) (e : Int) : List Char :=
  if m = 0 then ['0', '.', '0']
  else
    let d := shortest m e
    let point : Int := d.exponent + (Nat.toDigits 10 d.digits).length
    let digits := significantDigits d.digits
    if -4 < point ∧ point ≤ 16 then positional digits point
    else scientific digits (point - 1)

/-- The spelling of a value. -/
def text : Binary64 → Text
  | .finite negative m e =>
    let body := (magnitudeChars m e).map CodePoint.scalar
    if negative then .scalar '-' :: body else body
  | .infinite false => "inf"
  | .infinite true => "-inf"
  | .nan => "nan"

example : text (ofDecimal false 1 (-1)) = Text.ofString "0.1" := by decide +kernel
example : text (ofDecimal true 0 0) = Text.ofString "-0.0" := by decide +kernel
example : text (ofDecimal false 1 16) = Text.ofString "1e+16" := by decide +kernel
example : text (ofDecimal false 12345 (-9)) = Text.ofString "1.2345e-05" := by decide +kernel

end MathMarkup.Binary64
