/-!
# Text as code points

A text is a sequence of Unicode code points. Half of a surrogate pair may stand alone in a source,
so a code point is a scalar value (a `Char`) or one of the 2048 surrogates; offsets, columns and
lengths all count code points.

Literals are written as strings and coerced; the coercion is injective, so that two literals are
compared by comparing the strings.
-/

namespace MathMarkup

/-- A Unicode code point: a scalar value, or a surrogate given by its distance from U+D800. -/
inductive CodePoint where
  | scalar (c : Char)
  | surrogate (n : Fin 0x800)
deriving DecidableEq, Repr, Inhabited

namespace CodePoint

/-- The number of a code point, at most 0x10FFFF. -/
def toNat : CodePoint → Nat
  | .scalar c => c.toNat
  | .surrogate n => 0xD800 + n.val

/-- The code point of a number. Numbers beyond U+10FFFF have none. -/
def ofNat? (n : Nat) : Option CodePoint :=
  if h : 0xD800 ≤ n ∧ n < 0xE000 then
    some (.surrogate ⟨n - 0xD800, by omega⟩)
  else if n < 0x110000 then
    some (.scalar (Char.ofNat n))
  else
    none

/-- Each code point is the one of its number. -/
theorem ofNat?_toNat (c : CodePoint) : ofNat? c.toNat = some c := by
  cases c with
  | scalar c =>
    have hv : c.toNat < 0xD800 ∨ (0xDFFF < c.toNat ∧ c.toNat < 0x110000) := c.valid
    have hs : ¬(0xD800 ≤ c.toNat ∧ c.toNat < 0xE000) := by omega
    have hn : c.toNat < 0x110000 := by omega
    simp [ofNat?, toNat, hs, hn]
  | surrogate n =>
    have hn : 0xD800 ≤ 0xD800 + n.val ∧ 0xD800 + n.val < 0xE000 := by omega
    simp [ofNat?, toNat, hn]

theorem toNat_inj {c d : CodePoint} : c.toNat = d.toNat ↔ c = d := by
  constructor
  · intro h
    have hc := ofNat?_toNat c
    rw [h, ofNat?_toNat] at hc
    exact (Option.some.inj hc).symm
  · rintro rfl
    rfl

/-- Whether the code point is half of a surrogate pair. -/
def isSurrogate : CodePoint → Bool
  | .scalar _ => false
  | .surrogate _ => true

theorem scalar_toNat (c : Char) : (CodePoint.scalar c).toNat = c.toNat := rfl

/-- The code points with a number in one of the closed ranges. -/
def inRanges (ranges : List (Nat × Nat)) (c : CodePoint) : Bool :=
  ranges.any fun r => r.1 ≤ c.toNat && c.toNat ≤ r.2

/-- A decimal digit of ASCII. -/
def isDigit : CodePoint → Bool
  | .scalar c => '0' ≤ c && c ≤ '9'
  | .surrogate _ => false

/-- A letter of ASCII. -/
def isAsciiLetter : CodePoint → Bool
  | .scalar c => ('a' ≤ c && c ≤ 'z') || ('A' ≤ c && c ≤ 'Z')
  | .surrogate _ => false

theorem isDigit_toNat {c : CodePoint} (h : c.isDigit = true) :
    0x30 ≤ c.toNat ∧ c.toNat ≤ 0x39 := by
  cases c with
  | surrogate n => cases h
  | scalar c =>
    simp only [isDigit, Bool.and_eq_true, decide_eq_true_eq, Char.le_def,
      UInt32.le_iff_toNat_le] at h
    exact h

theorem isAsciiLetter_toNat {c : CodePoint} (h : c.isAsciiLetter = true) :
    0x41 ≤ c.toNat ∧ c.toNat ≤ 0x5A ∨ 0x61 ≤ c.toNat ∧ c.toNat ≤ 0x7A := by
  cases c with
  | surrogate n => cases h
  | scalar c =>
    simp only [isAsciiLetter, Bool.or_eq_true, Bool.and_eq_true, decide_eq_true_eq, Char.le_def,
      UInt32.le_iff_toNat_le] at h
    exact h.symm

end CodePoint

/-- A sequence of code points. -/
abbrev Text := List CodePoint

namespace Text

/-- The text of a string. -/
def ofString (s : String) : Text :=
  s.toList.map .scalar

instance : Coe String Text := ⟨ofString⟩

@[simp] theorem ofString_inj {s t : String} : ofString s = ofString t ↔ s = t := by
  simp [ofString, List.map_inj_right, String.toList_inj]

@[simp] theorem length_ofString (s : String) : (ofString s).length = s.length := by
  simp [ofString, String.length_toList]

@[simp] theorem ofString_append (s t : String) : ofString (s ++ t) = ofString s ++ ofString t := by
  simp [ofString]

/-- The decimal spelling of a natural number. -/
def ofNat (n : Nat) : Text :=
  ofString (Nat.repr n)

theorem ofNat_inj {m n : Nat} : ofNat m = ofNat n ↔ m = n := by
  constructor
  · intro h
    have hdigits := congrArg String.toList (ofString_inj.mp h)
    rw [Nat.toList_repr, Nat.toList_repr] at hdigits
    have hm := Nat.ofDigitChars_toDigits (b := 10) (n := m) (by decide) (by decide)
    rw [hdigits, Nat.ofDigitChars_toDigits (by decide) (by decide)] at hm
    exact hm.symm
  · rintro rfl
    rfl

/-- The decimal spelling of an integer. -/
def ofInt : Int → Text
  | .ofNat n => ofNat n
  | .negSucc n => .scalar '-' :: ofNat (n + 1)

/-- The texts in order with `gap` between neighbours. -/
def join (gap : Text) : List Text → Text
  | [] => []
  | [t] => t
  | t :: rest => t ++ gap ++ join gap rest

/-- Whether `t` starts with `head`. -/
def startsWith (t head : Text) : Bool :=
  head.isPrefixOf t

/-- The part of a text from offset `start` up to, not including, offset `stop`. -/
def slice (t : Text) (start stop : Nat) : Text :=
  (t.take stop).drop start

/-- The offset that a number stands for: a negative one counts from the end, and not beyond the
start. -/
def resolveOffset (t : Text) (offset : Int) : Nat :=
  if offset < 0 then (offset + t.length).toNat else offset.toNat

/-- The part of a text between two offsets, which may count from the end. -/
def between (t : Text) (start stop : Int) : Text :=
  t.slice (t.resolveOffset start) (t.resolveOffset stop)

theorem between_natCast (t : Text) (start stop : Nat) :
    t.between start stop = t.slice start stop := by
  simp [between, resolveOffset, Int.not_lt.mpr]

/-- The text without the code points of `p` at both its ends. -/
def trim (p : CodePoint → Bool) (t : Text) : Text :=
  ((t.dropWhile p).reverse.dropWhile p).reverse

end Text

end MathMarkup
