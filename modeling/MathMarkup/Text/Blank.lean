import MathMarkup.Text.CodePoint

/-!
# Blank code points

Two sets of blanks are in use. The wide one separates tokens and is trimmed from the ends of a raw
argument. The narrow one lacks the four information separators U+001C to U+001F; runs of it are
squeezed inside a text argument, and it ends the name of a control symbol.
-/

namespace MathMarkup.CodePoint

/-- The ranges of blanks that are no information separator. -/
def spaceRanges : List (Nat × Nat) :=
  [(0x09, 0x0D), (0x20, 0x20), (0x85, 0x85), (0xA0, 0xA0), (0x1680, 0x1680), (0x2000, 0x200A),
   (0x2028, 0x2029), (0x202F, 0x202F), (0x205F, 0x205F), (0x3000, 0x3000)]

/-- The narrow set: white space without the information separators. -/
def isSpace (c : CodePoint) : Bool :=
  c.inRanges spaceRanges

/-- The wide set: white space and the information separators U+001C to U+001F. -/
def isBlank (c : CodePoint) : Bool :=
  c.isSpace || (0x1C ≤ c.toNat && c.toNat ≤ 0x1F)

theorem isBlank_of_isSpace {c : CodePoint} (h : c.isSpace = true) : c.isBlank = true := by
  simp [isBlank, h]

theorem isBlank_eq_false_of_isDigit {c : CodePoint} (h : c.isDigit = true) : c.isBlank = false := by
  have hn := isDigit_toNat h
  simp only [isBlank, isSpace, inRanges, spaceRanges, List.any_cons, List.any_nil, Bool.or_false,
    Bool.or_eq_false_iff, Bool.and_eq_false_iff, decide_eq_false_iff_not]
  omega

theorem isAsciiLetter_eq_false_of_isSpace {c : CodePoint} (h : c.isSpace = true) :
    c.isAsciiLetter = false := by
  rw [← Bool.not_eq_true]
  intro hletter
  have hn := isAsciiLetter_toNat hletter
  simp only [isSpace, inRanges, spaceRanges, List.any_cons, List.any_nil, Bool.or_false,
    Bool.or_eq_true, Bool.and_eq_true, decide_eq_true_eq] at h
  omega

end MathMarkup.CodePoint
