import Mathlib.Data.List.TakeWhile
import MathMarkup.Xml.Name

/-!
# Names and lines

A name consists of the code points that may stand in it (`Xml.isName`). The test for names looks at
a name as at a line, so that it lets pass a name with one line feed behind it, and no more than that
(`Xml.isNameLine_eq`).
-/

namespace MathMarkup

namespace Text

/-- The text without one line feed at its end. -/
def chomp (t : Text) : Text :=
  if t.getLast? = some (.scalar '\n') then t.dropLast else t

theorem chomp_append_lineFeed (t : Text) : (t ++ [CodePoint.scalar '\n']).chomp = t := by
  rw [chomp, List.getLast?_concat, if_pos rfl, List.dropLast_concat]

theorem chomp_of_not_mem {t : Text} (h : .scalar '\n' ∉ t) : t.chomp = t :=
  if_neg fun hlast => h (List.mem_of_getLast? hlast)

/-- A text has a line feed at its end or is left alone. -/
theorem eq_append_or_chomp_eq (t : Text) :
    t = t.chomp ++ [CodePoint.scalar '\n'] ∨ t.chomp = t := by
  by_cases h : t.getLast? = some (.scalar '\n')
  · obtain ⟨u, rfl⟩ := List.getLast?_eq_some_iff.mp h
    rw [chomp_append_lineFeed]
    exact Or.inl rfl
  · exact Or.inr (if_neg h)

end Text

namespace Xml

/-- Whether the text is a name. -/
def isName : Text → Bool
  | [] => false
  | c :: rest => isNameStart c && rest.all isNamePart

theorem isName_ne_nil {name : Text} (h : isName name = true) : name ≠ [] := by
  rintro rfl
  cases h

theorem isNamePart_of_mem {name : Text} (h : isName name = true) {c : CodePoint} (hc : c ∈ name) :
    isNamePart c = true := by
  cases name with
  | nil => cases hc
  | cons d rest =>
    simp only [isName, Bool.and_eq_true, List.all_eq_true] at h
    rcases List.mem_cons.mp hc with rfl | hc
    · simp [isNamePart, h.1]
    · exact h.2 c hc

/-! ## Names on a line -/

theorem lineFeed_not_mem_of_isName {name : Text} (h : isName name = true) :
    .scalar '\n' ∉ name := by
  intro hmem
  exact absurd (isNamePart_of_mem h hmem) (by decide)

theorem isNameLine_of_isName {name : Text} (h : isName name = true) : isNameLine name = true := by
  cases name with
  | nil => cases h
  | cons c rest =>
    simp only [isName, Bool.and_eq_true, List.all_eq_true] at h
    simp [isNameLine, h.1, List.dropWhile_eq_nil_iff.mpr h.2]

theorem isNameLine_append_lineFeed {name : Text} (h : isName name = true) :
    isNameLine (name ++ [CodePoint.scalar '\n']) = true := by
  cases name with
  | nil => cases h
  | cons c rest =>
    simp only [isName, Bool.and_eq_true, List.all_eq_true] at h
    have hrest : (rest ++ [CodePoint.scalar '\n']).dropWhile isNamePart =
        [CodePoint.scalar '\n'] := by
      rw [List.dropWhile_append_of_pos h.2]
      rfl
    simp [isNameLine, h.1, hrest]

theorem isName_or_of_isNameLine {t : Text} (h : isNameLine t = true) :
    isName t = true ∨ ∃ name, isName name = true ∧ t = name ++ [CodePoint.scalar '\n'] := by
  cases t with
  | nil => cases h
  | cons c rest =>
    simp only [isNameLine, Bool.and_eq_true] at h
    obtain ⟨hstart, hrest⟩ := h
    have hparts : (rest.takeWhile isNamePart).all isNamePart = true := List.all_takeWhile
    split at hrest
    · next hnil =>
      left
      have hall := List.dropWhile_eq_nil_iff.mp hnil
      simpa [isName, hstart] using hall
    · next hlast =>
      right
      refine ⟨c :: rest.takeWhile isNamePart, by simp [isName, hstart], ?_⟩
      rw [List.cons_append, ← hlast, List.takeWhile_append_dropWhile]
    · cases hrest

/-- A name passes as it is and with one line feed behind it. -/
theorem isNameLine_eq (t : Text) : isNameLine t = isName t.chomp := by
  rw [Bool.eq_iff_iff]
  constructor
  · intro h
    rcases isName_or_of_isNameLine h with hname | ⟨name, hname, rfl⟩
    · rw [Text.chomp_of_not_mem (lineFeed_not_mem_of_isName hname)]
      exact hname
    · rw [Text.chomp_append_lineFeed]
      exact hname
  · intro h
    rcases t.eq_append_or_chomp_eq with ht | ht
    · rw [ht]
      exact isNameLine_append_lineFeed h
    · rw [ht] at h
      exact isNameLine_of_isName h

/-- What passes is a name, unless a line feed stands at its end. -/
theorem isName_iff_of_isNameLine {t : Text} (h : isNameLine t = true) :
    isName t = true ↔ t.chomp = t := by
  constructor
  · intro hname
    exact Text.chomp_of_not_mem (lineFeed_not_mem_of_isName hname)
  · intro ht
    rw [← ht, ← isNameLine_eq]
    exact h

end Xml

end MathMarkup
