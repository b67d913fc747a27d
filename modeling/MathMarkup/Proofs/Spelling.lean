import MathMarkup.Proofs.Except
import MathMarkup.Proofs.Material
import MathMarkup.Value

/-!
# What spellings are made of

A value is spelled with plain characters and printable code points only (`Value.over_literal`): a
text is quoted, which leaves what is printable as it is, and numbers are spelled in ASCII.
-/

namespace MathMarkup

variable {p : CodePoint → Prop}

/-! ## Digits -/

theorem isPlain_digitChar (n : Nat) : Text.IsPlain n.digitChar := by
  have small : ∀ m ∈ List.range 16, Text.IsPlain m.digitChar := by decide
  by_cases h : n < 16
  · exact small n (List.mem_range.mpr h)
  · rw [Nat.digitChar_eq_star.mpr (by omega)]
    decide

theorem isPlain_of_mem_toDigits {b : Nat} (hb : 1 < b) (n : Nat) :
    ∀ c ∈ Nat.toDigits b n, Text.IsPlain c := by
  induction n using Nat.strongRecOn with
  | _ n ih =>
    intro c hc
    by_cases hn : n < b
    · rw [Nat.toDigits_of_lt_base hn, List.mem_singleton] at hc
      rw [hc]
      exact isPlain_digitChar n
    · have hless : n / b < n := Nat.div_lt_self (by omega) hb
      rw [Nat.toDigits_of_base_le hb (by omega), List.mem_append, List.mem_singleton] at hc
      rcases hc with hc | rfl
      · exact ih _ hless c hc
      · exact isPlain_digitChar _

namespace Text

theorem over_scalars (hp : ∀ c, IsPlain c → p (.scalar c)) {cs : List Char}
    (h : ∀ c ∈ cs, IsPlain c) : Over p (cs.map .scalar) := by
  intro c hc
  obtain ⟨d, hd, rfl⟩ := List.mem_map.mp hc
  exact hp d (h d hd)

/-! ## Quoted texts -/

theorem over_hex (hp : ∀ c, IsPlain c → p (.scalar c)) (width n : Nat) : Over p (hex width n) := by
  unfold hex
  refine Over.append (fun c hc => ?_) (over_scalars hp (isPlain_of_mem_toDigits (by decide) n))
  rw [List.eq_of_mem_replicate hc]
  exact hp '0' (by decide)

theorem over_numberedEscape (hp : ∀ c, IsPlain c → p (.scalar c)) (n : Nat) :
    Over p (numberedEscape n) := by
  unfold numberedEscape
  split
  · exact (over_ofString hp (by decide)).append (over_hex hp 2 n)
  · split
    · exact (over_ofString hp (by decide)).append (over_hex hp 4 n)
    · exact (over_ofString hp (by decide)).append (over_hex hp 8 n)

/-- Between quotes stand plain characters and what is printable. -/
theorem over_quoted (hp : ∀ c, IsPlain c → p (.scalar c))
    (hprintable : ∀ c, c.isPrintable = true → p c) (t : Text) : Over p t.quoted := by
  have hquote : IsPlain t.quoteOf := by
    unfold quoteOf
    split <;> decide
  have hpoint : ∀ c, Over p (quotedPoint t.quoteOf c) := by
    intro c
    unfold quotedPoint
    split
    · next h =>
      have hc : p c := by
        rcases h with rfl | rfl
        · exact hp _ hquote
        · exact hp '\\' (by decide)
      exact List.forall_mem_cons.mpr ⟨hp '\\' (by decide), List.forall_mem_singleton.mpr hc⟩
    · split
      · exact over_ofString hp (by decide)
      · split
        · exact over_ofString hp (by decide)
        · split
          · exact over_ofString hp (by decide)
          · split
            · next h => exact List.forall_mem_singleton.mpr (hprintable c h)
            · exact over_numberedEscape hp _
  have hinside : Over p (t.flatMap (quotedPoint t.quoteOf)) :=
    Over.flatten (List.forall_mem_map.mpr fun c _ => hpoint c)
  exact List.forall_mem_cons.mpr ⟨hp _ hquote,
    hinside.append (List.forall_mem_singleton.mpr (hp _ hquote))⟩

end Text

/-! ## Numbers -/

namespace Binary64

theorem isPlain_of_mem_significantDigits (n : Nat) :
    ∀ c ∈ significantDigits n, Text.IsPlain c := by
  intro c hc
  have hmem := (List.dropWhile_sublist _).mem (List.mem_reverse.mp hc)
  exact isPlain_of_mem_toDigits (by decide) n c (List.mem_reverse.mp hmem)

theorem isPlain_of_mem_positional {digits : List Char} (h : ∀ c ∈ digits, Text.IsPlain c)
    (point : Int) : ∀ c ∈ positional digits point, Text.IsPlain c := by
  intro c hc
  have hzero : Text.IsPlain '0' ∧ Text.IsPlain '.' := by decide
  unfold positional at hc
  split at hc
  · simp only [List.mem_cons, List.mem_append, List.mem_replicate] at hc
    rcases hc with (rfl | rfl | ⟨_, rfl⟩) | hc
    · exact hzero.1
    · exact hzero.2
    · exact hzero.1
    · exact h c hc
  · simp only [List.mem_cons, List.mem_append, List.mem_replicate] at hc
    rcases hc with (hc | ⟨_, rfl⟩) | rfl | hc
    · exact h c (List.mem_of_mem_take hc)
    · exact hzero.1
    · exact hzero.2
    · split at hc
      · rw [List.mem_singleton.mp hc]
        exact hzero.1
      · exact h c (List.mem_of_mem_drop hc)

theorem isPlain_of_mem_scientific {digits : List Char} (h : ∀ c ∈ digits, Text.IsPlain c)
    (exponent : Int) : ∀ c ∈ scientific digits exponent, Text.IsPlain c := by
  intro c hc
  have hmark : Text.IsPlain 'e' ∧ Text.IsPlain '-' ∧ Text.IsPlain '+' ∧ Text.IsPlain '0' ∧
      Text.IsPlain '.' := by decide
  unfold scientific at hc
  simp only [List.mem_cons, List.mem_append, List.mem_replicate] at hc
  rcases hc with (hc | rfl | rfl | ⟨_, rfl⟩) | hc
  · split at hc
    · simp only [List.mem_cons] at hc h
      rcases hc with rfl | rfl | hc
      · exact h _ (Or.inl rfl)
      · exact hmark.2.2.2.2
      · exact h c (Or.inr hc)
    · exact h c hc
  · exact hmark.1
  · split
    · exact hmark.2.1
    · exact hmark.2.2.1
  · exact hmark.2.2.2.1
  · exact isPlain_of_mem_toDigits (by decide) _ c hc

theorem isPlain_of_mem_magnitudeChars (m : Nat) (e : Int) :
    ∀ c ∈ magnitudeChars m e, Text.IsPlain c := by
  have hlaid : ∀ (n : Nat) (point : Int), ∀ c ∈ (if -4 < point ∧ point ≤ 16 then
      positional (significantDigits n) point else scientific (significantDigits n) (point - 1)),
      Text.IsPlain c := by
    intro n point
    split
    · exact isPlain_of_mem_positional (isPlain_of_mem_significantDigits n) point
    · exact isPlain_of_mem_scientific (isPlain_of_mem_significantDigits n) (point - 1)
  have hzero : Text.IsPlain '0' ∧ Text.IsPlain '.' := by decide
  unfold magnitudeChars
  split
  · simp [hzero]
  · exact hlaid _ _

theorem over_text (hp : ∀ c, Text.IsPlain c → p (.scalar c)) (x : Binary64) : x.text.Over p := by
  have hbody : ∀ m e, Text.Over p ((magnitudeChars m e).map CodePoint.scalar) := fun m e =>
    Text.over_scalars hp (isPlain_of_mem_magnitudeChars m e)
  cases x with
  | finite negative m e =>
    cases negative
    · exact hbody m e
    · exact List.forall_mem_cons.mpr ⟨hp '-' (by decide), hbody m e⟩
  | infinite negative => cases negative <;> exact Text.over_ofString hp (by decide)
  | nan => exact Text.over_ofString hp (by decide)

end Binary64

theorem Number.over_fullText (hp : ∀ c, Text.IsPlain c → p (.scalar c)) (x : Number) :
    x.fullText.Over p := by
  cases x with
  | bool b => cases b <;> exact Text.over_ofString hp (by decide)
  | int n => exact Text.over_ofInt hp n
  | float x => exact x.over_text hp

/-- What a number is spelled as is its full spelling. -/
theorem Number.eq_fullText {digits : Option Nat} {x : Number} {t : Text}
    (h : x.text digits = .ok t) : t = x.fullText := by
  unfold text at h
  split at h
  · obtain ⟨_, -, h⟩ := bind_eq_ok_iff.mp h
    cases h
    rfl
  · cases h
    rfl

/-! ## Values -/

section Value

variable {digits : Option Nat}

theorem Scalar.over_literal (hp : ∀ c, Text.IsPlain c → p (.scalar c))
    (hprintable : ∀ c, c.isPrintable = true → p c) {s : Scalar} {t : Text}
    (h : s.literal digits = .ok t) : t.Over p := by
  cases s with
  | null =>
    cases h
    exact Text.over_ofString hp (by decide)
  | number n =>
    rw [Number.eq_fullText h]
    exact n.over_fullText hp
  | text u =>
    cases h
    exact u.over_quoted hp hprintable
  | other o =>
    obtain ⟨_, -, h⟩ := bind_eq_ok_iff.mp h
    cases h
    exact fun c hc => hprintable c (o.printable c hc)

namespace Value

mutual

/-- The spelling of a value that quotes texts is made of plain characters and what is printable. -/
theorem over_literal (hp : ∀ c, Text.IsPlain c → p (.scalar c))
    (hprintable : ∀ c, c.isPrintable = true → p c) {v : Value} {t : Text}
    (h : v.literal digits = .ok t) : t.Over p := by
  cases v with
  | scalar s => exact Scalar.over_literal hp hprintable h
  | list items =>
    rw [literal] at h
    obtain ⟨ts, hitems, h⟩ := bind_eq_ok_iff.mp h
    cases h
    have hjoined := Text.Over.join (Text.over_ofString hp (s := ", ") (by decide))
      (over_itemLiterals hp hprintable hitems)
    exact ((Text.over_ofString hp (by decide)).append hjoined).append
      (Text.over_ofString hp (by decide))
  | mapping entries =>
    rw [literal] at h
    obtain ⟨ts, hentries, h⟩ := bind_eq_ok_iff.mp h
    cases h
    have hjoined := Text.Over.join (Text.over_ofString hp (s := ", ") (by decide))
      (over_entryLiterals hp hprintable hentries)
    exact ((Text.over_ofString hp (by decide)).append hjoined).append
      (Text.over_ofString hp (by decide))

theorem over_itemLiterals (hp : ∀ c, Text.IsPlain c → p (.scalar c))
    (hprintable : ∀ c, c.isPrintable = true → p c) {items : List Value} {ts : List Text}
    (h : itemLiterals digits items = .ok ts) : ∀ t ∈ ts, t.Over p := by
  cases items with
  | nil =>
    cases h
    nofun
  | cons v rest =>
    rw [itemLiterals] at h
    obtain ⟨first, hfirst, h⟩ := bind_eq_ok_iff.mp h
    obtain ⟨more, hmore, h⟩ := bind_eq_ok_iff.mp h
    cases h
    exact List.forall_mem_cons.mpr
      ⟨over_literal hp hprintable hfirst, over_itemLiterals hp hprintable hmore⟩

theorem over_entryLiterals (hp : ∀ c, Text.IsPlain c → p (.scalar c))
    (hprintable : ∀ c, c.isPrintable = true → p c) {entries : List (Scalar × Value)}
    {ts : List Text} (h : entryLiterals digits entries = .ok ts) : ∀ t ∈ ts, t.Over p := by
  cases entries with
  | nil =>
    cases h
    nofun
  | cons entry rest =>
    obtain ⟨k, v⟩ := entry
    rw [entryLiterals] at h
    obtain ⟨key, hkey, h⟩ := bind_eq_ok_iff.mp h
    obtain ⟨value, hvalue, h⟩ := bind_eq_ok_iff.mp h
    obtain ⟨more, hmore, h⟩ := bind_eq_ok_iff.mp h
    cases h
    have hentry := ((Scalar.over_literal hp hprintable hkey).append
      (Text.over_ofString hp (s := ": ") (by decide))).append (over_literal hp hprintable hvalue)
    exact List.forall_mem_cons.mpr ⟨hentry, over_entryLiterals hp hprintable hmore⟩

end

end Value

end Value

end MathMarkup
