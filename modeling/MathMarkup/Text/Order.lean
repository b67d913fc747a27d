import MathMarkup.Text.CodePoint

/-!
# The order of texts

Texts are ordered by their code points, and a text that another one continues comes first.
-/

namespace MathMarkup.Text

/-- Whether one text comes before or at another. -/
def le : Text → Text → Bool
  | [], _ => true
  | _ :: _, [] => false
  | c :: s, d :: t => c.toNat < d.toNat || (c.toNat = d.toNat && le s t)

/-- Of two texts that start alike the rests are compared. -/
theorem le_cons_iff {c d : CodePoint} {s t : Text} :
    le (c :: s) (d :: t) = true ↔ c.toNat < d.toNat ∨ c = d ∧ le s t = true := by
  simp [le, CodePoint.toNat_inj]

theorem le_total (s t : Text) : (le s t || le t s) = true := by
  induction s generalizing t with
  | nil => rfl
  | cons c s ih =>
    cases t with
    | nil => rfl
    | cons d t =>
      have hrest := ih t
      rw [Bool.or_eq_true] at hrest
      rw [Bool.or_eq_true, le_cons_iff, le_cons_iff]
      rcases Nat.lt_trichotomy c.toNat d.toNat with h | h | h
      · exact Or.inl (Or.inl h)
      · rw [CodePoint.toNat_inj] at h
        exact hrest.imp (fun h' => Or.inr ⟨h, h'⟩) fun h' => Or.inr ⟨h.symm, h'⟩
      · exact Or.inr (Or.inl h)

theorem le_trans {s t u : Text} (hst : le s t = true) (htu : le t u = true) : le s u = true := by
  induction s generalizing t u with
  | nil => rfl
  | cons c s ih =>
    cases t with
    | nil => cases hst
    | cons d t =>
      cases u with
      | nil => cases htu
      | cons e u =>
        rw [le_cons_iff] at hst htu ⊢
        rcases hst with hcd | ⟨rfl, hst⟩
        · rcases htu with hde | ⟨rfl, -⟩
          · exact Or.inl (Nat.lt_trans hcd hde)
          · exact Or.inl hcd
        · rcases htu with hce | ⟨rfl, htu⟩
          · exact Or.inl hce
          · exact Or.inr ⟨rfl, ih hst htu⟩

theorem le_antisymm {s t : Text} (hst : le s t = true) (hts : le t s = true) : s = t := by
  induction s generalizing t with
  | nil =>
    cases t with
    | nil => rfl
    | cons d t => cases hts
  | cons c s ih =>
    cases t with
    | nil => cases hst
    | cons d t =>
      rw [le_cons_iff] at hst hts
      rcases hst with hcd | ⟨rfl, hst⟩
      · rcases hts with hdc | ⟨rfl, -⟩
        · exact absurd hcd (Nat.lt_asymm hdc)
        · exact absurd hcd (Nat.lt_irrefl _)
      · rcases hts with hcc | ⟨-, hts⟩
        · exact absurd hcc (Nat.lt_irrefl _)
        · rw [ih hst hts]

example : le (ofString "\\alpha") (ofString "\\beta") = true := by decide
example : le (ofString "b") (ofString "Z") = false := by decide

end MathMarkup.Text
