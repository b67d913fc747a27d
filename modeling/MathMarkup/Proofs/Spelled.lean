import MathMarkup.Proofs.Except
import MathMarkup.Value

/-!
# Values that can be spelled

Where the digits of integers are bounded, a value cannot be spelled exactly if it holds an integer
with more digits, as an item, as a key or as a value (`Value.literal_eq_error_iff`). Which of
several such integers comes first does not matter, since the failure tells the bound only.
-/

namespace MathMarkup

/-! ## Integers -/

namespace Number

variable {digits : Option Nat} {e : SpellError}

theorem checkDigits_eq_error_iff {size : Nat} : checkDigits digits size = .error e ↔
    ∃ limit, digits = some limit ∧ e = .tooLong limit ∧ Nat.pow 10 limit ≤ size := by
  cases digits with
  | none => simp [checkDigits]
  | some limit =>
    unfold checkDigits
    dsimp only
    split
    · next h =>
      constructor
      · intro he
        cases he
        exact ⟨limit, rfl, rfl, h⟩
      · rintro ⟨limit', hlimit, rfl, -⟩
        cases hlimit
        rfl
    · next h =>
      refine iff_of_false nofun ?_
      rintro ⟨limit', hlimit, -, hsize⟩
      cases hlimit
      exact h hsize

/-- The failure of an integer does not depend on what is made of it. -/
theorem checkDigits_bind_eq_error_iff {size : Nat} {t : Text} :
    (do checkDigits digits size; return t) = .error e ↔ checkDigits digits size = .error e := by
  rw [bind_eq_error_iff]
  refine or_iff_left ?_
  rintro ⟨u, -, h⟩
  cases h

end Number

namespace Scalar

variable {digits : Option Nat} {e : SpellError}

/-- The greatest size of an integer that is spelled with a scalar. -/
def size : Scalar → Nat
  | .number (.int n) => n.natAbs
  | .other o => o.greatest
  | _ => 0

theorem literal_eq_error_iff {s : Scalar} : s.literal digits = .error e ↔
    ∃ limit, digits = some limit ∧ e = .tooLong limit ∧ Nat.pow 10 limit ≤ s.size := by
  cases s with
  | null => simp [literal, size]
  | text t => simp [literal, size]
  | other o =>
    rw [literal, Number.checkDigits_bind_eq_error_iff, Number.checkDigits_eq_error_iff]
    rfl
  | number n =>
    cases n with
    | bool b => simp [literal, Number.text, size]
    | float x => simp [literal, Number.text, size]
    | int n =>
      rw [literal, Number.text, Number.checkDigits_bind_eq_error_iff,
        Number.checkDigits_eq_error_iff]
      rfl

theorem shown_eq_error_iff {s : Scalar} : s.shown digits = .error e ↔
    ∃ limit, digits = some limit ∧ e = .tooLong limit ∧ Nat.pow 10 limit ≤ s.size := by
  cases s with
  | text t => simp [shown, size]
  | other o =>
    rw [shown, Number.checkDigits_bind_eq_error_iff, Number.checkDigits_eq_error_iff]
    rfl
  | null => rw [shown, literal_eq_error_iff] <;> nofun
  | number n => rw [shown, literal_eq_error_iff] <;> nofun

end Scalar

/-! ## Values -/

namespace Value

mutual

/-- The scalars in a value, the keys among them. -/
def scalars : Value → List Scalar
  | .scalar s => [s]
  | .list items => itemScalars items
  | .mapping entries => entryScalars entries

/-- The scalars in the items of a list. -/
def itemScalars : List Value → List Scalar
  | [] => []
  | v :: rest => v.scalars ++ itemScalars rest

/-- The scalars in the entries of a mapping. -/
def entryScalars : List (Scalar × Value) → List Scalar
  | [] => []
  | (k, v) :: rest => k :: v.scalars ++ entryScalars rest

end

variable {digits : Option Nat} {e : SpellError}

/-- Of several scalars one cannot be spelled. -/
def TooLong (digits : Option Nat) (scalars : List Scalar) (e : SpellError) : Prop :=
  ∃ limit, digits = some limit ∧ e = .tooLong limit ∧ ∃ s ∈ scalars, Nat.pow 10 limit ≤ s.size

/-- Only the bound is told of what cannot be spelled. -/
theorem TooLong.unique {scalars scalars' : List Scalar} {e' : SpellError}
    (h : TooLong digits scalars e) (h' : TooLong digits scalars' e') : e = e' := by
  obtain ⟨limit, rfl, rfl, -⟩ := h
  obtain ⟨limit', hdigits, rfl, -⟩ := h'
  cases hdigits
  rfl

theorem tooLong_append_iff {before after : List Scalar} :
    TooLong digits (before ++ after) e ↔ TooLong digits before e ∨ TooLong digits after e := by
  simp only [TooLong, List.mem_append, or_and_right, exists_or, and_or_left]

theorem not_tooLong_nil : ¬TooLong digits [] e := by
  rintro ⟨limit, -, -, s, hs, -⟩
  cases hs

theorem tooLong_singleton_iff {s : Scalar} :
    TooLong digits [s] e ↔ s.literal digits = .error e := by
  simp [TooLong, Scalar.literal_eq_error_iff]

/-- A spelling put together from two parts fails exactly if one of them does. -/
theorem bind_eq_error_iff_tooLong {α β : Type} {x : Except SpellError α}
    {f : α → Except SpellError β} {before after : List Scalar}
    (hx : ∀ e, x = .error e ↔ TooLong digits before e)
    (hf : ∀ a e, f a = .error e ↔ TooLong digits after e) :
    x >>= f = .error e ↔ TooLong digits (before ++ after) e := by
  rw [bind_eq_error_iff, tooLong_append_iff, ← hx]
  cases x with
  | ok a => simp [hf]
  | error e' =>
    constructor
    · rintro (h | ⟨a, ha, -⟩)
      · exact Or.inl h
      · cases ha
    · rintro (h | hafter)
      · exact Or.inl h
      · -- The first part has failed already, and in the same way.
        rw [hafter.unique ((hx e').mp rfl)]
        exact Or.inl rfl

theorem return_eq_error_iff_tooLong {α : Type} {a : α} :
    (return a : Except SpellError α) = .error e ↔ TooLong digits [] e :=
  iff_of_false nofun not_tooLong_nil

mutual

/-- A value has no spelling exactly if it holds an integer with too many digits. -/
theorem literal_eq_error_iff (v : Value) (e : SpellError) :
    v.literal digits = .error e ↔ TooLong digits v.scalars e := by
  cases v with
  | scalar s => exact tooLong_singleton_iff.symm
  | list items =>
    rw [literal, scalars, ← List.append_nil (itemScalars items)]
    exact bind_eq_error_iff_tooLong (itemLiterals_eq_error_iff items) fun _ _ =>
      return_eq_error_iff_tooLong
  | mapping entries =>
    rw [literal, scalars, ← List.append_nil (entryScalars entries)]
    exact bind_eq_error_iff_tooLong (entryLiterals_eq_error_iff entries) fun _ _ =>
      return_eq_error_iff_tooLong

theorem itemLiterals_eq_error_iff (items : List Value) (e : SpellError) :
    itemLiterals digits items = .error e ↔ TooLong digits (itemScalars items) e := by
  cases items with
  | nil => exact return_eq_error_iff_tooLong
  | cons v rest =>
    rw [itemLiterals, itemScalars]
    refine bind_eq_error_iff_tooLong (literal_eq_error_iff v) fun first e => ?_
    rw [← List.append_nil (itemScalars rest)]
    exact bind_eq_error_iff_tooLong (itemLiterals_eq_error_iff rest) fun _ _ =>
      return_eq_error_iff_tooLong

theorem entryLiterals_eq_error_iff (entries : List (Scalar × Value)) (e : SpellError) :
    entryLiterals digits entries = .error e ↔ TooLong digits (entryScalars entries) e := by
  cases entries with
  | nil => exact return_eq_error_iff_tooLong
  | cons entry rest =>
    obtain ⟨k, v⟩ := entry
    rw [entryLiterals, entryScalars, List.cons_append, ← List.singleton_append]
    refine bind_eq_error_iff_tooLong (fun _ => tooLong_singleton_iff.symm) fun key e => ?_
    refine bind_eq_error_iff_tooLong (literal_eq_error_iff v) fun value e => ?_
    rw [← List.append_nil (entryScalars rest)]
    exact bind_eq_error_iff_tooLong (entryLiterals_eq_error_iff rest) fun _ _ =>
      return_eq_error_iff_tooLong

end

/-- It makes no difference whether the value is quoted. -/
theorem shown_eq_error_iff (v : Value) (e : SpellError) :
    v.shown digits = .error e ↔ TooLong digits v.scalars e := by
  cases v with
  | scalar s =>
    rw [shown, Scalar.shown_eq_error_iff, scalars, tooLong_singleton_iff,
      Scalar.literal_eq_error_iff]
  | list items => exact literal_eq_error_iff _ e
  | mapping entries => exact literal_eq_error_iff _ e

end Value

end MathMarkup
