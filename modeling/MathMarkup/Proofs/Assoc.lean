import MathMarkup.Assoc
import Mathlib.Data.List.Nodup

/-!
# Entries of association lists

What insertion does to the keys and the entries of a list, and what a look-up finds behind many
insertions: of the entries for a key the last one inserted.
-/

namespace MathMarkup.Assoc

variable {α β : Type} [DecidableEq α]

theorem mem_of_get? {key : α} {value : β} {entries : Assoc α β}
    (h : get? key entries = some value) : (key, value) ∈ entries := by
  induction entries with
  | nil => cases h
  | cons e rest ih =>
    unfold get? at h
    split at h
    · next hk =>
      cases h
      simp [← hk]
    · exact List.mem_cons_of_mem _ (ih h)

theorem get?_eq_none_iff {key : α} {entries : Assoc α β} :
    get? key entries = none ↔ key ∉ entries.map Prod.fst := by
  induction entries with
  | nil => simp [get?]
  | cons e rest ih =>
    unfold get?
    split
    · next hk => simp [hk]
    · next hk =>
      have hk' : ¬key = e.1 := fun h => hk h.symm
      simp only [ih, List.map_cons, List.mem_cons, not_or, hk', not_false_eq_true, true_and]

/-- Where no key occurs twice, a look-up finds exactly the entries. -/
theorem get?_eq_some_iff {key : α} {value : β} {entries : Assoc α β}
    (h : (entries.map Prod.fst).Nodup) :
    get? key entries = some value ↔ (key, value) ∈ entries := by
  refine ⟨mem_of_get?, fun hm => ?_⟩
  induction entries with
  | nil => cases hm
  | cons e rest ih =>
    simp only [List.map_cons, List.nodup_cons] at h
    rcases List.mem_cons.mp hm with rfl | hm
    · simp [get?]
    · have hne : ¬e.1 = key := fun he => h.1 (he ▸ List.mem_map.mpr ⟨_, hm, rfl⟩)
      unfold get?
      rw [if_neg hne]
      exact ih h.2 hm

theorem get?_reverse {entries : Assoc α β} (h : (entries.map Prod.fst).Nodup) (key : α) :
    get? key entries.reverse = get? key entries := by
  have hr : (entries.reverse.map Prod.fst).Nodup := by
    rw [List.map_reverse]
    exact List.nodup_reverse.mpr h
  refine Option.ext fun value => ?_
  rw [get?_eq_some_iff hr, get?_eq_some_iff h, List.mem_reverse]

theorem get?_append (key : α) (entries more : Assoc α β) :
    get? key (entries ++ more) = (get? key entries).or (get? key more) := by
  induction entries with
  | nil => simp [get?]
  | cons e rest ih =>
    simp only [List.cons_append, get?]
    split
    · rfl
    · exact ih

/-- Of several lists in a row, the last one that has a key counts. -/
theorem get?_reverse_flatMap {γ : Type} (key : α) (f : γ → Assoc α β) (cs : List γ) :
    get? key (cs.flatMap f).reverse = cs.reverse.findSome? fun c => get? key (f c).reverse := by
  induction cs with
  | nil => rfl
  | cons c rest ih =>
    rw [List.flatMap_cons, List.reverse_append, get?_append, ih, List.reverse_cons,
      List.findSome?_append]
    cases rest.reverse.findSome? fun c => get? key (f c).reverse with
    | none => simp
    | some v => rfl

theorem mem_insert {key : α} {value : β} {entries : Assoc α β} {e : α × β}
    (h : e ∈ insert key value entries) : e ∈ entries ∨ e = (key, value) := by
  induction entries with
  | nil => exact Or.inr (by simpa [insert] using h)
  | cons d rest ih =>
    unfold insert at h
    split at h
    · next hk =>
      rcases List.mem_cons.mp h with rfl | h
      · exact Or.inr (by rw [hk])
      · exact Or.inl (List.mem_cons_of_mem _ h)
    · rcases List.mem_cons.mp h with rfl | h
      · exact Or.inl (by simp)
      · rcases ih h with h | h
        · exact Or.inl (List.mem_cons_of_mem _ h)
        · exact Or.inr h

/-- A key that is bound stays where it is, and a new one comes last. -/
theorem keys_insert (key : α) (value : β) (entries : Assoc α β) :
    (insert key value entries).map Prod.fst =
      if key ∈ entries.map Prod.fst then entries.map Prod.fst
      else entries.map Prod.fst ++ [key] := by
  induction entries with
  | nil => simp [insert]
  | cons e rest ih =>
    unfold insert
    by_cases hk : e.1 = key
    · simp [hk]
    · have hk' : ¬key = e.1 := fun h => hk h.symm
      simp only [hk, if_false, List.map_cons, ih, List.mem_cons, hk', false_or]
      split <;> simp

theorem nodup_keys_insert {key : α} {value : β} {entries : Assoc α β}
    (h : (entries.map Prod.fst).Nodup) : ((insert key value entries).map Prod.fst).Nodup := by
  rw [keys_insert]
  split
  · exact h
  · next hk =>
    rw [List.nodup_append]
    refine ⟨h, by simp, ?_⟩
    intro a ha b hb hab
    rw [List.mem_singleton.mp hb] at hab
    exact hk (hab ▸ ha)

theorem nodup_keys_insertAll {entries : Assoc α β} (h : (entries.map Prod.fst).Nodup)
    (more : Assoc α β) : ((insertAll entries more).map Prod.fst).Nodup := by
  unfold insertAll
  induction more generalizing entries with
  | nil => exact h
  | cons e rest ih => exact ih (nodup_keys_insert h)

/-- Binding a key that is new is inserting it. -/
theorem insertNew_eq (key : α) (value : β) (entries : Assoc α β) :
    insertNew key value entries =
      if key ∈ entries.map Prod.fst then entries else insert key value entries := by
  have happend : ∀ es : Assoc α β, key ∉ es.map Prod.fst → insert key value es =
      es ++ [(key, value)] := by
    intro es hes
    induction es with
    | nil => rfl
    | cons e rest ih =>
      simp only [List.map_cons, List.mem_cons, not_or] at hes
      unfold insert
      rw [if_neg (Ne.symm hes.1), ih hes.2, List.cons_append]
  unfold insertNew
  split
  · next v h =>
    have hk : key ∈ entries.map Prod.fst := List.mem_map.mpr ⟨_, mem_of_get? h, rfl⟩
    rw [if_pos hk]
  · next h =>
    have hk : key ∉ entries.map Prod.fst := get?_eq_none_iff.mp h
    rw [if_neg hk, happend entries hk]

/-- Of the entries inserted for a key the last one counts. -/
theorem get?_insertAll (key : α) (entries more : Assoc α β) :
    get? key (insertAll entries more) = (get? key more.reverse).or (get? key entries) := by
  unfold insertAll
  induction more generalizing entries with
  | nil => simp [get?]
  | cons e rest ih =>
    rw [List.foldl_cons, ih, List.reverse_cons, get?_append, Option.or_assoc]
    congr 1
    by_cases hk : e.1 = key
    · simp [get?, hk]
    · simp [get?, hk, get?_insert_of_ne hk]

theorem insert_of_not_mem {key : α} {entries : Assoc α β} (h : key ∉ entries.map Prod.fst)
    (value : β) : insert key value entries = entries ++ [(key, value)] := by
  induction entries with
  | nil => rfl
  | cons e rest ih =>
    rw [List.map_cons, List.mem_cons, not_or] at h
    rw [insert, if_neg (Ne.symm h.1), ih h.2, List.cons_append]

/-- Entries for new keys are inserted at the end. -/
theorem insertAll_eq_append {entries more : Assoc α β}
    (h : ((entries ++ more).map Prod.fst).Nodup) : insertAll entries more = entries ++ more := by
  unfold insertAll
  induction more generalizing entries with
  | nil => simp
  | cons e rest ih =>
    rw [List.append_cons] at h
    have hnew : e.1 ∉ entries.map Prod.fst := by
      rw [List.map_append, List.map_append] at h
      have hfirst := h.of_append_left
      simpa using List.disjoint_of_nodup_append hfirst
    rw [List.foldl_cons, insert_of_not_mem hnew, ih h, List.append_assoc, List.singleton_append]

/-! ## Without a key -/

/-- The entries for other keys. -/
def without (key : α) (entries : Assoc α β) : Assoc α β :=
  entries.filter fun e => e.1 ≠ key

theorem without_eq_self {key : α} {entries : Assoc α β} (h : get? key entries = none) :
    without key entries = entries := by
  refine List.filter_eq_self.mpr fun e he => ?_
  have hkey : e.1 ≠ key := fun hk =>
    get?_eq_none_iff.mp h (hk ▸ List.mem_map.mpr ⟨e, he, rfl⟩)
  simpa using hkey

theorem get?_without_self (key : α) (entries : Assoc α β) :
    get? key (without key entries) = none := by
  rw [get?_eq_none_iff]
  simp [without]

theorem get?_without_of_ne {key other : α} (h : key ≠ other) (entries : Assoc α β) :
    get? other (without key entries) = get? other entries := by
  induction entries with
  | nil => rfl
  | cons e rest ih =>
    unfold without at ih ⊢
    by_cases hk : e.1 = key
    · have hother : e.1 ≠ other := fun he => h (hk.symm.trans he)
      simpa [hk, get?, h] using ih
    · simp only [List.filter_cons, hk, ne_eq, not_false_eq_true, decide_true, if_true, get?, ih]

theorem without_insert_of_ne {key other : α} (h : key ≠ other) (value : β)
    (entries : Assoc α β) :
    without key (insert other value entries) = insert other value (without key entries) := by
  have hother : ¬other = key := fun he => h he.symm
  induction entries with
  | nil => simp [without, insert, hother]
  | cons e rest ih =>
    unfold without at ih ⊢
    by_cases hk : e.1 = other
    · simp [insert, hk, hother]
    · by_cases hkey : e.1 = key
      · simpa [insert, hk, hkey, h] using ih
      · simpa [insert, hk, hkey] using ih

theorem without_insertNew (key : α) (value : β) (entries : Assoc α β) :
    without key (insertNew key value entries) = without key entries := by
  unfold insertNew without
  split
  · rfl
  · simp

end MathMarkup.Assoc
