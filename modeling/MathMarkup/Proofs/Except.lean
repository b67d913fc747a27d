/-!
# Results that are there

A computation that may fail has a result exactly if each of its steps has one. A list is gone
through up to the first item that fails.
-/

namespace MathMarkup

variable {ε ε' α β : Type} {x : Except ε α}

theorem bind_eq_ok_iff {f : α → Except ε β} {b : β} :
    x >>= f = .ok b ↔ ∃ a, x = .ok a ∧ f a = .ok b := by
  cases x with
  | error e => exact ⟨nofun, fun ⟨_, h, _⟩ => nomatch h⟩
  | ok a =>
    refine ⟨fun h => ⟨a, rfl, h⟩, ?_⟩
    rintro ⟨_, heq, h⟩
    cases heq
    exact h

theorem map_eq_ok_iff {f : α → β} {b : β} : x.map f = .ok b ↔ ∃ a, x = .ok a ∧ f a = b := by
  cases x <;> simp [Except.map]

theorem bind_eq_error_iff {f : α → Except ε β} {e : ε} :
    x >>= f = .error e ↔ x = .error e ∨ ∃ a, x = .ok a ∧ f a = .error e := by
  cases x with
  | error e' =>
    refine ⟨fun h => Or.inl (congrArg _ (Except.error.inj h)), ?_⟩
    rintro (h | ⟨_, h, _⟩)
    · exact congrArg _ (Except.error.inj h)
    · cases h
  | ok a =>
    refine ⟨fun h => Or.inr ⟨a, rfl, h⟩, ?_⟩
    rintro (h | ⟨_, heq, h⟩)
    · cases h
    · cases heq
      exact h

theorem exists_of_isSome_toOption (h : x.toOption.isSome = true) : ∃ a, x = .ok a := by
  cases x with
  | error e => cases h
  | ok a => exact ⟨a, rfl⟩

theorem mapError_eq_ok_iff {f : ε → ε'} {a : α} : x.mapError f = .ok a ↔ x = .ok a := by
  cases x with
  | error e => exact ⟨nofun, nofun⟩
  | ok b =>
    constructor
    · intro h
      cases h
      rfl
    · intro h
      cases h
      rfl

theorem mapError_eq_error_iff {f : ε → ε'} {e : ε'} :
    x.mapError f = .error e ↔ ∃ e', x = .error e' ∧ f e' = e := by
  cases x with
  | ok a => exact iff_of_false nofun fun ⟨_, h, _⟩ => nomatch h
  | error e' =>
    constructor
    · intro h
      cases h
      exact ⟨e', rfl, rfl⟩
    · rintro ⟨_, h, rfl⟩
      cases h
      rfl

/-! ## Lists -/

/-- Two lists put together are empty exactly if both are there and empty. -/
theorem append_eq_ok_nil_iff {x y : Except ε (List α)} :
    (do let a ← x; let b ← y; return a ++ b) = .ok [] ↔ x = .ok [] ∧ y = .ok [] := by
  simp only [bind_eq_ok_iff]
  constructor
  · rintro ⟨a, hx, b, hy, h⟩
    obtain ⟨rfl, rfl⟩ := List.append_eq_nil_iff.mp (Except.ok.inj h)
    exact ⟨hx, hy⟩
  · rintro ⟨hx, hy⟩
    exact ⟨[], hx, [], hy, rfl⟩

section List

variable {f : α → Except ε β} {l : List α}

theorem mapM_eq_ok_map {g : α → β} (h : ∀ a ∈ l, f a = .ok (g a)) : l.mapM f = .ok (l.map g) := by
  induction l with
  | nil => rfl
  | cons a l ih =>
    rw [List.mapM_cons, h a List.mem_cons_self, ih fun b hb => h b (List.mem_cons_of_mem a hb)]
    rfl

theorem mapM_eq_ok_nil_iff : l.mapM f = .ok [] ↔ l = [] := by
  cases l with
  | nil => exact iff_of_true rfl rfl
  | cons a l =>
    refine iff_of_false ?_ (List.cons_ne_nil a l)
    rw [List.mapM_cons, bind_eq_ok_iff]
    rintro ⟨b, -, h⟩
    obtain ⟨bs, -, h⟩ := bind_eq_ok_iff.mp h
    cases h

theorem exists_of_mapM_eq_ok {bs : List β} (h : l.mapM f = .ok bs) : ∀ a ∈ l, ∃ b, f a = .ok b := by
  induction l generalizing bs with
  | nil => nofun
  | cons a l ih =>
    rw [List.mapM_cons] at h
    obtain ⟨b, ha, h⟩ := bind_eq_ok_iff.mp h
    obtain ⟨bs, hl, -⟩ := bind_eq_ok_iff.mp h
    exact List.forall_mem_cons.mpr ⟨⟨b, ha⟩, ih hl⟩

theorem exists_of_mapM_eq_error {e : ε} (h : l.mapM f = .error e) : ∃ a ∈ l, f a = .error e := by
  induction l with
  | nil => cases h
  | cons a l ih =>
    rw [List.mapM_cons] at h
    rcases bind_eq_error_iff.mp h with ha | ⟨b, -, h⟩
    · exact ⟨a, List.mem_cons_self, ha⟩
    · rcases bind_eq_error_iff.mp h with hl | ⟨bs, -, h⟩
      · obtain ⟨c, hc, hfc⟩ := ih hl
        exact ⟨c, List.mem_cons_of_mem a hc, hfc⟩
      · cases h

/-- Going through a list fails exactly if some item fails. -/
theorem exists_mapM_eq_error_iff :
    (∃ e, l.mapM f = .error e) ↔ ∃ a ∈ l, ∃ e, f a = .error e := by
  constructor
  · rintro ⟨e, h⟩
    obtain ⟨a, ha, hfa⟩ := exists_of_mapM_eq_error h
    exact ⟨a, ha, e, hfa⟩
  · rintro ⟨a, ha, e, hfa⟩
    cases hl : l.mapM f with
    | error e' => exact ⟨e', rfl⟩
    | ok bs =>
      obtain ⟨b, hb⟩ := exists_of_mapM_eq_ok hl a ha
      rw [hfa] at hb
      cases hb

/-- If all items that fail give the same error, going through a list gives this error exactly if
some item does. -/
theorem mapM_eq_error_iff (h : ∀ a a' e e', f a = .error e → f a' = .error e' → e = e') {e : ε} :
    l.mapM f = .error e ↔ ∃ a ∈ l, f a = .error e := by
  refine ⟨exists_of_mapM_eq_error, ?_⟩
  rintro ⟨a, ha, hfa⟩
  obtain ⟨e', hl⟩ := exists_mapM_eq_error_iff.mpr ⟨a, ha, e, hfa⟩
  obtain ⟨a', -, hfa'⟩ := exists_of_mapM_eq_error hl
  rw [hl, h a a' e e' hfa hfa']

/-- The same of a run through a list, if whether an item fails does not depend on what it is applied
to. -/
theorem foldlM_eq_error_iff {step : β → α → Except ε β} {Fails : α → ε → Prop}
    (hstep : ∀ b a e, step b a = .error e ↔ Fails a e)
    (h : ∀ a a' e e', Fails a e → Fails a' e' → e = e') {b : β} {e : ε} :
    l.foldlM step b = .error e ↔ ∃ a ∈ l, Fails a e := by
  induction l generalizing b with
  | nil => exact iff_of_false nofun fun ⟨_, ha, _⟩ => nomatch ha
  | cons a l ih =>
    rw [List.foldlM_cons, bind_eq_error_iff, hstep]
    simp only [List.mem_cons, or_and_right, exists_or, exists_eq_left]
    constructor
    · rintro (ha | ⟨b', -, hl⟩)
      · exact Or.inl ha
      · exact Or.inr (ih.mp hl)
    · rintro (ha | hl)
      · exact Or.inl ha
      · cases hb : step b a with
        | ok b' => exact Or.inr ⟨b', rfl, ih.mpr hl⟩
        | error e' =>
          obtain ⟨a', -, ha'⟩ := hl
          have ha := (hstep b a e').mp hb
          exact Or.inl (h a' a e e' ha' ha ▸ ha)

/-- Going through a list succeeds exactly if no item fails. -/
theorem exists_mapM_eq_ok_iff : (∃ bs, l.mapM f = .ok bs) ↔ ∀ a ∈ l, ∃ b, f a = .ok b := by
  constructor
  · rintro ⟨bs, h⟩
    exact exists_of_mapM_eq_ok h
  · intro h
    cases hl : l.mapM f with
    | ok bs => exact ⟨bs, rfl⟩
    | error e =>
      obtain ⟨a, ha, hfa⟩ := exists_of_mapM_eq_error hl
      obtain ⟨b, hb⟩ := h a ha
      rw [hfa] at hb
      cases hb

end List

end MathMarkup
