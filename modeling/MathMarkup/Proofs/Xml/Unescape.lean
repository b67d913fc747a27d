import MathMarkup.Proofs.Xml.Escape

/-!
# Undoing escapes

Escaped text is read back by replacing the five entities, and nothing else, by their characters. A
text with one of the other markup characters, or with an ampersand that starts no entity, is no
escaped text, so that `unescape?` reads exactly what `escape` writes (`unescape?_eq_some_iff`).
-/

namespace MathMarkup.Xml

/-- The entity whose ampersand stands before the text. -/
def entityAt? (t : Text) : Option (Char × String) :=
  entities.find? fun e => Text.startsWith t (Text.ofString e.2 ++ [CodePoint.scalar ';'])

/-- The text that an escaped text stands for. The first argument counts the code points of an entity
already read. -/
def unescape? : (taken : Nat) → Text → Option Text
  | _, [] => some []
  | taken + 1, _ :: rest => unescape? taken rest
  | 0, c :: rest =>
    if c = .scalar '&' then
      (entityAt? rest).bind fun e => (unescape? (e.2.length + 1) rest).map (.scalar e.1 :: ·)
    else if entities.any fun e => c = .scalar e.1 then none
    else (unescape? 0 rest).map (c :: ·)

theorem unescape?_eq_drop (taken : Nat) (t : Text) :
    unescape? taken t = unescape? 0 (t.drop taken) := by
  induction t generalizing taken with
  | nil => simp [unescape?]
  | cons c t ih =>
    cases taken with
    | zero => rfl
    | succ n =>
      rw [unescape?, ih n]
      rfl

/-! ## Entities -/

theorem eq_of_entityAt? {t : Text} {e : Char × String} (h : entityAt? t = some e) :
    e ∈ entities ∧ ∃ rest, t = Text.ofString e.2 ++ .scalar ';' :: rest := by
  unfold entityAt? at h
  have hstarts := List.find?_some h
  obtain ⟨rest, hrest⟩ := List.isPrefixOf_iff_prefix.mp hstarts
  refine ⟨List.mem_of_find?_eq_some h, rest, ?_⟩
  rw [← hrest, List.append_assoc]
  rfl

theorem drop_entity (e : Char × String) (rest : Text) :
    (Text.ofString e.2 ++ .scalar ';' :: rest).drop (e.2.length + 1) = rest := by
  rw [List.drop_append]
  simp

/-- No entity goes on as another one. -/
theorem entityAt?_entity {e : Char × String} (he : e ∈ entities) (rest : Text) :
    entityAt? (Text.ofString e.2 ++ .scalar ';' :: rest) = some e := by
  have apart : ∀ e ∈ entities, ∀ e' ∈ entities,
      Text.ofString e'.2 ++ [CodePoint.scalar ';'] <+: Text.ofString e.2 ++ [CodePoint.scalar ';'] ∨
      Text.ofString e.2 ++ [CodePoint.scalar ';'] <+: Text.ofString e'.2 ++ [CodePoint.scalar ';'] →
      e' = e := by decide
  have hsplit : Text.ofString e.2 ++ .scalar ';' :: rest =
      (Text.ofString e.2 ++ [CodePoint.scalar ';']) ++ rest := by simp
  have hstarts : Text.startsWith (Text.ofString e.2 ++ .scalar ';' :: rest)
      (Text.ofString e.2 ++ [CodePoint.scalar ';']) = true := by
    rw [hsplit]
    exact List.isPrefixOf_iff_prefix.mpr (List.prefix_append _ _)
  cases hfound : entityAt? (Text.ofString e.2 ++ .scalar ';' :: rest) with
  | none => exact absurd hstarts (List.find?_eq_none.mp hfound e he)
  | some e' =>
    obtain ⟨he', tail, htail⟩ := eq_of_entityAt? hfound
    have hprefix : Text.ofString e'.2 ++ [CodePoint.scalar ';'] <+:
        Text.ofString e.2 ++ .scalar ';' :: rest := ⟨tail, by rw [htail]; simp⟩
    rw [hsplit] at hprefix
    rw [apart e he e' he' (List.prefix_or_prefix_of_prefix hprefix (List.prefix_append _ _))]

/-! ## Texts -/

theorem unescape?_escape (s : Text) : unescape? 0 (escape s) = some s := by
  induction s with
  | nil => rfl
  | cons c s ih =>
    rw [escape_cons]
    rcases escape_singleton c with ⟨e, he, rfl, heq⟩ | ⟨hplain, heq⟩
    · rw [heq, List.cons_append, List.append_assoc, List.singleton_append, unescape?, if_pos rfl,
        entityAt?_entity he, Option.bind_some, unescape?_eq_drop, drop_entity, ih]
      rfl
    · have hamp : c ≠ .scalar '&' := hplain ('&', "amp") (by decide)
      have hother : (entities.any fun e => c = .scalar e.1) = false := by
        simpa using fun a b he hc => hplain (a, b) he hc
      rw [heq, List.singleton_append, unescape?, if_neg hamp, hother, ih]
      rfl

theorem drop_eq_escape_of_unescape? {taken : Nat} {t s : Text} (h : unescape? taken t = some s) :
    t.drop taken = escape s := by
  induction t generalizing taken s with
  | nil =>
    rw [unescape?] at h
    cases h
    simp
  | cons c t ih =>
    cases taken with
    | succ n => exact ih h
    | zero =>
      rw [unescape?] at h
      split at h
      · next hamp =>
        obtain ⟨e, he, hrest⟩ := Option.bind_eq_some_iff.mp h
        obtain ⟨u, hu, rfl⟩ := Option.map_eq_some_iff.mp hrest
        obtain ⟨hmem, tail, rfl⟩ := eq_of_entityAt? he
        have htail := ih hu
        rw [drop_entity] at htail
        rw [List.drop_zero, hamp, escape_cons, escape_entity e hmem, htail]
        simp
      · next hamp =>
        split at h
        · cases h
        · next hother =>
          obtain ⟨u, hu, rfl⟩ := Option.map_eq_some_iff.mp h
          have hplain : ∀ e ∈ entities, c ≠ .scalar e.1 := by simpa using hother
          rw [List.drop_zero, escape_cons, escape_plain hplain, ← ih hu]
          rfl

/-- What is read is exactly what escaping writes. -/
theorem unescape?_eq_some_iff {t s : Text} : unescape? 0 t = some s ↔ t = escape s :=
  ⟨drop_eq_escape_of_unescape?, fun h => h ▸ unescape?_escape s⟩

end MathMarkup.Xml
