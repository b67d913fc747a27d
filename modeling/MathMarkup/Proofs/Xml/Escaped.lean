import MathMarkup.Proofs.Xml.Unescape

/-!
# Escaping in one pass

The markup characters are replaced one after the other over the whole text, so that each replacement
goes over the entities that the earlier ones have put there. It finds nothing to replace in them:
escaping is the same as writing each code point by itself (`escape_eq_flatMap`). What comes out has
neither angles nor quotes, and no ampersand but those of entities (`IsEscaped`). The texts of this
form are exactly those that can be read back (`isEscaped_iff`).
-/

namespace MathMarkup.Xml

variable {c : CodePoint} {s t : Text}

/-! ## Code point by code point -/

/-- What a code point is written as: an entity, or itself. -/
def escapeOne : CodePoint → Text
  | .scalar '&' => "&amp;"
  | .scalar '<' => "&lt;"
  | .scalar '>' => "&gt;"
  | .scalar '"' => "&quot;"
  | .scalar '\'' => "&apos;"
  | c => [c]

theorem escapeOne_entity : ∀ e ∈ entities,
    escapeOne (.scalar e.1) = .scalar '&' :: (Text.ofString e.2 ++ [CodePoint.scalar ';']) := by
  decide

theorem escapeOne_plain (h : ∀ e ∈ entities, c ≠ .scalar e.1) : escapeOne c = [c] := by
  unfold escapeOne
  split <;> simp_all [entities]

/-- An entity stays as it is under the replacements that come after its own. -/
theorem escape_eq_escapeOne (c : CodePoint) : escape [c] = escapeOne c := by
  rcases escape_singleton c with ⟨e, he, rfl, heq⟩ | ⟨hplain, heq⟩
  · rw [heq, escapeOne_entity e he]
  · rw [heq, escapeOne_plain hplain]

theorem escape_eq_flatMap (t : Text) : escape t = t.flatMap escapeOne := by
  induction t with
  | nil => rfl
  | cons c t ih => rw [escape_cons, escape_eq_escapeOne, ih, List.flatMap_cons]

/-! ## The form of escaped text -/

/-- A text without angles and quotes in which each ampersand begins an entity. -/
structure IsEscaped (t : Text) : Prop where
  plain : ∀ d ∈ ['<', '>', '"', '\''], CodePoint.scalar d ∉ t
  entity : ∀ before after, t = before ++ CodePoint.scalar '&' :: after →
    ∃ e ∈ entities, Text.ofString e.2 ++ [CodePoint.scalar ';'] <+: after

/-- The characters with entities are the ampersand and those that stay out of escaped text. -/
theorem eq_amp_or_mem : ∀ e ∈ entities, e.1 = '&' ∨ e.1 ∈ ['<', '>', '"', '\''] := by
  decide

theorem exists_entity : ∀ d ∈ ['<', '>', '"', '\''], ∃ e ∈ entities, e.1 = d ∧ e.1 ≠ '&' := by
  simp [entities]

namespace IsEscaped

theorem nil : IsEscaped [] where
  plain := by simp
  entity := by simp

theorem append (hs : IsEscaped s) (ht : IsEscaped t) : IsEscaped (s ++ t) where
  plain d hd hmem := (List.mem_append.mp hmem).elim (hs.plain d hd) (ht.plain d hd)
  entity before after h := by
    -- The ampersand stands in one of the two parts.
    rcases List.append_eq_append_iff.mp h with ⟨u, rfl, hu⟩ | ⟨u, hs', ht'⟩
    · exact ht.entity u after hu
    · cases u with
      | nil => exact ht.entity [] after ht'.symm
      | cons d u =>
        obtain ⟨rfl, rfl⟩ := List.cons.inj ht'
        obtain ⟨e, he, hprefix⟩ := hs.entity before u hs'
        exact ⟨e, he, hprefix.trans (List.prefix_append u t)⟩

theorem of_append (h : IsEscaped (s ++ t)) : IsEscaped t where
  plain d hd hmem := h.plain d hd (List.mem_append_right s hmem)
  entity before after ht := h.entity (s ++ before) after (by rw [ht, List.append_assoc])

/-- A text of this form is the escape of a text. -/
theorem exists_eq_escape (h : IsEscaped t) : ∃ s, t = escape s := by
  -- On the length of the text, of which an entity takes several code points.
  induction hlen : t.length using Nat.strongRecOn generalizing t with
  | _ len ih =>
    subst hlen
    cases t with
    | nil => exact ⟨[], rfl⟩
    | cons c t =>
      by_cases hamp : c = .scalar '&'
      · subst hamp
        obtain ⟨e, he, rest, rfl⟩ := h.entity [] t rfl
        have hrest : IsEscaped rest := of_append (s := .scalar '&' :: _) h
        obtain ⟨s, rfl⟩ := ih rest.length (by simp; omega) hrest rfl
        exact ⟨.scalar e.1 :: s, by rw [escape_cons, escape_entity e he]; rfl⟩
      · have hplain : ∀ e ∈ entities, c ≠ .scalar e.1 := by
          rintro e he rfl
          rcases eq_amp_or_mem e he with heq | hmem
          · exact hamp (by rw [heq])
          · exact h.plain e.1 hmem List.mem_cons_self
        obtain ⟨s, rfl⟩ := ih t.length (by simp) (of_append (s := [c]) h) rfl
        exact ⟨c :: s, by rw [escape_cons, escape_plain hplain]; rfl⟩

end IsEscaped

theorem isEscaped_entity {e : Char × String} (he : e ∈ entities) :
    IsEscaped (.scalar '&' :: (Text.ofString e.2 ++ [CodePoint.scalar ';'])) where
  plain d hd := by
    obtain ⟨e', he', rfl, hne⟩ := exists_entity d hd
    rw [← escape_entity e he]
    exact not_mem_escape he' hne _
  entity before after h := by
    -- The only ampersand is the first code point.
    have hamp : ∀ e ∈ entities,
        CodePoint.scalar '&' ∉ Text.ofString e.2 ++ [CodePoint.scalar ';'] := by
      decide
    cases before with
    | nil =>
      obtain ⟨-, rfl⟩ := List.cons.inj h
      exact ⟨e, he, List.prefix_rfl⟩
    | cons d before =>
      obtain ⟨-, htail⟩ := List.cons.inj h
      exact absurd (by rw [htail]; simp) (hamp e he)

theorem isEscaped_singleton (h : ∀ e ∈ entities, c ≠ .scalar e.1) : IsEscaped [c] where
  plain d hd hmem := by
    obtain ⟨e, he, rfl, -⟩ := exists_entity d hd
    exact h e he (List.mem_singleton.mp hmem).symm
  entity before after heq := by
    have hmem : CodePoint.scalar '&' ∈ [c] := by
      rw [heq]
      simp
    exact absurd (List.mem_singleton.mp hmem).symm (h ('&', "amp") (by decide))

theorem isEscaped_escapeOne (c : CodePoint) : IsEscaped (escapeOne c) := by
  rcases escape_singleton c with ⟨e, he, rfl, -⟩ | ⟨hplain, -⟩
  · rw [escapeOne_entity e he]
    exact isEscaped_entity he
  · rw [escapeOne_plain hplain]
    exact isEscaped_singleton hplain

theorem isEscaped_escape (t : Text) : IsEscaped (escape t) := by
  rw [escape_eq_flatMap]
  induction t with
  | nil => exact .nil
  | cons c t ih => exact (isEscaped_escapeOne c).append ih

/-- The texts of this form are those that can be read back. -/
theorem isEscaped_iff : IsEscaped t ↔ ∃ s, unescape? 0 t = some s := by
  simp only [unescape?_eq_some_iff]
  refine ⟨IsEscaped.exists_eq_escape, ?_⟩
  rintro ⟨s, rfl⟩
  exact isEscaped_escape s

/-- Replacing the markup characters one after the other over the whole text is the same as replacing
them all at once. Escaping therefore goes over concatenation. The escaped text has neither angles
nor quotes, each ampersand in it begins one of the five entities, and reading the entities from the
left gives back the text. -/
theorem escape_simultaneous (t : Text) :
    escape t = t.flatMap escapeOne ∧ (∀ s, escape (t ++ s) = escape t ++ escape s) ∧
      IsEscaped (escape t) ∧ unescape? 0 (escape t) = some t :=
  ⟨escape_eq_flatMap t, escape_append t, isEscaped_escape t, unescape?_escape t⟩

example : unescape? 0 (escape "&lt;'") = some (Text.ofString "&lt;'") := by decide

end MathMarkup.Xml
