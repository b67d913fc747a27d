import MathMarkup.Xml.Document
import MathMarkup.Xml.Escape

/-!
# Reading escaped text

Escaped text holds neither angles nor quotes, and reading it back goes over it without leaving the
element at hand. It is stopped only by a code point that no document may hold.
-/

namespace MathMarkup.Xml

/-! ## Escaping code point by code point -/

@[simp] theorem escape_nil : escape [] = [] := rfl

theorem escape_append (s t : Text) : escape (s ++ t) = escape s ++ escape t := by
  simp only [escape, replaceAll, List.flatMap_append]

theorem escape_cons (c : CodePoint) (t : Text) : escape (c :: t) = escape [c] ++ escape t :=
  escape_append [c] t

/-- The characters that are replaced, with the names of their entities. -/
def entities : List (Char × String) :=
  [('&', "amp"), ('<', "lt"), ('>', "gt"), ('"', "quot"), ('\'', "apos")]

theorem escape_entity : ∀ e ∈ entities,
    escape [.scalar e.1] = .scalar '&' :: (Text.ofString e.2 ++ [CodePoint.scalar ';']) := by
  decide

theorem escape_plain {c : CodePoint} (h : ∀ e ∈ entities, c ≠ .scalar e.1) : escape [c] = [c] := by
  simp only [entities, List.forall_mem_cons] at h
  simp [escape, replaceAll, h.1, h.2.1, h.2.2.1, h.2.2.2.1, h.2.2.2.2.1]

/-- A code point is replaced by an entity or stays as it is. -/
theorem escape_singleton (c : CodePoint) :
    (∃ e ∈ entities, c = .scalar e.1 ∧
      escape [c] = .scalar '&' :: (Text.ofString e.2 ++ [CodePoint.scalar ';'])) ∨
    ((∀ e ∈ entities, c ≠ .scalar e.1) ∧ escape [c] = [c]) := by
  by_cases h : ∃ e ∈ entities, c = .scalar e.1
  · obtain ⟨e, he, rfl⟩ := h
    exact Or.inl ⟨e, he, rfl, escape_entity e he⟩
  · have hplain : ∀ e ∈ entities, c ≠ .scalar e.1 := fun e he hc => h ⟨e, he, hc⟩
    exact Or.inr ⟨hplain, escape_plain hplain⟩

/-- Of the replaced characters only the ampersand occurs in escaped text. -/
theorem not_mem_escape {e : Char × String} (he : e ∈ entities) (hamp : e.1 ≠ '&') (t : Text) :
    .scalar e.1 ∉ escape t := by
  induction t with
  | nil => simp
  | cons c t ih =>
    rw [escape_cons]
    intro hmem
    rcases List.mem_append.mp hmem with hmem | hmem
    · rcases escape_singleton c with ⟨e', he', rfl, heq⟩ | ⟨hplain, heq⟩
      · have all : ∀ e ∈ entities, e.1 ≠ '&' → ∀ e' ∈ entities,
            CodePoint.scalar e.1 ∉
              .scalar '&' :: (Text.ofString e'.2 ++ [CodePoint.scalar ';']) := by
          decide
        rw [heq] at hmem
        exact all e he hamp e' he' hmem
      · rw [heq] at hmem
        exact hplain e he (List.mem_singleton.mp hmem).symm
    · exact ih hmem

/-! ## References -/

theorem takeWhile_ne_append {c : CodePoint} {t rest : Text} (h : c ∉ t) :
    (t ++ c :: rest).takeWhile (· ≠ c) = t := by
  rw [List.takeWhile_append_of_pos]
  · simp
  · intro d hd
    simpa using fun hdc : d = c => h (hdc ▸ hd)

/-- The reference that an entity is written as stands for its character. -/
theorem readReference?_entity {e : Char × String} (he : e ∈ entities) (rest : Text) :
    readReference? (Text.ofString e.2 ++ .scalar ';' :: rest) =
      some (.scalar e.1, e.2.length + 1) := by
  have hbody : (Text.ofString e.2 ++ .scalar ';' :: rest).takeWhile (· ≠ .scalar ';') =
      Text.ofString e.2 := by
    have all : ∀ e ∈ entities, CodePoint.scalar ';' ∉ Text.ofString e.2 := by decide
    exact takeWhile_ne_append (all e he)
  have all : ∀ e ∈ entities, referenced? (Text.ofString e.2) = some (.scalar e.1) := by
    decide
  unfold readReference?
  simp only [hbody, all e he]
  rw [if_pos (by simp)]
  simp

/-! ## Text inside an element -/

/-- What may follow a text inside an element: perhaps more text, and then markup. -/
def InMarkup (rest : Text) : Prop :=
  ∃ t more, rest = escape t ++ CodePoint.scalar '<' :: more

theorem inMarkup_angle (more : Text) : InMarkup (.scalar '<' :: more) :=
  ⟨[], more, rfl⟩

theorem InMarkup.escape_append {rest : Text} (h : InMarkup rest) (t : Text) :
    InMarkup (escape t ++ rest) := by
  obtain ⟨u, more, rfl⟩ := h
  refine ⟨t ++ u, more, ?_⟩
  rw [Xml.escape_append, List.append_assoc]

/-- The end of a section of data never occurs, since its angle would be escaped. -/
theorem InMarkup.startsWith_eq_false {rest : Text} (h : InMarkup rest) :
    Text.startsWith rest "]>" = false := by
  obtain ⟨t, more, rfl⟩ := h
  cases hs : Text.startsWith (escape t ++ .scalar '<' :: more) "]>" with
  | false => rfl
  | true =>
    exfalso
    obtain ⟨tail, htail⟩ := List.isPrefixOf_iff_prefix.mp hs
    have hangle : CodePoint.scalar '>' ∉ escape t :=
      not_mem_escape (e := ('>', "gt")) (by simp [entities]) (by simp) t
    -- The text before the angle is too short to hold both characters.
    cases he : escape t with
    | nil =>
      rw [he] at htail
      have hhead := congrArg List.head? htail
      cases hhead
    | cons c u =>
      rw [he] at htail hangle
      cases u with
      | nil =>
        have hsecond := congrArg (fun l => (l.drop 1).head?) htail
        cases hsecond
      | cons d u =>
        have hsecond := congrArg (fun l => (l.drop 1).head?) htail
        have hd : CodePoint.scalar '>' = d := Option.some.inj hsecond
        exact hangle (by simp [hd])

namespace Builder

variable {b : Builder}

theorem stopsAt_eq_false (hb : b.opened ≠ []) (c : CodePoint) (rest : Text) :
    b.stopsAt c rest = false := by
  cases ho : b.opened with
  | nil => exact absurd ho hb
  | cons o outer => simp [stopsAt, ho]

/-- One piece is read and the rest goes on behind it. -/
theorem read?_piece (hb : b.opened ≠ []) {c : CodePoint} {rest : Text} {piece : Piece}
    {length : Nat} (hp : pieceAt? c rest = some (piece, length)) :
    read? 0 b (c :: rest) = (b.step? piece).bind fun b' => read? 0 b' (rest.drop length) := by
  rw [read?]
  simp only [stopsAt_eq_false hb, Bool.false_eq_true, if_false, hp]
  cases b.step? piece with
  | none => rfl
  | some b' => exact read?_eq_read?_drop length b' rest

/-- Escaped text is passed over, unless it holds what no document may hold. -/
theorem read?_escape (hb : b.opened ≠ []) {rest : Text} (hr : InMarkup rest) (t : Text) :
    read? 0 b (escape t ++ rest) = if t.all isChar then read? 0 b rest else none := by
  have hopen : b.opened.isEmpty = false := by
    cases ho : b.opened with
    | nil => exact absurd ho hb
    | cons o outer => rfl
  induction t with
  | nil => rfl
  | cons c t ih =>
    rw [escape_cons, List.append_assoc]
    rcases escape_singleton c with ⟨e, he, rfl, heq⟩ | ⟨hplain, heq⟩
    · rw [heq]
      have hp : pieceAt? (.scalar '&') (Text.ofString e.2 ++ .scalar ';' :: (escape t ++ rest)) =
          some (.reference (.scalar e.1), e.2.length + 1) := by
        simp [pieceAt?, readReference?_entity he]
      have hdrop : (Text.ofString e.2 ++ .scalar ';' :: (escape t ++ rest)).drop (e.2.length + 1) =
          escape t ++ rest := by
        rw [List.drop_append]
        simp
      have hchar : ∀ e ∈ entities, isChar (.scalar e.1) = true := by decide
      have hstep : b.step? (.reference (.scalar e.1)) = some b := by
        simp [step?, hopen]
      rw [List.cons_append, List.append_assoc, List.singleton_append, read?_piece hb hp, hstep,
        Option.bind_some, hdrop, ih, List.all_cons, hchar e he, Bool.true_and]
    · rw [heq, List.singleton_append]
      have hamp : c ≠ .scalar '&' := hplain ('&', "amp") (by decide)
      have hangle : c ≠ .scalar '<' := hplain ('<', "lt") (by decide)
      have hend := (hr.escape_append t).startsWith_eq_false
      by_cases hc : isChar c = true
      · have hp : pieceAt? c (escape t ++ rest) = some (.char c, 0) := by
          simp [pieceAt?, hamp, hangle, hc, hend]
        have hstep : b.step? (.char c) = some b := by
          simp [step?, hopen]
        rw [read?_piece hb hp, hstep, Option.bind_some, List.drop_zero, ih, List.all_cons, hc,
          Bool.true_and]
      · have hp : pieceAt? c (escape t ++ rest) = none := by
          simp [pieceAt?, hamp, hangle, hc]
        rw [read?]
        simp [stopsAt_eq_false hb, hp, hc]

end Builder

end MathMarkup.Xml
