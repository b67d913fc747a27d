import Mathlib.Data.List.Perm.Subperm
import Mathlib.Data.Nat.Init
import MathMarkup.Environment

/-!
# Columns and brace arguments

The columns of an array are meant to be the letters of its specification that stand outside of all
braces (`Environment.outside`). The specification loses its brace arguments in one pass from the
left, in which an argument goes only if it holds no other one. What is left of an argument that
holds another one is read as if it stood outside: the columns of a specification with balanced
braces are read right exactly if no such argument holds a column letter beside the inner one
(`Environment.columnAlignment_of_balanced`).
-/

namespace MathMarkup.Environment

/-! ## Specifications -/

/-- The braces of a text are balanced. -/
inductive Balanced : Text → Prop where
  | nil : Balanced []
  | plain {c : CodePoint} {t : Text} : c ≠ .scalar '\x7b' → c ≠ .scalar '\x7d' → Balanced t →
      Balanced (c :: t)
  | argument {u v : Text} : Balanced u → Balanced v →
      Balanced (.scalar '\x7b' :: (u ++ .scalar '\x7d' :: v))

/-- The code points outside of all braces. The first argument counts the braces that are open. -/
def outside : (depth : Nat) → Text → Text
  | _, [] => []
  | depth, c :: rest =>
    if c = .scalar '\x7b' then outside (depth + 1) rest
    else if c = .scalar '\x7d' then outside (depth - 1) rest
    else if depth = 0 then c :: outside depth rest
    else outside depth rest

/-- The columns for which the letters of a text stand. -/
def columns (t : Text) : List Text :=
  t.filterMap columnLetter?

/-- Columns as a table shows them: one centred column if there is none. -/
def aligned : List Text → Text
  | [] => "center"
  | columns => Text.join " " columns

/-- An argument that holds another one holds a column letter beside it. -/
def LeaksLetter (spec : Text) : Prop :=
  ∃ before u behind, spec = before ++ .scalar '\x7b' :: (u ++ .scalar '\x7d' :: behind) ∧
    Balanced u ∧ .scalar '\x7b' ∈ u ∧ columns (outside 0 u) ≠ []

theorem columns_append (t u : Text) : columns (t ++ u) = columns t ++ columns u :=
  List.filterMap_append

theorem columns_cons_of_none {c : CodePoint} (h : columnLetter? c = none) (t : Text) :
    columns (c :: t) = columns t :=
  List.filterMap_cons_none h

theorem LeaksLetter.of_infix {t spec : Text} (h : LeaksLetter t) (hwithin : t <:+: spec) :
    LeaksLetter spec := by
  obtain ⟨before, u, behind, rfl, hu, hopen, hletter⟩ := h
  obtain ⟨start, rest, rfl⟩ := hwithin
  exact ⟨start ++ before, u, behind ++ rest, by simp, hu, hopen, hletter⟩

namespace Balanced

variable {u v : Text}

/-- A text without braces. -/
theorem of_plain (h : ∀ c ∈ u, c ≠ .scalar '\x7b' ∧ c ≠ .scalar '\x7d') : Balanced u := by
  induction u with
  | nil => exact .nil
  | cons c u ih =>
    obtain ⟨hopen, hclose⟩ := h c List.mem_cons_self
    exact .plain hopen hclose (ih fun d hd => h d (List.mem_cons_of_mem _ hd))

theorem append (hu : Balanced u) (hv : Balanced v) : Balanced (u ++ v) := by
  induction hu with
  | nil => exact hv
  | plain hopen hclose _ ih => exact .plain hopen hclose ih
  | argument hw _ _ ih => simpa using Balanced.argument hw ih

/-- Without an opening brace there is no closing one. -/
theorem plain_of_not_mem (h : Balanced u) (hopen : .scalar '\x7b' ∉ u) :
    ∀ c ∈ u, c ≠ .scalar '\x7b' ∧ c ≠ .scalar '\x7d' := by
  induction h with
  | nil => exact fun c hc => absurd hc List.not_mem_nil
  | plain hc hclose _ ih =>
    intro d hd
    rcases List.mem_cons.mp hd with rfl | hd
    · exact ⟨hc, hclose⟩
    · exact ih (fun hmem => hopen (List.mem_cons_of_mem _ hmem)) d hd
  | argument _ _ _ _ => exact absurd List.mem_cons_self hopen

end Balanced

/-! ## The pass over the arguments -/

/-- An argument without braces is passed over up to its closing brace. -/
theorem skipArgument?_eq_some_iff {t tail : Text} : skipArgument? t = some tail ↔
    ∃ body, (∀ c ∈ body, c ≠ .scalar '\x7b' ∧ c ≠ .scalar '\x7d') ∧
      t = body ++ .scalar '\x7d' :: tail := by
  constructor
  · intro h
    induction t with
    | nil => cases h
    | cons c t ih =>
      simp only [skipArgument?] at h
      split at h
      · next hclose =>
        cases h
        exact ⟨[], nofun, by rw [hclose]; rfl⟩
      · next hclose =>
        split at h
        · cases h
        · next hopen =>
          obtain ⟨body, hbody, rfl⟩ := ih h
          refine ⟨c :: body, ?_, rfl⟩
          intro d hd
          rcases List.mem_cons.mp hd with rfl | hd
          · exact ⟨hopen, hclose⟩
          · exact hbody d hd
  · rintro ⟨body, hbody, rfl⟩
    induction body with
    | nil => rfl
    | cons c body ih =>
      obtain ⟨hopen, hclose⟩ := hbody c List.mem_cons_self
      rw [List.cons_append, skipArgument?, if_neg hclose, if_neg hopen]
      exact ih fun d hd => hbody d (List.mem_cons_of_mem _ hd)

/-- The search for the end of an argument does not go over another opening brace. -/
theorem skipArgument?_append_open (u t : Text) :
    skipArgument? (u ++ .scalar '\x7b' :: t) =
      (skipArgument? u).map (· ++ .scalar '\x7b' :: t) := by
  induction u with
  | nil => rfl
  | cons c u ih =>
    rw [List.cons_append]
    simp only [skipArgument?]
    split
    · rfl
    · split
      · rfl
      · exact ih

theorem skipArgument?_eq_none {u : Text} (h : Balanced u) (hopen : .scalar '\x7b' ∈ u) (v : Text) :
    skipArgument? (u ++ v) = none := by
  induction h with
  | nil => cases hopen
  | plain hc hclose _ ih =>
    rw [List.cons_append, skipArgument?, if_neg hclose, if_neg hc]
    exact ih ((List.mem_cons.mp hopen).resolve_left fun h => hc h.symm)
  | argument _ _ _ _ => rfl

/-- Counting down is jumping. -/
theorem dropArguments_eq_drop (n : Nat) (t : Text) :
    dropArguments n t = dropArguments 0 (t.drop n) := by
  induction t generalizing n with
  | nil => cases n <;> rfl
  | cons c t ih =>
    cases n with
    | zero => rfl
    | succ n => exact ih n

/-- An argument without braces is dropped. -/
theorem dropArguments_argument {body : Text}
    (hbody : ∀ c ∈ body, c ≠ .scalar '\x7b' ∧ c ≠ .scalar '\x7d') (rest : Text) :
    dropArguments 0 (.scalar '\x7b' :: (body ++ .scalar '\x7d' :: rest)) =
      dropArguments 0 rest := by
  have hskip : skipArgument? (body ++ .scalar '\x7d' :: rest) = some rest :=
    skipArgument?_eq_some_iff.mpr ⟨body, hbody, rfl⟩
  have hcount : (body ++ .scalar '\x7d' :: rest : Text).length - rest.length = body.length + 1 := by
    rw [List.length_append, List.length_cons]
    omega
  simp only [dropArguments, hskip, if_true]
  rw [dropArguments_eq_drop, hcount, List.drop_length_add_append]
  rfl

theorem dropArguments_cons {c : CodePoint} {t : Text}
    (h : c = .scalar '\x7b' → skipArgument? t = none) :
    dropArguments 0 (c :: t) = c :: dropArguments 0 t := by
  simp only [dropArguments]
  split
  · next hc => rw [h hc]
  · rfl

/-- To show something of a specification, it may be taken apart as the pass goes over it. -/
@[elab_as_elim]
theorem passInduction {motive : Text → Prop} (t : Text) (nil : motive [])
    (argument : ∀ body rest : Text, (∀ c ∈ body, c ≠ .scalar '\x7b' ∧ c ≠ .scalar '\x7d') →
      motive rest → motive (.scalar '\x7b' :: (body ++ .scalar '\x7d' :: rest)))
    (kept : ∀ c rest, (c = .scalar '\x7b' → skipArgument? rest = none) → motive rest →
      motive (c :: rest)) : motive t := by
  induction hn : t.length using Nat.strong_induction_on generalizing t with
  | _ n ih =>
    subst hn
    cases t with
    | nil => exact nil
    | cons c t =>
      by_cases hskip : c = .scalar '\x7b' ∧ (skipArgument? t).isSome = true
      · obtain ⟨rfl, hsome⟩ := hskip
        obtain ⟨tail, htail⟩ := Option.isSome_iff_exists.mp hsome
        obtain ⟨body, hbody, rfl⟩ := skipArgument?_eq_some_iff.mp htail
        refine argument body tail hbody (ih tail.length ?_ tail rfl)
        rw [List.length_cons, List.length_append, List.length_cons]
        omega
      · refine kept c t (fun hc => ?_) (ih t.length (Nat.lt_succ_self _) t rfl)
        exact Option.not_isSome_iff_eq_none.mp fun hsome => hskip ⟨hc, hsome⟩

/-- The pass does not look beyond the next opening brace. -/
theorem dropArguments_append_open (u t : Text) :
    dropArguments 0 (u ++ .scalar '\x7b' :: t) =
      dropArguments 0 u ++ dropArguments 0 (.scalar '\x7b' :: t) := by
  induction u using passInduction with
  | nil => rfl
  | argument body rest hbody ih =>
    rw [dropArguments_argument hbody, ← ih, List.cons_append, List.append_assoc, List.cons_append,
      dropArguments_argument hbody]
  | kept c rest hkeep ih =>
    have hkeep' : c = .scalar '\x7b' → skipArgument? (rest ++ .scalar '\x7b' :: t) = none := by
      intro hc
      rw [skipArgument?_append_open, hkeep hc, Option.map_none]
    rw [List.cons_append, dropArguments_cons hkeep', dropArguments_cons hkeep, ih,
      List.cons_append]

theorem dropArguments_append {u : Text} (h : Balanced u) (t : Text) :
    dropArguments 0 (u ++ t) = dropArguments 0 u ++ dropArguments 0 t := by
  induction h generalizing t with
  | nil => rfl
  | plain hopen _ _ ih =>
    rw [List.cons_append, dropArguments_cons fun hc => absurd hc hopen, ih,
      dropArguments_cons fun hc => absurd hc hopen, List.cons_append]
  | @argument w v hw _ ihw ihv =>
    have hclose : ∀ r : Text, dropArguments 0 (.scalar '\x7d' :: r) =
        .scalar '\x7d' :: dropArguments 0 r := fun r =>
      dropArguments_cons fun hc => absurd hc (by decide)
    rw [List.cons_append, List.append_assoc, List.cons_append]
    by_cases hopen : .scalar '\x7b' ∈ w
    · have hkeep : ∀ r, CodePoint.scalar '\x7b' = .scalar '\x7b' →
          skipArgument? (w ++ r) = none := fun r _ => skipArgument?_eq_none hw hopen r
      rw [dropArguments_cons (hkeep _), dropArguments_cons (hkeep _), ihw, hclose, ihv, ihw, hclose]
      simp
    · have hplain := hw.plain_of_not_mem hopen
      rw [dropArguments_argument hplain, dropArguments_argument hplain, ihv]

/-! ## What stands outside -/

section Outside

variable {u : Text}

theorem outside_open (d : Nat) (t : Text) :
    outside d (.scalar '\x7b' :: t) = outside (d + 1) t := rfl

theorem outside_close (d : Nat) (t : Text) :
    outside d (.scalar '\x7d' :: t) = outside (d - 1) t := rfl

theorem outside_plain {c : CodePoint} (hopen : c ≠ .scalar '\x7b') (hclose : c ≠ .scalar '\x7d')
    (d : Nat) (t : Text) :
    outside d (c :: t) = (if d = 0 then [c] else []) ++ outside d t := by
  rw [outside, if_neg hopen, if_neg hclose]
  split <;> rfl

/-- Nothing of an argument stands outside. -/
theorem outside_succ_append (h : Balanced u) (d : Nat) (t : Text) :
    outside (d + 1) (u ++ t) = outside (d + 1) t := by
  induction h generalizing d t with
  | nil => rfl
  | plain hopen hclose _ ih =>
    rw [List.cons_append, outside_plain hopen hclose, if_neg (Nat.succ_ne_zero d), ih]
    rfl
  | argument _ _ ihw ihv =>
    rw [List.cons_append, List.append_assoc, List.cons_append, outside_open, ihw, outside_close]
    exact ihv d t

theorem outside_argument (h : Balanced u) (d : Nat) (t : Text) :
    outside d (.scalar '\x7b' :: (u ++ .scalar '\x7d' :: t)) = outside d t := by
  rw [outside_open, outside_succ_append h, outside_close, Nat.add_sub_cancel]

/-- Behind a text there are so many braces open, whatever follows. -/
theorem exists_outside_append (d : Nat) (u : Text) :
    ∃ e, ∀ t, outside d (u ++ t) = outside d u ++ outside e t := by
  induction u generalizing d with
  | nil => exact ⟨d, fun t => rfl⟩
  | cons c u ih =>
    by_cases hopen : c = .scalar '\x7b'
    · subst hopen
      exact ih (d + 1)
    · by_cases hclose : c = .scalar '\x7d'
      · subst hclose
        exact ih (d - 1)
      · obtain ⟨e, he⟩ := ih d
        refine ⟨e, fun t => ?_⟩
        rw [List.cons_append, outside_plain hopen hclose, outside_plain hopen hclose, he,
          List.append_assoc]

/-- What stands outside is kept. -/
theorem outside_sublist (d : Nat) (t : Text) : (outside d t).Sublist (dropArguments 0 t) := by
  induction t using passInduction generalizing d with
  | nil => exact List.Sublist.refl _
  | argument body rest hbody ih =>
    rw [outside_argument (.of_plain hbody), dropArguments_argument hbody]
    exact ih d
  | kept c rest hkeep ih =>
    rw [dropArguments_cons hkeep]
    by_cases hopen : c = .scalar '\x7b'
    · subst hopen
      exact (ih (d + 1)).cons _
    · by_cases hclose : c = .scalar '\x7d'
      · subst hclose
        exact (ih (d - 1)).cons _
      · rw [outside_plain hopen hclose]
        split
        · exact (ih d).cons_cons c
        · exact (ih d).cons c

end Outside

/-! ## Columns -/

section Columns

variable {u v spec : Text}

/-- What is kept of an argument is what is kept inside, if it holds another one. -/
theorem columns_dropArguments_argument (hu : Balanced u) (v : Text) :
    columns (dropArguments 0 (.scalar '\x7b' :: (u ++ .scalar '\x7d' :: v))) =
      (if .scalar '\x7b' ∈ u then columns (dropArguments 0 u) else []) ++
        columns (dropArguments 0 v) := by
  have hclose : dropArguments 0 (.scalar '\x7d' :: v) = .scalar '\x7d' :: dropArguments 0 v :=
    dropArguments_cons fun hc => absurd hc (by decide)
  split
  · next hopen =>
    rw [dropArguments_cons fun _ => skipArgument?_eq_none hu hopen _, dropArguments_append hu,
      hclose, columns_cons_of_none rfl, columns_append, columns_cons_of_none rfl]
  · next hopen =>
    rw [dropArguments_argument (hu.plain_of_not_mem hopen)]
    rfl

theorem columns_dropArguments_of_not_leaksLetter (h : Balanced spec) (hleak : ¬ LeaksLetter spec) :
    columns (dropArguments 0 spec) = columns (outside 0 spec) := by
  induction h with
  | nil => rfl
  | @plain c t hopen hclose _ ih =>
    have ht : ¬ LeaksLetter t := fun h => hleak (h.of_infix (List.suffix_cons c t).isInfix)
    rw [dropArguments_cons fun hc => absurd hc hopen, outside_plain hopen hclose, if_pos rfl,
      ← List.singleton_append, columns_append, columns_append, ih ht]
  | @argument u v hu _ ihu ihv =>
    have hinside : ¬ LeaksLetter u := fun h =>
      hleak (h.of_infix ⟨[.scalar '\x7b'], .scalar '\x7d' :: v, by simp⟩)
    have hbehind : ¬ LeaksLetter v := fun h =>
      hleak (h.of_infix ⟨.scalar '\x7b' :: (u ++ [.scalar '\x7d']), [], by simp⟩)
    rw [columns_dropArguments_argument hu, outside_argument hu, ihv hbehind]
    split
    · next hopen =>
      have hnone : columns (outside 0 u) = [] := by
        by_contra hletter
        exact hleak ⟨[], u, v, rfl, hu, hopen, hletter⟩
      rw [ihu hinside, hnone, List.nil_append]
    · rw [List.nil_append]

/-- A letter that leaks out of its argument is one column too many. -/
theorem length_columns_lt_of_leaksLetter (h : LeaksLetter spec) :
    (columns (outside 0 spec)).length < (columns (dropArguments 0 spec)).length := by
  obtain ⟨before, u, behind, rfl, hu, hopen, hletter⟩ := h
  obtain ⟨e, he⟩ := exists_outside_append 0 before
  have hbefore := ((outside_sublist 0 before).filterMap columnLetter?).length_le
  have hbehind := ((outside_sublist e behind).filterMap columnLetter?).length_le
  have hinside := ((outside_sublist 0 u).filterMap columnLetter?).length_le
  have hpos := List.length_pos_iff.mpr hletter
  rw [he, outside_argument hu, dropArguments_append_open, columns_append, columns_append,
    columns_dropArguments_argument hu, if_pos hopen]
  simp only [List.length_append, columns] at *
  omega

theorem columns_dropArguments_eq_iff (h : Balanced spec) :
    columns (dropArguments 0 spec) = columns (outside 0 spec) ↔ ¬ LeaksLetter spec := by
  constructor
  · intro heq hleak
    have hlt := length_columns_lt_of_leaksLetter hleak
    rw [heq] at hlt
    exact Nat.lt_irrefl _ hlt
  · exact columns_dropArguments_of_not_leaksLetter h

/-! ## What a table shows -/

theorem columnAlignment_eq_aligned (spec : Text) :
    columnAlignment spec = aligned (columns (dropArguments 0 spec)) := rfl

/-- The words for columns are no shorter than the shortest of them. -/
theorem four_le_length_of_mem_columns {t w : Text} (h : w ∈ columns t) : 4 ≤ w.length := by
  obtain ⟨c, -, hc⟩ := List.mem_filterMap.mp h
  unfold columnLetter? at hc
  split at hc <;> cases hc <;> decide

theorem length_join_add_one {ws : List Text} (h : ws ≠ []) :
    (Text.join " " ws).length + 1 = ws.flatten.length + ws.length := by
  induction ws with
  | nil => exact absurd rfl h
  | cons w ws ih =>
    cases ws with
    | nil => simp [Text.join]
    | cons x ws =>
      have hrest := ih (List.cons_ne_nil x ws)
      rw [List.flatten_cons, List.length_append, List.length_cons]
      simp only [Text.join, List.length_append, Text.length_ofString]
      show w.length + 1 + _ + 1 = _
      omega

/-- A table shows how many columns there are, but it does not tell no column from one centred
column. -/
theorem aligned_eq_aligned_iff {few many : List Text} (hsub : few.Sublist many)
    (hmany : ∀ w ∈ many, 4 ≤ w.length) :
    aligned many = aligned few ↔ many = few ∨ few = [] ∧ many = ["center"] := by
  constructor
  · intro h
    cases few with
    | nil =>
      cases many with
      | nil => exact Or.inl rfl
      | cons w rest =>
        cases rest with
        | nil => exact Or.inr ⟨rfl, congrArg (fun t => [t]) h⟩
        | cons x rest =>
          -- two words and the gap between them are longer than the one word
          exfalso
          have hlength := length_join_add_one (List.cons_ne_nil w (x :: rest))
          have hw := hmany w (by simp)
          have hx := hmany x (by simp)
          have hshown : (Text.join " " (w :: x :: rest)).length = 6 := congrArg List.length h
          simp only [List.flatten_cons, List.length_append, List.length_cons] at hlength
          omega
    | cons w rest =>
      have hne : many ≠ [] := fun hnil => by simp [hnil] at hsub
      obtain ⟨x, more, rfl⟩ := List.exists_cons_of_ne_nil hne
      have hjoin : Text.join " " (x :: more) = Text.join " " (w :: rest) := h
      have hshown := congrArg List.length hjoin
      have hfew := length_join_add_one (List.cons_ne_nil w rest)
      rw [← hshown, length_join_add_one hne] at hfew
      -- a column that the other table lacks would make the text longer
      obtain ⟨extra, hperm⟩ := hsub.exists_perm_append
      have hletters := hperm.flatten.length_eq
      have hcount := hperm.length_eq
      rw [List.flatten_append, List.length_append] at hletters
      rw [List.length_append] at hcount
      have hextra : extra = [] := List.length_eq_zero_iff.mp (by omega)
      rw [hextra, List.append_nil] at hperm
      exact Or.inl (hsub.eq_of_length hperm.length_eq.symm).symm
  · rintro (rfl | ⟨rfl, rfl⟩) <;> rfl

/-- The columns that are shown of a specification with balanced braces: those outside of all braces
are among them, and no others exactly if no letter leaks out of an argument. A letter that leaks is
always seen, unless it is a single `c` and there is no column outside. -/
theorem columnAlignment_of_balanced (h : Balanced spec) :
    ∃ shown, columnAlignment spec = aligned shown ∧ (columns (outside 0 spec)).Sublist shown ∧
      (shown = columns (outside 0 spec) ↔ ¬ LeaksLetter spec) ∧
      (columnAlignment spec = aligned (columns (outside 0 spec)) ↔
        ¬ LeaksLetter spec ∨ columns (outside 0 spec) = [] ∧ shown = ["center"]) := by
  have hsub : (columns (outside 0 spec)).Sublist (columns (dropArguments 0 spec)) :=
    (outside_sublist 0 spec).filterMap columnLetter?
  refine ⟨columns (dropArguments 0 spec), rfl, hsub, columns_dropArguments_eq_iff h, ?_⟩
  rw [← columns_dropArguments_eq_iff h, columnAlignment_eq_aligned]
  exact aligned_eq_aligned_iff hsub fun w hw => four_le_length_of_mem_columns hw

/-- The name of the inner command holds a `c`, which is shown as a column. -/
theorem columnAlignment_of_balanced_nested :
    Balanced "@\x7b\\hspace\x7b1em\x7d\x7dl" ∧ LeaksLetter "@\x7b\\hspace\x7b1em\x7d\x7dl" ∧
    columnAlignment "@\x7b\\hspace\x7b1em\x7d\x7dl" = "center left" ∧
    columnAlignment "@\x7b\\hspace\x7b1em\x7d\x7dl" ≠
      aligned (columns (outside 0 "@\x7b\\hspace\x7b1em\x7d\x7dl")) := by
  have hname : Balanced "\\hspace\x7b1em\x7d" :=
    .append (u := "\\hspace") (.of_plain (by decide))
      (.argument (u := "1em") (.of_plain (by decide)) .nil)
  have hspec : Balanced "@\x7b\\hspace\x7b1em\x7d\x7dl" :=
    .append (u := "@") (.of_plain (by decide))
      (.argument hname (.of_plain (u := "l") (by decide)))
  have hleak : LeaksLetter "@\x7b\\hspace\x7b1em\x7d\x7dl" :=
    ⟨"@", "\\hspace\x7b1em\x7d", "l", rfl, hname, by decide, by decide⟩
  obtain ⟨shown, hshown, -, -, hiff⟩ := columnAlignment_of_balanced hspec
  refine ⟨hspec, hleak, by decide, fun heq => ?_⟩
  rcases hiff.mp heq with hnone | ⟨hnil, -⟩
  · exact hnone hleak
  · exact absurd hnil (by decide)

end Columns

end MathMarkup.Environment
