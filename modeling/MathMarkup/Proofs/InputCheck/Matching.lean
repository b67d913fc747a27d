import MathMarkup.Proofs.InputCheck.Braces

/-!
# Which delimiters are reported

The delimiters of each kind are matched by themselves. Their sequence tells what remains of them:
closing ones, then opening ones, with Dyck words around and between them (`Leaves`). So the reported
delimiters are exactly those without a partner, that is, without one with which they enclose a Dyck
word (`InputCheck.delimiterErrors_exact`).
-/

namespace MathMarkup.InputCheck

/-! ## The offsets that are looked at -/

/-- The text starts with the rest of a sized delimiter, which takes so many code points: the name of
a sized command, spaces, and a delimiter. -/
def SizedAt (rest : Text) (n : Nat) : Prop :=
  ∃ command gap c more, rest = command ++ (gap ++ c :: more) ∧ command ∈ sizedCommands ∧
    (∀ b ∈ gap, b.isSpace = true) ∧ c ∈ Text.ofString "()[]" ∧
    n = command.length + gap.length + 1

/-- The offsets at which the check looks for a delimiter. Behind a backslash it passes over one code
point, or over all of a sized delimiter. -/
inductive LooksAt (source : Text) : Nat → Prop where
  | start : LooksAt source 0
  | next {k : Nat} {c : CodePoint} : LooksAt source k → source[k]? = some c → c ≠ .scalar '\\' →
      LooksAt source (k + 1)
  | escaped {k : Nat} : LooksAt source k → source[k]? = some (.scalar '\\') →
      (∀ n, ¬ SizedAt (source.drop (k + 1)) n) → LooksAt source (k + 2)
  | sized {k n : Nat} : LooksAt source k → source[k]? = some (.scalar '\\') →
      SizedAt (source.drop (k + 1)) n → LooksAt source (k + 1 + n)

section Marks

variable {source : Text} {m : Mark} {k : Nat} {c : CodePoint}

theorem sizedTail?_eq_some_iff_sizedAt {rest : Text} {n : Nat} :
    sizedTail? rest = some n ↔ SizedAt rest n := by
  rw [sizedTail?_eq_some_iff]
  constructor
  · rintro ⟨hcommand, gap, c, more, hdrop, hgap, hc, rfl⟩
    rw [commandTail_eq hcommand] at hdrop ⊢
    refine ⟨_, gap, c, more, ?_, List.contains_iff_mem.mp hcommand, hgap, hc, rfl⟩
    rw [← hdrop, List.prefix_iff_eq_append.mp (List.takeWhile_prefix _)]
  · rintro ⟨command, gap, c, more, rfl, hcommand, hgap, hc, rfl⟩
    have hletters : ∀ command ∈ sizedCommands, ∀ b ∈ command, b.isAsciiLetter = true := by decide
    have hplain : ∀ c ∈ Text.ofString "()[]", c.isAsciiLetter = false := by decide
    have hbehind : ∀ b ∈ (gap ++ c :: more).head?, b.isAsciiLetter = false := by
      intro b hb
      cases gap with
      | nil =>
        cases hb
        exact hplain c hc
      | cons d gap =>
        cases hb
        exact CodePoint.isAsciiLetter_eq_false_of_isSpace (hgap b List.mem_cons_self)
    have hname := Text.takeWhile_append_of_head? (hletters command hcommand) hbehind
    have hcontains : sizedCommands.contains
        ((command ++ (gap ++ c :: more)).takeWhile CodePoint.isAsciiLetter) = true := by
      rw [hname]
      exact List.contains_iff_mem.mpr hcommand
    refine ⟨hcontains, gap, c, more, ?_, hgap, hc, ?_⟩
    · rw [commandTail_eq hcontains, hname, List.drop_left]
    · rw [commandTail_eq hcontains, hname]

theorem offset_of_markAt? (h : markAt? k c = some m) : m.offset = k := by
  obtain ⟨p, -, rfl⟩ := Option.map_eq_some_iff.mp h
  rfl

/-! ### One step of the scan -/

theorem marks_next (hc : source[k]? = some c) (hne : c ≠ .scalar '\\') :
    marks 0 k (source.drop k) =
      (markAt? k c).toList ++ marks 0 (k + 1) (source.drop (k + 1)) := by
  obtain ⟨hk, rfl⟩ := List.getElem?_eq_some_iff.mp hc
  rw [List.drop_eq_getElem_cons hk, marks, if_neg hne]
  cases markAt? k source[k] <;> rfl

theorem marks_backslash (hc : source[k]? = some (.scalar '\\')) :
    marks 0 k (source.drop k) =
      marks 0 (k + 1 + (sizedTail? (source.drop (k + 1))).getD 1)
        (source.drop (k + 1 + (sizedTail? (source.drop (k + 1))).getD 1)) := by
  obtain ⟨hk, hslash⟩ := List.getElem?_eq_some_iff.mp hc
  rw [List.drop_eq_getElem_cons hk, marks, if_pos hslash, marks_eq_marks_drop, List.drop_drop]

/-- Behind a backslash the scan goes on at the next offset that is looked at. -/
theorem LooksAt.behind_backslash (h : LooksAt source k) (hc : source[k]? = some (.scalar '\\')) :
    LooksAt source (k + 1 + (sizedTail? (source.drop (k + 1))).getD 1) := by
  cases htail : sizedTail? (source.drop (k + 1)) with
  | some n => exact .sized h hc (sizedTail?_eq_some_iff_sizedAt.mp htail)
  | none =>
    refine .escaped h hc fun n hn => ?_
    rw [← sizedTail?_eq_some_iff_sizedAt, htail] at hn
    cases hn

/-! ### The whole scan -/

/-- From an offset that is looked at, the scan finds the delimiters at such offsets. -/
theorem looksAt_of_mem_marks (hk : LooksAt source k) (hm : m ∈ marks 0 k (source.drop k)) :
    LooksAt source m.offset ∧ ∃ c, source[m.offset]? = some c ∧ markAt? m.offset c = some m := by
  induction hlength : source.length - k using Nat.strong_induction_on generalizing k with
  | _ length ih =>
    subst hlength
    cases hc : source[k]? with
    | none =>
      rw [List.drop_eq_nil_of_le (List.getElem?_eq_none_iff.mp hc)] at hm
      cases hm
    | some c =>
      have hlt : k < source.length := (List.getElem?_eq_some_iff.mp hc).1
      by_cases hslash : c = .scalar '\\'
      · subst hslash
        rw [marks_backslash hc] at hm
        exact ih _ (by omega) (hk.behind_backslash hc) hm rfl
      · rw [marks_next hc hslash, List.mem_append, Option.mem_toList] at hm
        rcases hm with hm | hm
        · have hoffset := offset_of_markAt? hm
          rw [hoffset]
          exact ⟨hk, c, hc, hm⟩
        · exact ih _ (by omega) (hk.next hc hslash) hm rfl

/-- The scan comes to each offset that is looked at. -/
theorem LooksAt.subset (h : LooksAt source k) :
    marks 0 k (source.drop k) ⊆ marks 0 0 source := by
  induction h with
  | start => exact List.Subset.refl _
  | next _ hc hne ih =>
    rw [marks_next hc hne] at ih
    exact fun x hx => ih (List.mem_append_right _ hx)
  | escaped _ hc hnone ih =>
    have htail : sizedTail? (source.drop _) = none :=
      Option.eq_none_iff_forall_ne_some.mpr fun n hn =>
        hnone n (sizedTail?_eq_some_iff_sizedAt.mp hn)
    rw [marks_backslash hc, htail] at ih
    exact ih
  | sized _ hc hsized ih =>
    rw [marks_backslash hc, sizedTail?_eq_some_iff_sizedAt.mpr hsized] at ih
    exact ih

/-- The delimiters that count are those at the offsets that are looked at. -/
theorem mem_marks_iff : m ∈ marks 0 0 source ↔
    LooksAt source m.offset ∧ ∃ c, source[m.offset]? = some c ∧ markAt? m.offset c = some m := by
  constructor
  · exact looksAt_of_mem_marks .start
  · rintro ⟨hlooks, c, hc, hm⟩
    have hne : c ≠ .scalar '\\' := by
      rintro rfl
      cases hm
    refine hlooks.subset ?_
    rw [marks_next hc hne, hm]
    exact List.mem_append_left _ (List.mem_singleton_self m)

theorem le_offset_of_mem_marks {taken offset : Nat} {t : Text} (hm : m ∈ marks taken offset t) :
    offset ≤ m.offset := by
  fun_induction marks taken offset t with
  | case1 => cases hm
  | case2 taken offset c rest ih => exact (Nat.le_succ offset).trans (ih hm)
  | case3 offset rest ih => exact (Nat.le_succ offset).trans (ih hm)
  | case4 offset c rest _ mark hmark ih =>
    rcases List.mem_cons.mp hm with rfl | hm
    · exact (offset_of_markAt? hmark).ge
    · exact (Nat.le_succ offset).trans (ih hm)
  | case5 offset c rest _ _ ih => exact (Nat.le_succ offset).trans (ih hm)

/-- They are listed in order, each once. -/
theorem marks_pairwise (taken offset : Nat) (t : Text) :
    (marks taken offset t).Pairwise fun m n => m.offset < n.offset := by
  fun_induction marks taken offset t with
  | case1 => exact .nil
  | case2 taken offset c rest ih => exact ih
  | case3 offset rest ih => exact ih
  | case4 offset c rest _ mark hmark ih =>
    refine List.pairwise_cons.mpr ⟨fun n hn => ?_, ih⟩
    rw [offset_of_markAt? hmark]
    exact le_offset_of_mem_marks hn
  | case5 offset c rest _ _ ih => exact ih

end Marks

/-! ## Matching delimiters of one kind -/

/-- The delimiters form a Dyck word. -/
inductive Dyck : List Mark → Prop where
  | nil : Dyck []
  | pair {o c : Mark} {u v : List Mark} : o.opens = true → Dyck u → c.opens = false → Dyck v →
      Dyck (o :: (u ++ c :: v))

/-- Two delimiters are partners: an opening one and, later in the sequence, a closing one with a
Dyck word between them. -/
def Partners (w : List Mark) (o c : Mark) : Prop :=
  ∃ before between after, w = before ++ o :: (between ++ c :: after) ∧ o.opens = true ∧
    c.opens = false ∧ Dyck between

/-- A delimiter has no partner in the sequence. -/
def Alone (w : List Mark) (m : Mark) : Prop :=
  ∀ o c, Partners w o c → m ≠ o ∧ m ≠ c

/-- What remains of a sequence: closing delimiters in order, and opening ones, latest first. -/
structure Remains where
  closers : List Mark := []
  openers : List Mark := []

/-- One more delimiter. -/
def Remains.step (s : Remains) (m : Mark) : Remains :=
  if m.opens then { s with openers := m :: s.openers }
  else match s.openers with
    | _ :: outer => { s with openers := outer }
    | [] => { s with closers := s.closers ++ [m] }

/-- What remains of a sequence of delimiters. -/
def remains (w : List Mark) : Remains :=
  w.foldl Remains.step {}

/-- The sequence is what remains of it, with Dyck words around and between. -/
inductive Leaves : List Mark → Remains → Prop where
  | dyck {u : List Mark} : Dyck u → Leaves u {}
  | closer {u v closers : List Mark} {c : Mark} : Leaves u ⟨closers, []⟩ → c.opens = false →
      Dyck v → Leaves (u ++ c :: v) ⟨closers ++ [c], []⟩
  | opener {u v closers openers : List Mark} {o : Mark} : Leaves u ⟨closers, openers⟩ →
      o.opens = true → Dyck v → Leaves (u ++ o :: v) ⟨closers, o :: openers⟩

section Matching

variable {u v w : List Mark} {m o c : Mark} {s : Remains}

/-! ### What remains -/

theorem Dyck.append (hu : Dyck u) (hv : Dyck v) : Dyck (u ++ v) := by
  induction hu with
  | nil => exact hv
  | pair ho hu hc _ _ ih => simpa using Dyck.pair ho hu hc ih

theorem Leaves.append_dyck (hu : Leaves u s) (hv : Dyck v) : Leaves (u ++ v) s := by
  cases hu with
  | dyck hu => exact .dyck (hu.append hv)
  | closer hu hc hw => simpa using Leaves.closer hu hc (hw.append hv)
  | opener hu ho hw => simpa using Leaves.opener hu ho (hw.append hv)

/-- A delimiter opens, or it is the partner of the latest opening one, or it is left over. -/
theorem Leaves.step (hu : Leaves u s) (m : Mark) : Leaves (u ++ [m]) (s.step m) := by
  obtain ⟨closers, openers⟩ := s
  cases hm : m.opens with
  | true =>
    simp only [Remains.step, hm, if_true]
    exact .opener hu hm .nil
  | false =>
    simp only [Remains.step, hm, Bool.false_eq_true, if_false]
    cases openers with
    | nil => exact .closer hu hm .nil
    | cons o outer =>
      cases hu with
      | opener hu ho hv => simpa using hu.append_dyck (Dyck.pair ho hv hm .nil)

theorem leaves_remains (w : List Mark) : Leaves w (remains w) := by
  induction w using List.reverseRecOn with
  | nil => exact .dyck .nil
  | append_singleton w m ih =>
    rw [remains, List.foldl_append]
    exact ih.step m

/-- Nothing remains of a Dyck word. -/
theorem Dyck.foldl_step (hw : Dyck w) (s : Remains) : w.foldl Remains.step s = s := by
  induction hw generalizing s with
  | nil => rfl
  | pair ho _ hc _ ihu ihv =>
    rw [List.foldl_cons, List.foldl_append, ihu, List.foldl_cons, ihv]
    simp [Remains.step, ho, hc]

/-- What remains was there before or has been added. -/
theorem mem_of_mem_foldl_step (hm : m ∈ (w.foldl Remains.step s).closers ∨
    m ∈ (w.foldl Remains.step s).openers) : m ∈ s.closers ∨ m ∈ s.openers ∨ m ∈ w := by
  induction w generalizing s with
  | nil => simpa using hm
  | cons x w ih =>
    have hstep : m ∈ (s.step x).closers ∨ m ∈ (s.step x).openers →
        m ∈ s.closers ∨ m ∈ s.openers ∨ m = x := by
      unfold Remains.step
      grind
    grind

theorem mem_of_mem_remains (hm : m ∈ (remains w).closers ∨ m ∈ (remains w).openers) : m ∈ w := by
  simpa using mem_of_mem_foldl_step hm

theorem Leaves.opens_eq (h : Leaves w s) :
    (∀ m ∈ s.closers, m.opens = false) ∧ ∀ m ∈ s.openers, m.opens = true := by
  induction h with
  | dyck _ => exact ⟨nofun, nofun⟩
  | closer _ hc _ ih => simpa [or_imp, forall_and, hc] using ih.1
  | opener _ ho _ ih => simpa [ho] using ih

/-- In the sequence the closing delimiters that remain stand before the opening ones. -/
theorem Leaves.sublist (h : Leaves w s) : (s.closers ++ s.openers.reverse).Sublist w := by
  induction h with
  | dyck _ => exact List.nil_sublist _
  | closer _ _ _ ih =>
    simp only [List.reverse_nil, List.append_nil] at ih ⊢
    exact ih.append (List.singleton_sublist.mpr List.mem_cons_self)
  | opener _ _ _ ih =>
    rw [List.reverse_cons, ← List.append_assoc]
    exact ih.append (List.singleton_sublist.mpr List.mem_cons_self)

/-! ### Partners -/

theorem Partners.append (h : Partners w o c) (u v : List Mark) : Partners (u ++ (w ++ v)) o c := by
  obtain ⟨before, between, after, rfl, ho, hc, hd⟩ := h
  exact ⟨u ++ before, between, after ++ v, by simp, ho, hc, hd⟩

/-- In a Dyck word each delimiter has a partner. -/
theorem Dyck.exists_partners (hw : Dyck w) (hm : m ∈ w) :
    ∃ o c, Partners w o c ∧ (m = o ∨ m = c) := by
  induction hw with
  | nil => cases hm
  | @pair o c u v ho hu hc hv ihu ihv =>
    have hpair : Partners (o :: (u ++ c :: v)) o c := ⟨[], u, v, rfl, ho, hc, hu⟩
    rcases List.mem_cons.mp hm with rfl | hm
    · exact ⟨m, c, hpair, Or.inl rfl⟩
    · rcases List.mem_append.mp hm with hm | hm
      · obtain ⟨o', c', hpartners, hm⟩ := ihu hm
        exact ⟨o', c', hpartners.append [o] (c :: v), hm⟩
      · rcases List.mem_cons.mp hm with rfl | hm
        · exact ⟨o, m, hpair, Or.inr rfl⟩
        · obtain ⟨o', c', hpartners, hm⟩ := ihv hm
          have hlast := hpartners.append (o :: (u ++ [c])) []
          rw [List.append_nil] at hlast
          exact ⟨o', c', by simpa using hlast, hm⟩

/-- A delimiter remains or has a partner. -/
theorem Leaves.exists_partners (h : Leaves w s) (hm : m ∈ w) (hc : m ∉ s.closers)
    (ho : m ∉ s.openers) : ∃ o c, Partners w o c ∧ (m = o ∨ m = c) := by
  have hlift : ∀ {x : Mark} {u v : List Mark},
      (m ∈ u → ∃ o c, Partners u o c ∧ (m = o ∨ m = c)) → m ≠ x → Dyck v → m ∈ u ++ x :: v →
        ∃ o c, Partners (u ++ x :: v) o c ∧ (m = o ∨ m = c) := by
    intro x u v hu hx hv hm
    rcases List.mem_append.mp hm with hm | hm
    · obtain ⟨o, c, hpartners, hm⟩ := hu hm
      exact ⟨o, c, hpartners.append [] (x :: v), hm⟩
    · obtain ⟨o, c, hpartners, hm⟩ := hv.exists_partners ((List.mem_cons.mp hm).resolve_left hx)
      have hlast := hpartners.append (u ++ [x]) []
      rw [List.append_nil] at hlast
      exact ⟨o, c, by simpa using hlast, hm⟩
  induction h with
  | dyck hu => exact hu.exists_partners hm
  | closer _ _ hv ih =>
    simp only [List.mem_append, List.mem_singleton, not_or] at hc
    exact hlift (fun hm => ih hm hc.1 ho) hc.2 hv hm
  | opener _ _ hv ih =>
    simp only [List.mem_cons, not_or] at ho
    exact hlift (fun hm => ih hm hc ho.2) ho.1 hv hm

/-- Partners do not remain. -/
theorem Partners.not_mem_remains (h : Partners w o c) (hw : w.Nodup) :
    (o ∉ (remains w).closers ∧ o ∉ (remains w).openers) ∧
      c ∉ (remains w).closers ∧ c ∉ (remains w).openers := by
  obtain ⟨before, between, after, rfl, ho, hc, hd⟩ := h
  have hremains : remains (before ++ o :: (between ++ c :: after)) =
      after.foldl Remains.step (remains before) := by
    rw [remains, List.foldl_append, List.foldl_cons, List.foldl_append, hd.foldl_step,
      List.foldl_cons]
    simp [Remains.step, ho, hc, remains]
  have hin : ∀ {m : Mark}, m ∈ (remains (before ++ o :: (between ++ c :: after))).closers ∨
      m ∈ (remains (before ++ o :: (between ++ c :: after))).openers → m ∈ before ∨ m ∈ after := by
    intro m hm
    rw [hremains] at hm
    rcases mem_of_mem_foldl_step hm with hm | hm | hm
    · exact Or.inl (mem_of_mem_remains (Or.inl hm))
    · exact Or.inl (mem_of_mem_remains (Or.inr hm))
    · exact Or.inr hm
  simp only [List.nodup_append, List.nodup_cons, List.mem_append, List.mem_cons, not_or] at hw
  grind

/-- What remains is what has no partner. -/
theorem mem_remains_iff (hw : w.Nodup) :
    m ∈ (remains w).closers ∨ m ∈ (remains w).openers ↔ m ∈ w ∧ Alone w m := by
  constructor
  · intro h
    refine ⟨mem_of_mem_remains h, fun o c hpartners => ?_⟩
    obtain ⟨ho, hc⟩ := hpartners.not_mem_remains hw
    refine ⟨?_, ?_⟩
    · rintro rfl
      exact h.elim ho.1 ho.2
    · rintro rfl
      exact h.elim hc.1 hc.2
  · rintro ⟨hm, halone⟩
    by_contra hnone
    rw [not_or] at hnone
    obtain ⟨o, c, hpartners, h⟩ := (leaves_remains w).exists_partners hm hnone.1 hnone.2
    exact h.elim (halone o c hpartners).1 (halone o c hpartners).2

theorem mem_closers_iff (hw : w.Nodup) :
    m ∈ (remains w).closers ↔ m ∈ w ∧ m.opens = false ∧ Alone w m := by
  obtain ⟨hclosers, hopeners⟩ := (leaves_remains w).opens_eq
  rw [and_left_comm, ← mem_remains_iff hw]
  constructor
  · intro h
    exact ⟨hclosers m h, Or.inl h⟩
  · rintro ⟨hm, h | h⟩
    · exact h
    · rw [hopeners m h] at hm
      cases hm

theorem mem_openers_iff (hw : w.Nodup) :
    m ∈ (remains w).openers ↔ m ∈ w ∧ m.opens = true ∧ Alone w m := by
  obtain ⟨hclosers, hopeners⟩ := (leaves_remains w).opens_eq
  rw [and_left_comm, ← mem_remains_iff hw]
  constructor
  · intro h
    exact ⟨hopeners m h, Or.inr h⟩
  · rintro ⟨hm, h | h⟩
    · rw [hclosers m h] at hm
      cases hm
    · exact h

/-- One delimiter more is taken out of a sequence, with a part behind it that is left alone. -/
theorem filter_not_mem {r r' : List Mark} (hw : (u ++ m :: v).Nodup) (hr : r ⊆ u)
    (hr' : ∀ x, x ∈ r' ↔ x = m ∨ x ∈ r) :
    (u ++ m :: v).filter (· ∉ r') = u.filter (· ∉ r) ++ v := by
  obtain ⟨-, hv, hdisjoint⟩ := List.nodup_append.mp hw
  have hleft : ∀ x ∈ u, decide (x ∉ r') = decide (x ∉ r) := by
    intro x hx
    have hne := hdisjoint x hx m List.mem_cons_self
    simp [hr', hne]
  have hright : ∀ x ∈ v, decide (x ∉ r') = true := by
    intro x hx
    have hne : x ≠ m := by
      rintro rfl
      exact (List.nodup_cons.mp hv).1 hx
    have hnot : x ∉ r := fun h => hdisjoint x (hr h) x (List.mem_cons_of_mem m hx) rfl
    simp [hr', hne, hnot]
  rw [List.filter_append, List.filter_congr hleft, List.filter_cons_of_neg (by simp [hr']),
    List.filter_eq_self.mpr hright]

/-- Without what remains, the sequence is a Dyck word. -/
theorem Leaves.dyck_filter (h : Leaves w s) (hw : w.Nodup) :
    Dyck (w.filter (· ∉ s.closers ++ s.openers)) := by
  have hsub : ∀ {u : List Mark} {s : Remains}, Leaves u s → s.closers ++ s.openers ⊆ u := by
    intro u s hu x hx
    exact hu.sublist.subset (by simpa using hx)
  induction h with
  | dyck hu => simpa using hu
  | @closer u v closers c hu _ hv ih =>
    rw [filter_not_mem hw (hsub hu) (by simp [or_comm])]
    exact (ih (List.nodup_append.mp hw).1).append hv
  | @opener u v closers openers o hu _ hv ih =>
    rw [filter_not_mem hw (hsub hu) (by simp [or_left_comm])]
    exact (ih (List.nodup_append.mp hw).1).append hv

/-! ### Dyck words of steps -/

/-- The step of a delimiter. -/
def Mark.step (m : Mark) : DyckStep :=
  if m.opens then .U else .D

theorem Dyck.climb (hw : Dyck w) (d : Nat) : Parser.climb d (w.map Mark.step) = some d := by
  induction hw generalizing d with
  | nil => rfl
  | pair ho _ hc _ ihu ihv =>
    simp [Mark.step, ho, hc, Parser.climb, Parser.climb_append, ihu, ihv]

theorem Leaves.climb (h : Leaves w s) : Parser.climb 0 (w.map Mark.step) =
    if s.closers = [] then some s.openers.length else none := by
  induction h with
  | dyck hu => exact hu.climb 0
  | closer _ hc hv ih =>
    rw [List.map_append, Parser.climb_append, ih]
    split <;> simp [Mark.step, hc, Parser.climb]
  | opener _ ho hv ih =>
    rw [List.map_append, Parser.climb_append, ih]
    split <;> simp [Mark.step, ho, Parser.climb, hv.climb]

theorem Leaves.dyck_of_nil (h : Leaves w s) (hc : s.closers = []) (ho : s.openers = []) :
    Dyck w := by
  cases h with
  | dyck hu => exact hu
  | closer => simp at hc
  | opener => simp at ho

/-- Delimiters form a Dyck word exactly if their steps do. -/
theorem dyck_iff : Dyck w ↔ ∃ d : DyckWord, d.toList = w.map Mark.step := by
  rw [Parser.exists_dyckWord_iff]
  constructor
  · intro h
    exact h.climb 0
  · intro h
    rw [(leaves_remains w).climb] at h
    split at h
    · next hc =>
      exact (leaves_remains w).dyck_of_nil hc (List.length_eq_zero_iff.mp (Option.some.inj h))
    · cases h

end Matching

/-! ## All kinds -/

section Kinds

variable {source : Text} {p : Pair}

/-- The delimiters of one kind, in order. -/
def sequence (p : Pair) (source : Text) : List Mark :=
  (marks 0 0 source).filter (·.pair = p)

/-- The message about a delimiter. -/
def Mark.report (m : Mark) : Text :=
  if m.opens then delimiterMessage "opening" m.pair m.pair.opening m.offset
  else delimiterMessage "closing" m.pair m.pair.closing m.offset

/-- Each kind is matched as if the others were not there. -/
theorem remains_eq_unmatched (p : Pair) (pending : Pending) (ms : List Mark) {s : Remains}
    (h : s.openers.map Mark.offset = pending.get p) :
    ((ms.filter (·.pair = p)).foldl Remains.step s).closers =
        s.closers ++ (unmatched pending ms).1.filter (·.pair = p) ∧
      ((ms.filter (·.pair = p)).foldl Remains.step s).openers.map Mark.offset =
        (unmatched pending ms).2.get p := by
  -- the scan keeps a stack for each kind, and a delimiter of another kind leaves this one alone
  fun_induction unmatched pending ms generalizing s with
  | case1 pending => simpa using h
  | case2 pending m rest ho ih =>
    by_cases hp : m.pair = p
    · subst hp
      rw [List.filter_cons_of_pos (by simp), List.foldl_cons]
      have hstep : s.step m = ⟨s.closers, m :: s.openers⟩ := by simp [Remains.step, ho]
      rw [hstep]
      exact ih (by simp [h])
    · rw [List.filter_cons_of_neg (by simpa using hp)]
      exact ih (by rw [h, Pending.get_set_of_ne _ hp])
  | case3 pending m rest ho offset earlier hget ih =>
    by_cases hp : m.pair = p
    · subst hp
      rw [List.filter_cons_of_pos (by simp), List.foldl_cons]
      rw [hget] at h
      obtain ⟨o, outer, hopeners, -, houter⟩ := List.map_eq_cons_iff.mp h
      have hstep : s.step m = ⟨s.closers, outer⟩ := by simp [Remains.step, ho, hopeners]
      rw [hstep]
      exact ih (by simp [houter])
    · rw [List.filter_cons_of_neg (by simpa using hp)]
      exact ih (by rw [h, Pending.get_set_of_ne _ hp])
  | case4 pending m rest ho hget closers left hrest ih =>
    rw [hrest] at ih
    by_cases hp : m.pair = p
    · subst hp
      rw [List.filter_cons_of_pos (by simp), List.foldl_cons, List.filter_cons_of_pos (by simp)]
      rw [hget, List.map_eq_nil_iff] at h
      have hstep : s.step m = ⟨s.closers ++ [m], []⟩ := by simp [Remains.step, ho, h]
      rw [hstep]
      simpa using ih (s := ⟨s.closers ++ [m], []⟩) (by simp [hget])
    · rw [List.filter_cons_of_neg (by simpa using hp), List.filter_cons_of_neg (by simpa using hp)]
      exact ih h

/-- What remains of each kind is what the check leaves unmatched. -/
theorem remains_sequence (p : Pair) (source : Text) :
    (remains (sequence p source)).closers =
        (unmatched {} (marks 0 0 source)).1.filter (·.pair = p) ∧
      (remains (sequence p source)).openers.map Mark.offset =
        (unmatched {} (marks 0 0 source)).2.get p := by
  have hnone : (({} : Remains).openers.map Mark.offset) = Pending.get {} p := by
    cases p <;> rfl
  exact remains_eq_unmatched p {} (marks 0 0 source) hnone

theorem unmatched_sublist (pending : Pending) (ms : List Mark) :
    (unmatched pending ms).1.Sublist ms := by
  fun_induction unmatched pending ms with
  | case1 pending => exact .slnil
  | case2 pending m rest _ ih => exact ih.cons m
  | case3 pending m rest _ offset earlier _ ih => exact ih.cons m
  | case4 pending m rest _ _ closers left hrest ih =>
    rw [hrest] at ih
    exact ih.cons_cons m

theorem opens_of_mem_unmatched {m : Mark} (hm : m ∈ (unmatched {} (marks 0 0 source)).1) :
    m.opens = false := by
  have hmem : m ∈ (remains (sequence m.pair source)).closers := by
    rw [(remains_sequence m.pair source).1]
    exact List.mem_filter.mpr ⟨hm, decide_eq_true rfl⟩
  exact (leaves_remains _).opens_eq.1 m hmem

theorem filterMap_step?_eq (p : Pair) (source : Text) :
    (marks 0 0 source).filterMap (Mark.step? p) = (sequence p source).map Mark.step := by
  rw [sequence, ← List.filterMap_eq_map, List.filterMap_filter]
  refine List.filterMap_congr fun m _ => ?_
  by_cases hp : m.pair = p <;> simp [Mark.step?, Mark.step, hp]

/-- Nothing is reported about a kind exactly if its sequence is a Dyck word. -/
theorem not_reports_heads_iff_dyck (limit : Number) (source : Text) (p : Pair) :
    ¬ Reports (check limit (.text source)) p.heads ↔ Dyck (sequence p source) := by
  rw [not_reports_heads_iff, filterMap_step?_eq, dyck_iff, Parser.exists_dyckWord_iff]

theorem pair_of_mem_sequence {m : Mark} (hm : m ∈ sequence p source) : m.pair = p :=
  of_decide_eq_true (List.mem_filter.mp hm).2

theorem sequence_pairwise (p : Pair) (source : Text) :
    (sequence p source).Pairwise fun m n => m.offset < n.offset :=
  (marks_pairwise 0 0 source).filter _

/-- Delimiters in order are different. -/
theorem nodup_of_pairwise {w : List Mark} (h : w.Pairwise fun m n => m.offset < n.offset) :
    w.Nodup := by
  refine h.imp ?_
  rintro m n hlt rfl
  exact Nat.lt_irrefl _ hlt

/-! ### Messages -/

/-- How the message about a delimiter begins: all before its offset. -/
def lead (opens : Bool) (p : Pair) : Text :=
  "Unmatched " ++ (if opens then Text.ofString "opening" else Text.ofString "closing") ++ " " ++
    p.name ++ " '" ++ [CodePoint.scalar (if opens then p.opening else p.closing)] ++ "' at offset "

theorem report_eq (m : Mark) : m.report = lead m.opens m.pair ++ Text.ofNat m.offset := by
  unfold Mark.report lead delimiterMessage
  cases m.opens <;> rfl

/-- No such beginning is the beginning of another one. -/
theorem eq_of_startsWith_lead {a b : Bool} {p q : Pair} (h : lead a p <+: lead b q) :
    a = b ∧ p = q := by
  have hall : ∀ a b : Bool, ∀ p ∈ Pair.all, ∀ q ∈ Pair.all, lead a p <+: lead b q →
      a = b ∧ p = q := by decide +kernel
  exact hall a b p (by cases p <;> decide) q (by cases q <;> decide) h

/-- Different delimiters have different messages. -/
theorem report_injective : Function.Injective Mark.report := by
  rintro ⟨i, p, a⟩ ⟨j, q, b⟩ h
  rw [report_eq, report_eq] at h
  have hprefix : lead a p <+: lead b q ++ Text.ofNat j := h ▸ List.prefix_append _ _
  obtain ⟨rfl, rfl⟩ : a = b ∧ p = q := by
    rcases List.prefix_or_prefix_of_prefix hprefix (List.prefix_append _ _) with hp | hp
    · exact eq_of_startsWith_lead hp
    · exact (eq_of_startsWith_lead hp).imp Eq.symm Eq.symm
  have hoffset : i = j := Text.ofNat_inj.mp (List.append_cancel_left h)
  rw [hoffset]

/-- The messages are those about what remains of each kind. -/
theorem delimiterErrors_eq (source : Text) :
    delimiterErrors source = ((unmatched {} (marks 0 0 source)).1 ++
      Pair.all.flatMap fun p => (remains (sequence p source)).openers.reverse).map Mark.report := by
  have hclosers : ∀ m ∈ (unmatched {} (marks 0 0 source)).1,
      delimiterMessage "closing" m.pair m.pair.closing m.offset = m.report := by
    intro m hm
    rw [Mark.report, opens_of_mem_unmatched hm]
    rfl
  have hopeners : ∀ p, ∀ m ∈ (remains (sequence p source)).openers.reverse,
      delimiterMessage "opening" p p.opening m.offset = m.report := by
    intro p m hm
    have hmem := List.mem_reverse.mp hm
    have hopens := (leaves_remains (sequence p source)).opens_eq.2 m hmem
    rw [Mark.report, hopens, pair_of_mem_sequence (mem_of_mem_remains (Or.inr hmem))]
    rfl
  rw [List.map_append, List.map_flatMap]
  refine congrArg₂ _ (List.map_congr_left hclosers) (List.flatMap_congr fun p _ => ?_)
  rw [← (remains_sequence p source).2, ← List.map_reverse, List.map_map]
  exact List.map_congr_left (hopeners p)

theorem openers_sublist (p : Pair) (source : Text) :
    (remains (sequence p source)).openers.reverse.Sublist (sequence p source) :=
  (List.sublist_append_right _ _).trans (leaves_remains _).sublist

/-- No message is given twice. -/
theorem delimiterErrors_nodup (source : Text) : (delimiterErrors source).Nodup := by
  have hclosers : (unmatched {} (marks 0 0 source)).1.Nodup :=
    (nodup_of_pairwise (marks_pairwise 0 0 source)).sublist (unmatched_sublist _ _)
  have hopeners :
      (Pair.all.flatMap fun p => (remains (sequence p source)).openers.reverse).Nodup := by
    refine List.nodup_flatMap.mpr ⟨fun p _ => ?_, ?_⟩
    · exact (nodup_of_pairwise (sequence_pairwise p source)).sublist (openers_sublist p source)
    · have hkinds : Pair.all.Nodup := by decide
      refine hkinds.imp fun {p q} hne m hp hq => hne ?_
      rw [← pair_of_mem_sequence ((openers_sublist p source).subset hp),
        pair_of_mem_sequence ((openers_sublist q source).subset hq)]
  have hdisjoint : ∀ m ∈ (unmatched {} (marks 0 0 source)).1,
      ∀ n ∈ Pair.all.flatMap fun p => (remains (sequence p source)).openers.reverse, m ≠ n := by
    rintro m hm _ hn rfl
    obtain ⟨p, -, hn⟩ := List.mem_flatMap.mp hn
    have hopens := (leaves_remains _).opens_eq.2 m (List.mem_reverse.mp hn)
    rw [opens_of_mem_unmatched hm] at hopens
    cases hopens
  rw [delimiterErrors_eq]
  exact (List.nodup_append.mpr ⟨hclosers, hopeners, hdisjoint⟩).map report_injective

/-- The reported delimiters are those that standard matching leaves over. The delimiters that count
are those at the offsets that the check looks at. Of each kind, the reported ones are exactly those
without a partner in the sequence of their kind, each reported once; without them this sequence is a
Dyck word, and in it the closing ones stand before the opening ones. So nothing is reported about a
kind exactly if its sequence is a Dyck word, however it is mixed with the others. -/
theorem delimiterErrors_exact (source : Text) :
    (∀ m, m ∈ marks 0 0 source ↔ LooksAt source m.offset ∧
      ∃ c, source[m.offset]? = some c ∧ markAt? m.offset c = some m) ∧
    ((marks 0 0 source).Pairwise fun m n => m.offset < n.offset) ∧
    (delimiterErrors source).Nodup ∧
    ∃ (closers : List Mark) (openers : Pair → List Mark),
      delimiterErrors source = (closers ++ Pair.all.flatMap openers).map Mark.report ∧
      closers.Sublist (marks 0 0 source) ∧
      ∀ p, (openers p).Sublist (sequence p source) ∧
        (∀ m, m ∈ closers ∧ m.pair = p ↔
          m ∈ sequence p source ∧ m.opens = false ∧ Alone (sequence p source) m) ∧
        (∀ m, m ∈ openers p ↔
          m ∈ sequence p source ∧ m.opens = true ∧ Alone (sequence p source) m) ∧
        Dyck ((sequence p source).filter fun m => m ∉ closers ∧ m ∉ openers p) ∧
        (∀ c ∈ closers, c.pair = p → ∀ o ∈ openers p, c.offset < o.offset) ∧
        ∀ limit, ¬ Reports (check limit (.text source)) p.heads ↔ Dyck (sequence p source) := by
  refine ⟨fun m => mem_marks_iff, marks_pairwise 0 0 source, delimiterErrors_nodup source,
    (unmatched {} (marks 0 0 source)).1,
    fun p => (remains (sequence p source)).openers.reverse, delimiterErrors_eq source,
    unmatched_sublist _ _, fun p => ?_⟩
  have hnodup := nodup_of_pairwise (sequence_pairwise p source)
  have hclosers : ∀ m, m ∈ (unmatched {} (marks 0 0 source)).1 ∧ m.pair = p ↔
      m ∈ (remains (sequence p source)).closers := by
    intro m
    rw [(remains_sequence p source).1, List.mem_filter, decide_eq_true_iff]
  refine ⟨openers_sublist p source, fun m => (hclosers m).trans (mem_closers_iff hnodup),
    fun m => List.mem_reverse.trans (mem_openers_iff hnodup), ?_, ?_,
    fun limit => not_reports_heads_iff_dyck limit source p⟩
  · have hdyck := (leaves_remains (sequence p source)).dyck_filter hnodup
    rw [List.filter_congr] at hdyck
    · exact hdyck
    · intro m hm
      have hpair := pair_of_mem_sequence hm
      have hclosers := hclosers m
      simp only [hpair, and_true] at hclosers
      simp [hclosers]
  · intro c hc hpair o ho
    have hordered := (sequence_pairwise p source).sublist
      (leaves_remains (sequence p source)).sublist
    exact (List.pairwise_append.mp hordered).2.2 c ((hclosers c).mp ⟨hc, hpair⟩) o ho

-- The brackets are not matched across a kind, and the closing one stands first.
example : delimiterErrors "](\\left(\x7b[)\x7d" =
    ([ "Unmatched closing bracket ']' at offset 0",
      "Unmatched opening bracket '[' at offset 9" ] : List Text) := by decide +kernel

end Kinds

end MathMarkup.InputCheck
