import MathMarkup.Proofs.Parser.Standalone
import MathMarkup.Proofs.Parser.Vanishing

/-!
# Expressions that go on behind other siblings

A loop over siblings that starts with some siblings is compared with one over the same tokens that
starts with none. It fails nowhere where the other one goes on: what a script asks of the latest
sibling is answered alike (`HeadsAlike`). It also leaves the siblings before untouched, and puts the
same ones on top, if two things are excluded (`Behind`). The tokens must not begin with a command on
the placement of limits, and none of the siblings before may be an opening parenthesis, since a run
of siblings in parentheses is looked for backwards.
-/

namespace MathMarkup.Parser

/-! ## Siblings before others -/

/-- The node is no opening parenthesis. -/
def NotOpening (n : Node) : Prop :=
  isParen "(" n = false

/-- None of the siblings is an opening parenthesis. -/
def NoneOpening (done : List Sibling) : Prop :=
  ∀ x ∈ done, NotOpening x.node

variable {done base : List Sibling} {n : Node} {script : Script} {movable : Bool}

/-- Where nothing opens a run there is none. -/
theorem runLength?_eq_none (h : NoneOpening base) (depth : Nat) : runLength? depth base = none := by
  induction base generalizing depth with
  | nil => rfl
  | cons x base ih =>
    obtain ⟨hx, hbase⟩ := List.forall_mem_cons.mp h
    unfold NotOpening at hx
    simp [runLength?, hx, ih hbase]

theorem runLength?_append (h : NoneOpening base) (depth : Nat) (done : List Sibling) :
    runLength? depth (done ++ base) = runLength? depth done := by
  induction done generalizing depth with
  | nil => exact runLength?_eq_none h depth
  | cons x done ih => simp only [List.cons_append, runLength?, ih]

theorem length_of_runLength? {depth k : Nat} (h : runLength? depth done = some k) :
    k ≤ done.length := by
  induction done generalizing depth k with
  | nil => cases h
  | cons x done ih =>
    have further : ∀ {depth'}, (runLength? depth' done).map (· + 1) = some k →
        k ≤ (x :: done).length := by
      intro depth' h
      obtain ⟨k', hk, rfl⟩ := Option.map_eq_some_iff.mp h
      exact Nat.succ_le_succ (ih hk)
    unfold runLength? at h
    split at h
    · exact further h
    · split at h
      · split at h
        · cases h
          exact Nat.succ_le_succ (Nat.zero_le _)
        · exact further h
      · exact further h

theorem foldParens_append (h : NoneOpening base) (hdone : done ≠ []) :
    foldParens (done ++ base) = foldParens done ++ base := by
  cases done with
  | nil => exact absurd rfl hdone
  | cons latest done =>
    have hrun := runLength?_append h 0 (latest :: done)
    rw [List.cons_append] at hrun ⊢
    unfold foldParens
    dsimp only
    rw [hrun]
    split
    · split
      · next k hk =>
        have hle := length_of_runLength? hk
        rw [← List.cons_append, List.take_append_of_le_length hle,
          List.drop_append_of_le_length hle, List.cons_append]
      · rfl
    · rfl

theorem foldParens_ne_nil (hdone : done ≠ []) : foldParens done ≠ [] := by
  cases done with
  | nil => exact absurd rfl hdone
  | cons latest done =>
    unfold foldParens
    dsimp only
    split
    · split <;> simp
    · simp

/-- A script is bound as if there were no siblings before. -/
theorem bindScript?_append (h : NoneOpening base) (hdone : done ≠ []) :
    bindScript? script n (done ++ base) = (bindScript? script n done).map (· ++ base) := by
  cases done with
  | nil => exact absurd rfl hdone
  | cons latest done =>
    cases latest with
    | scripted b scripts =>
      simp only [List.cons_append, bindScript?, Option.map_map]
      rfl
    | atom m =>
      have hfold := foldParens_append h (List.cons_ne_nil (.atom m) done)
      rw [List.cons_append] at hfold ⊢
      simp only [bindScript?, hfold]
      cases hnodes : foldParens (.atom m :: done) with
      | nil => exact absurd hnodes (foldParens_ne_nil (List.cons_ne_nil _ _))
      | cons b earlier => rfl

theorem placeLimits_append (hdone : done ≠ []) :
    placeLimits movable (done ++ base) = placeLimits movable done ++ base := by
  cases done with
  | nil => exact absurd rfl hdone
  | cons latest done =>
    cases latest with
    | scripted b scripts => rfl
    | atom m =>
      simp only [List.cons_append, placeLimits]
      split <;> rfl

/-! ## Relations that the rounds keep -/

/-- The latest siblings are both atoms, or have scripts of the same kinds, or the left run has no
sibling. -/
inductive HeadsAlike : List Sibling → List Sibling → Prop where
  | none {done' : List Sibling} : HeadsAlike [] done'
  | atom {n n' : Node} {done done' : List Sibling} :
    HeadsAlike (.atom n :: done) (.atom n' :: done')
  | scripted {b b' : Node} {scripts scripts' : Scripts} {done done' : List Sibling} :
    ScriptsFit (fun _ _ => True) scripts scripts' →
      HeadsAlike (.scripted b scripts :: done) (.scripted b' scripts' :: done')

/-- The siblings of the right run are those of the left run, of which there is one, and others
before. -/
def Behind (base done done' : List Sibling) : Prop :=
  done ≠ [] ∧ done' = done ++ base

variable {P : Pairing}

theorem carries_headsAlike (hleft : P.Lenient) : Carries P HeadsAlike where
  isEmpty hdone := by
    cases hdone with
    | none => exact Or.inr ⟨rfl, hleft⟩
    | atom | scripted => exact Or.inl rfl
  atom _ _ := .atom
  script {done done' n n'} script hdone _ := by
    cases hdone with
    | none => exact Or.inr ⟨rfl, hleft⟩
    | @atom m m' done done' =>
      have hfold := foldParens_ne_nil (List.cons_ne_nil (.atom m) done)
      have hfold' := foldParens_ne_nil (List.cons_ne_nil (.atom m') done')
      unfold bindScript?
      dsimp only
      generalize foldParens (.atom m :: done) = folded at hfold ⊢
      generalize foldParens (.atom m' :: done') = folded' at hfold' ⊢
      cases folded with
      | nil => exact absurd rfl hfold
      | cons b earlier =>
        cases folded' with
        | nil => exact absurd rfl hfold'
        | cons b' earlier' =>
          exact Or.inl (.some (.scripted (Fitting.single script trivial)))
    | @scripted b b' scripts scripts' done done' hscripts =>
      have hall : Option.Rel (ScriptsFit fun _ _ => True) (scripts.add? script n)
          (scripts'.add? script n') := Fitting.add? hscripts script trivial
      unfold bindScript?
      dsimp only
      generalize scripts.add? script n = all at hall ⊢
      generalize scripts'.add? script n' = all' at hall ⊢
      cases hall with
      | none => exact Or.inl .none
      | some hall => exact Or.inl (.some (.scripted hall))
  limits movable hdone := by
    cases hdone with
    | none => exact .none
    | atom =>
      simp only [placeLimits]
      split <;> split <;> exact .atom
    | scripted hscripts => exact .scripted hscripts

theorem carries_behind (hnode : P.node = Eq) (hbase : NoneOpening base) :
    Carries P (Behind base) where
  isEmpty := by
    rintro done _ ⟨hdone, rfl⟩
    cases done with
    | nil => exact absurd rfl hdone
    | cons x done => exact Or.inl rfl
  atom := by
    rintro done _ n n' ⟨-, rfl⟩ hn
    rw [hnode] at hn
    exact ⟨List.cons_ne_nil _ _, by rw [hn, List.cons_append]⟩
  script := by
    rintro done _ n n' script ⟨hdone, rfl⟩ hn
    rw [hnode] at hn
    left
    rw [← hn, bindScript?_append hbase hdone]
    cases hbind : bindScript? script n done with
    | none => exact .none
    | some bound =>
      obtain ⟨b, scripts, earlier, rfl⟩ := bindScript?_eq_some hbind
      exact .some ⟨List.cons_ne_nil _ _, rfl⟩
  limits := by
    rintro done _ movable ⟨hdone, rfl⟩
    exact ⟨fun h => hdone (placeLimits_eq_nil h), placeLimits_append hdone⟩

/-! ## Runs -/

variable {s : Setup} {m k rounds : Nat} {u v tail : List Token} {all : List Sibling}
  {c d d' : Cursor}

/-- The comparison of the loop over tokens on their own with a loop that meets them at a cursor. No
failure of the second one is excused. -/
abbrev continued (v tail : List Token) (c : Cursor) : Pairing :=
  standalone (fun _ => True) (fun _ => False) Token.place v tail c

theorem alike_continued (hle : k ≤ m) :
    Alike (continued v tail c) s s (inside s k) (inside s m) :=
  alike_standalone (Or.inr fun _ => trivial) (.refl s v) (fun _ _ => trivial) fun hlt =>
    absurd hle (Nat.not_le_of_lt hlt)

theorem stopFits_continued : StopFits (continued v tail c) noStop noStop :=
  stopFits_standalone (fun _ => trivial) fun _ _ h => nomatch h

theorem joined_continued (hc : c.rest = v ++ tail) :
    Joined (continued v tail c) [] { rest := v } c :=
  joined_standalone (by rw [map_moved_eq_self fun _ _ => rfl, hc])

/-- The end of the tokens is the end of both loops. -/
theorem agree_continued_end (rel : List Sibling → List Sibling → Prop) {inner : List Scope}
    {done' : List Sibling} {more : Nat} {d' : Cursor}
    (hj : Joined (continued v [] c) inner d d') (hrel : rel done done') (hat : AtStop noStop d) :
    Agree (continued v [] c) Never (pure done)
      (siblings s (inside s m) noStop more done' >>= pure) d d'
      fun all _ all' _ => rel all all' := by
  have hd' : d'.rest = [] := by
    rw [hj.rest, hat.rest_eq_nil]
    rfl
  exact (Agree.pure hrel).congr rfl (run_siblings_end (atStop_nil hd') pure)

/-- Behind any siblings the loop fails nowhere where it goes on without them. -/
theorem agree_headsAlike (hle : k ≤ m) (hc : c.rest = v) (hrounds : v.length ≤ rounds) :
    Agree (continued v [] c) Never (siblings s (inside s k) noStop v.length [] >>= pure)
      (siblings s (inside s m) noStop rounds base >>= pure) { rest := v } c
      fun _ _ _ _ => True := by
  refine agree_siblings_bind (alike_continued hle) stopFits_continued
    (carries_headsAlike fun _ => trivial) (joined_continued (by rw [hc, List.append_nil])) .none
    (Nat.le_refl _) (by rwa [hc]) fun hj _ hat _ => ?_
  exact agree_continued_end (fun _ _ => True) hj trivial hat

/-- The first round of both loops, where there is no sibling yet on the left. -/
theorem agree_firstSibling (base : List Sibling) (hle : k ≤ m) {t : Token}
    (hj : Joined (continued v tail c) [] d d') (hlimits : limits? s.grammar t = none) :
    Agree (continued v tail c) Never (takeSibling s (inside s k) noStop t [])
      (takeSibling s (inside s m) noStop t base) d d' fun all d all' d' =>
        Joined (continued v tail c) [] d d' ∧ Behind base all all' := by
  unfold takeSibling
  rw [hlimits]
  cases Script.ofToken? t with
  | some script =>
    -- A script has no base on the left.
    refine .of_left ?_
    exact Outcome.advance_bind trivial
  | none =>
    refine .map (paired_atom (alike_continued hle) [] _ _ hj) ?_
    rintro n d _ d' ⟨hj, rfl⟩
    exact ⟨hj, List.cons_ne_nil _ _, rfl⟩

/-- Behind siblings none of which opens a parenthesis the loop adds what it gives without them. -/
theorem agree_behind (hle : k ≤ m) (hbase : NoneOpening base)
    (hlimits : ∀ t ∈ v.head?, limits? s.grammar t = none) (hc : c.rest = v)
    (hrounds : v.length ≤ rounds) :
    Agree (continued v [] c) Never (siblings s (inside s k) noStop v.length [] >>= pure)
      (siblings s (inside s m) noStop rounds base >>= pure) { rest := v } c
      fun all _ all' _ => all' = all ++ base := by
  have hj : Joined (continued v [] c) [] { rest := v } c :=
    joined_continued (by rw [hc, List.append_nil])
  cases hv : v with
  | nil =>
    have hend : ∀ {c : Cursor}, c.rest = v → AtStop noStop c := fun h => atStop_nil (h.trans hv)
    exact (Agree.pure rfl).congr (run_siblings_end (hend hv.symm) pure)
      (run_siblings_end (hend hc) pure)
  | cons t rest =>
    have hrest : ({ rest := v } : Cursor).rest = t :: rest := hv
    have hrest' := hj.rest_cons hrest
    have hlength : v.length = rest.length + 1 := by rw [hv, List.length_cons]
    rw [← hv, hlength]
    cases rounds with
    | zero => omega
    | succ rounds =>
      cases hclose : (Scope.closedBy? t).isSome with
      | true =>
        refine (Agree.of_left ?_).congr (run_siblings_closer hrest rfl hclose pure) rfl
        trivial
      | false =>
        have hfirst := (agree_firstSibling base hle hj (hlimits t (by rw [hv]; rfl))).and_gives
          (gives_takeSibling (follows_inside s k) hrest)
        refine (Agree.bind_never hfirst ?_).congr (run_siblings_cons hrest rfl hclose pure)
          (run_siblings_cons hrest' rfl hclose pure)
        rintro all d all' d' ⟨⟨hj', hall⟩, w, hw⟩
        have hfewer := hw.length_le
        have hsame : d'.rest.length = d.rest.length := hj'.length_rest
        rw [hrest, List.length_cons, List.length_cons] at hfewer
        refine agree_siblings_bind (alike_continued hle) stopFits_continued
          (carries_behind rfl hbase) hj' hall (by omega) (by omega)
          fun hj hrel hat _ => ?_
        exact (agree_continued_end _ hj hrel hat).mono (fun _ h => h) fun _ _ _ _ h => h.2

/-- Where the loop over tokens on their own gives siblings, so does the loop behind others. -/
theorem outcome_continued (hle : k ≤ m)
    (hv : (siblings s (inside s k) noStop v.length []).run { rest := v } = .ok all d)
    (hc : c.rest = v) (hrounds : v.length ≤ rounds) :
    Outcome (siblings s (inside s m) noStop rounds base) c
      (fun all' _ => NoneOpening base → (∀ t ∈ v.head?, limits? s.grammar t = none) →
        all' = all ++ base) fun _ _ => False := by
  rw [← bind_pure (siblings s (inside s k) noStop v.length [])] at hv
  rw [← bind_pure (siblings s (inside s m) noStop rounds base)]
  obtain ⟨all', d', hrun, -⟩ :=
    ((agree_headsAlike hle hc hrounds).right_outcome hv).exists_eq_ok
  unfold Outcome
  rw [hrun]
  intro hbase hlimits
  exact outcome_ok ((agree_behind hle hbase hlimits hc hrounds).right_outcome hv) hrun

/-- The loop over some tokens and others behind them: the first ones give what they give on their
own, and the others are read behind that. -/
theorem outcome_siblings_append {post : List Sibling → List Sibling → Prop} (hle : k ≤ m)
    (hu : (siblings s (inside s k) noStop u.length []).run { rest := u } = .ok all d)
    (hv : ∀ base c rounds, c.rest = v → v.length ≤ rounds →
      Outcome (siblings s (inside s m) noStop rounds base) c (fun all' _ => post base all')
        fun _ _ => False) :
    Outcome (siblings s (inside s m) noStop (u ++ v).length []) { rest := u ++ v }
      (fun all' _ => post all all') fun _ _ => False := by
  have hruns : Agree (continued u v { rest := u ++ v }) Never
      (siblings s (inside s k) noStop u.length [] >>= pure)
      (siblings s (inside s m) noStop (u ++ v).length [] >>= pure) { rest := u } { rest := u ++ v }
      fun base _ all' _ => post base all' := by
    refine agree_siblings_bind (alike_continued hle) stopFits_continued fitting_eq.carries
      (joined_continued rfl) .nil (Nat.le_refl _) (Nat.le_refl _) ?_
    intro base base' d d' more hj hbase hat hmore
    have hd' : d'.rest = v := by
      rw [hj.rest, hat.rest_eq_nil]
      rfl
    obtain rfl := eq_of_siblingsFit hbase
    rw [bind_pure]
    rw [hd'] at hmore
    exact .of_pure (hv base d' more hd' hmore)
  rw [← bind_pure (siblings s (inside s k) noStop u.length [])] at hu
  have hout := hruns.right_outcome hu
  rwa [bind_pure] at hout

end MathMarkup.Parser
