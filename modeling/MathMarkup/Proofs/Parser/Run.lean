import MathMarkup.Proofs.Parser.Derivation
import MathMarkup.Proofs.Parser.Outcome

/-!
# Parses have derivations

Each parser that gives a result has taken the tokens of a derivation of it, and has left the scopes
and the environment as they were (`Took`). An expression stops where it should: at its stop or at
the end of the input.

The parsers are treated in the order of their definitions, under the assumption that the parsers
inside one more scope behave well (`Nested.Follows`); an induction on the number of scopes that may
still be opened discharges it.
-/

namespace MathMarkup.Parser

/-! ## Tokens taken -/

/-- Between the two cursors the tokens `w` were taken and nothing else has changed. -/
structure Took (w : List Token) (c c' : Cursor) : Prop where
  rest : c.rest = w ++ c'.rest
  position : c'.position = c.position + w.length
  scopes : c'.scopes = c.scopes
  environment : c'.environment = c.environment

variable {c c' c'' : Cursor} {v w : List Token}

theorem Took.refl (c : Cursor) : Took [] c c := ⟨rfl, rfl, rfl, rfl⟩

theorem Took.trans (h : Took v c c') (h' : Took w c' c'') : Took (v ++ w) c c'' where
  rest := by rw [h.rest, h'.rest, List.append_assoc]
  position := by rw [h'.position, h.position, List.length_append, Nat.add_assoc]
  scopes := h'.scopes.trans h.scopes
  environment := h'.environment.trans h.environment

theorem took_skip (h : c.rest = w ++ v) : Took w c (c.skip w.length) where
  rest := by rw [Cursor.rest_skip, h, List.drop_left]
  position := rfl
  scopes := rfl
  environment := rfl

theorem took_next {t : Token} {rest : List Token} (h : c.rest = t :: rest) :
    Took [t] c (c.skip 1) :=
  took_skip (w := [t]) h

/-- The log does not count. -/
theorem Took.ofLog {log : Log} (h : Took w { c with log := log } c') : Took w c c' :=
  ⟨h.rest, h.position, h.scopes, h.environment⟩

/-- Tokens taken inside a scope, which is closed behind them. -/
theorem Took.inScope {scope : Scope} {environment : Option Text}
    (h : Took w { c with scopes := scope :: c.scopes, environment := environment } c') :
    Took w c { c' with scopes := c'.scopes.tail, environment := c.environment } where
  rest := h.rest
  position := h.position
  scopes := by
    show c'.scopes.tail = c.scopes
    rw [h.scopes, List.tail_cons]
  environment := rfl

/-- Tokens taken inside a scope together with the one that closes it. -/
theorem Took.closing {scope : Scope} {t : Token} {rest : List Token}
    (h : Took w { c with scopes := scope :: c.scopes } c') (ht : c'.rest = t :: rest) :
    Took (w ++ [t]) c { c'.skip 1 with scopes := (c'.skip 1).scopes.tail } where
  rest := by
    have h' := took_next ht
    rw [h.rest, h'.rest, List.append_assoc]
  position := by
    show c'.position + 1 = _
    rw [h.position, List.length_append, List.length_singleton, Nat.add_assoc]
  scopes := by
    show c'.scopes.tail = c.scopes
    rw [h.scopes, List.tail_cons]
  environment := h.environment

theorem Took.rest_eq (h : Took w c c') (hc : c.rest = w ++ v) : c'.rest = v :=
  List.append_cancel_left (h.rest.symm.trans hc)

theorem Took.length_le (h : Took w c c') : c'.rest.length + w.length = c.rest.length := by
  rw [h.rest, List.length_append, Nat.add_comm]

/-! ## Statements about parsers -/

/-- The parser takes the tokens of a derivation of what it gives. -/
def Follows {α : Type} (s : Setup) (form : α → Form) (p : ParseM α) : Prop :=
  ∀ c, Gives p c fun a c' => ∃ w, Took w c c' ∧ Derives s w (form a)

/-- The input is at its end, or the next token is one to stop at. -/
def AtStop (stop : Stop) (c : Cursor) : Prop :=
  ∀ t rest, c.rest = t :: rest → stop c.position t = true

/-- Nothing but the end of the input ends what does not stop. -/
theorem AtStop.rest_eq_nil (h : AtStop noStop c) : c.rest = [] := by
  cases hc : c.rest with
  | nil => rfl
  | cons t rest => cases h t rest hc

/-- The parser gives the node of siblings that it takes up to a stop. -/
def FollowsTo (s : Setup) (stop : Stop) (p : ParseM Node) : Prop :=
  ∀ c, Gives p c fun n c' => ∃ w done, Took w c c' ∧ Derives s w (.siblings done) ∧
    n = collapseSiblings done ∧ AtStop stop c'

/-- The parsers inside one more scope, if there are any, take the tokens of derivations. -/
def Nested.Follows (s : Setup) (nested : Nested) : Prop :=
  ∀ inside, nested = some inside → (∀ stop, FollowsTo s stop (inside.content stop)) ∧
    Parser.Follows s .optional inside.optional

variable {s : Setup} {nested : Nested}

/-! ## Groups -/

theorem follows_group (hn : nested.Follows s) : Follows s .group (group s nested) := by
  intro c
  unfold group
  refine Outcome.next_bind (fun _ => trivial) fun opening rest hc => ?_
  by_cases hopen : opening.isOpenBrace = true
  · simp only [if_pos hopen]
    refine Outcome.enter_bind (fun _ => trivial) fun inside hi => ?_
    refine Outcome.bind ((hn inside hi).1 stopAtBrace _) ?_
    rintro content c' ⟨w, done, hw, hd, rfl, hstop⟩
    refine Outcome.next_bind (fun _ => trivial) fun closing rest' hc' => ?_
    exact ⟨opening :: (w ++ [closing]), (took_next hc).trans (hw.closing hc'),
      .group hopen hd (hstop closing rest' hc')⟩
  · simp only [if_neg hopen]
    trivial

theorem follows_bracketContent (hn : nested.Follows s) :
    Follows s .brackets (bracketContent s nested) := by
  intro c
  unfold bracketContent
  refine Outcome.next_bind (fun _ => trivial) fun opening rest hc => ?_
  by_cases hopen : opening.isOpenBracket = true
  · simp only [if_pos hopen]
    refine Outcome.enter_bind (fun _ => trivial) fun inside hi => ?_
    refine Outcome.bind ((hn inside hi).1 stopAtBracket _) ?_
    rintro content c' ⟨w, done, hw, hd, rfl, hstop⟩
    refine Outcome.next_bind (fun _ => trivial) fun closing rest' hc' => ?_
    exact ⟨opening :: (w ++ [closing]), (took_next hc).trans (hw.closing hc'),
      .brackets hopen hd (hstop closing rest' hc')⟩
  · simp only [if_neg hopen]
    trivial

theorem follows_optionalArgument (hn : nested.Follows s) :
    Follows s .optional (optionalArgument s nested) := by
  intro c
  unfold optionalArgument
  refine Outcome.peek_bind (fun _ => ⟨[], .refl c, .absent⟩) fun t rest hc => ?_
  by_cases hopen : t.isOpenBracket = true
  · simp only [if_pos hopen]
    refine Outcome.bind (follows_bracketContent hn c) ?_
    rintro content c' ⟨w, hw, hd⟩
    exact ⟨w, hw, .present hd⟩
  · simp only [if_neg hopen]
    exact ⟨[], .refl c, .absent⟩

/-! ## Raw groups -/

/-- The closing brace is found within the tokens up to it. -/
theorem closingBrace?_eq_some {depth : Nat} {tokens : List Token} {closing : Token} {n : Nat}
    (h : closingBrace? depth tokens = some (closing, n)) :
    ∃ body rest, tokens = body ++ closing :: rest ∧ n = body.length + 1 ∧
      closingBrace? depth (body ++ [closing]) = some (closing, n) := by
  induction tokens generalizing depth n with
  | nil => cases h
  | cons t tokens ih =>
    -- A brace that is not the one looked for only changes the depth.
    have step : ∀ {depth'}, (closingBrace? depth' tokens).map (fun x => (x.1, x.2 + 1)) =
        some (closing, n) → ∃ body rest, tokens = body ++ closing :: rest ∧
          n = (t :: body).length + 1 ∧
          (closingBrace? depth' (body ++ [closing])).map (fun x => (x.1, x.2 + 1)) =
            some (closing, n) := by
      intro depth' h'
      obtain ⟨⟨found, m⟩, hm, heq⟩ := Option.map_eq_some_iff.mp h'
      cases heq
      obtain ⟨body, rest, rfl, rfl, hb⟩ := ih hm
      exact ⟨body, rest, rfl, rfl, by rw [hb]; rfl⟩
    unfold closingBrace? at h
    split at h
    · next hopen =>
      obtain ⟨body, rest, rfl, hlen, hb⟩ := step h
      exact ⟨t :: body, rest, rfl, hlen, by simpa [closingBrace?, hopen] using hb⟩
    · next hopen =>
      split at h
      · next hclose =>
        cases depth with
        | zero =>
          cases h
          exact ⟨[], tokens, rfl, rfl, by simp [closingBrace?, hopen, hclose]⟩
        | succ depth =>
          obtain ⟨body, rest, rfl, hlen, hb⟩ := step h
          exact ⟨t :: body, rest, rfl, hlen, by simpa [closingBrace?, hopen, hclose] using hb⟩
      · next hclose =>
        obtain ⟨body, rest, rfl, hlen, hb⟩ := step h
        exact ⟨t :: body, rest, rfl, hlen, by simpa [closingBrace?, hopen, hclose] using hb⟩

theorem gives_rawGroup (c : Cursor) :
    Gives (rawGroup s) c fun content c' => ∃ w, Took w c c' ∧ RawGroup s w content := by
  unfold rawGroup
  simp only [outcome_bind, outcome_get]
  split
  · trivial
  · next opening rest hc =>
    by_cases hopen : opening.isOpenBrace = true
    · simp only [if_pos hopen]
      split
      · trivial
      · next closing n hfound =>
        obtain ⟨body, rest', rfl, rfl, hb⟩ := closingBrace?_eq_some hfound
        have hsplit : c.rest = (opening :: (body ++ [closing])) ++ rest' := by
          rw [hc]
          simp
        have htook : Took (opening :: (body ++ [closing])) c (c.skip (body.length + 1 + 1)) := by
          simpa using took_skip hsplit
        exact ⟨_, htook, opening, body, closing, rfl, hopen, hb, rfl⟩
    · simp only [if_neg hopen]
      trivial

/-! ## Arguments of commands -/

theorem gives_expectGroup (t : Token) (index : Nat) (c : Cursor) :
    Gives (expectGroup t index) c fun _ c' => c' = c ∧
      ∃ t rest, c.rest = t :: rest ∧ t.isOpenBrace = true := by
  unfold expectGroup
  refine Outcome.peek_bind (fun _ => trivial) fun t' rest hc => ?_
  by_cases hopen : t'.isOpenBrace = true
  · simp only [if_pos hopen]
    exact ⟨rfl, t', rest, hc, hopen⟩
  · simp only [if_neg hopen]
    trivial

theorem gives_argument (hn : nested.Follows s) (t : Token) (index : Nat) (c : Cursor) :
    Gives (argument s nested t index) c fun n c' => ∃ w m, Took w c c' ∧ Derives s w (.group m) ∧
      n = m.slot := by
  unfold argument
  refine Outcome.bind (gives_expectGroup t index c) ?_
  rintro _ _ ⟨rfl, _⟩
  refine Outcome.bind (follows_group hn _) ?_
  rintro m c' ⟨w, hw, hd⟩
  exact ⟨w, m, hw, hd, rfl⟩

theorem gives_rawArgument (t : Token) (index : Nat) (c : Cursor) :
    Gives (rawArgument s t index) c fun content c' => ∃ w, Took w c c' ∧ RawGroup s w content := by
  unfold rawArgument
  refine Outcome.bind (gives_expectGroup t index c) ?_
  rintro _ _ ⟨rfl, _⟩
  exact gives_rawGroup _

theorem gives_takeDelimiter (t : Token) (c : Cursor) :
    Gives (takeDelimiter s t) c fun shown c' => ∃ d, Took [d] c c' ∧
      delimiter? s.grammar d = some shown := by
  unfold takeDelimiter
  refine Outcome.next_bind (fun _ => trivial) fun d rest hc => ?_
  dsimp only
  split
  · next shown hd => exact ⟨d, took_next hc, hd⟩
  · trivial

theorem gives_skipOf (c : Cursor) :
    Gives Reading.skipOf c fun _ c' => ∃ w, Took w c c' ∧
      (w = [] ∨ ∃ t, w = [t] ∧ t.isCommand "\\of" = true) := by
  unfold Reading.skipOf
  refine Outcome.peek_bind (fun _ => ⟨[], .refl c, .inl rfl⟩) fun t rest hc => ?_
  by_cases hof : t.isCommand "\\of" = true
  · simp only [if_pos hof, outcome_advance]
    exact ⟨[t], took_next hc, .inr ⟨t, rfl, hof⟩⟩
  · simp only [if_neg hof]
    exact ⟨[], .refl c, .inl rfl⟩

/-- What stands between `\left` and the delimiter behind its `\right`. -/
theorem gives_leftRight (hn : nested.Follows s) (t : Token) (c : Cursor) :
    Gives (leftRight s nested t) c fun n c' => ∃ d w right d' opening done closing,
      Took (d :: (w ++ [right, d'])) c c' ∧ delimiter? s.grammar d = some opening ∧
      Derives s w (.siblings done) ∧ right.isCommand "\\right" = true ∧
      delimiter? s.grammar d' = some closing ∧
      n = pairNode opening (collapseSiblings done) closing := by
  unfold leftRight
  refine Outcome.bind (gives_takeDelimiter t c) ?_
  rintro opening c1 ⟨d, hd, hopening⟩
  refine Outcome.enter_bind (fun _ => trivial) fun inside hi => ?_
  refine Outcome.bind ((hn inside hi).1 stopAtRight _) ?_
  rintro content c2 ⟨w, done, hw, hdone, rfl, hstop⟩
  refine Outcome.next_bind (fun _ => trivial) fun right rest hc2 => ?_
  simp only [outcome_bind, outcome_popScope]
  refine (gives_takeDelimiter right _).weaken ?_
  rintro closing c3 ⟨d', hd', hclosing⟩
  refine ⟨d, w, right, d', opening, done, closing, ?_, hopening, hdone, hstop right rest hc2,
    hclosing, rfl⟩
  have htook := (hd.trans (hw.closing hc2)).trans hd'
  simpa using htook

/-- A command behind its token takes the rest of a derivation. -/
theorem gives_reading (hn : nested.Follows s) {t : Token} {m : Command} (ht : t.kind = .command)
    (hm : s.grammar.commands.get? t.value = some m) (c : Cursor) :
    Gives ((reading s t m).parser s nested t) c fun n c' =>
      ∃ w, Took w c c' ∧ Derives s (t :: w) (.atom n) := by
  cases hr : reading s t m with
  | nothing n => exact ⟨[], .refl c, .plain ht hm hr⟩
  | raw build =>
    refine Outcome.bind (gives_rawArgument t 1 c) ?_
    rintro content c' ⟨w, hw, hraw⟩
    exact ⟨w, hw, .raw ht hm hr hraw⟩
  | one build =>
    refine Outcome.bind (gives_argument hn t 1 c) ?_
    rintro _ c' ⟨w, n, hw, hd, rfl⟩
    exact ⟨w, hw, .one ht hm hr hd⟩
  | two build =>
    refine Outcome.bind (gives_argument hn t 1 c) ?_
    rintro _ c1 ⟨v, n, hv, hd, rfl⟩
    refine Outcome.bind (gives_argument hn t 2 c1) ?_
    rintro _ c2 ⟨w, n', hw, hd', rfl⟩
    exact ⟨v ++ w, hv.trans hw, .two ht hm hr hd hd'⟩
  | delimiter build =>
    refine Outcome.bind (gives_takeDelimiter t c) ?_
    rintro shown c' ⟨d, hd, hshown⟩
    exact ⟨[d], hd, .delimiter ht hm hr hshown⟩
  | squareRoot =>
    refine Outcome.bind (follows_optionalArgument hn c) ?_
    rintro degree c1 ⟨v, hv, hd⟩
    refine Outcome.bind (gives_argument hn t 1 c1) ?_
    rintro _ c2 ⟨w, n, hw, hd', rfl⟩
    exact ⟨v ++ w, hv.trans hw, .squareRoot ht hm hr hd hd'⟩
  | root =>
    refine Outcome.bind (gives_argument hn t 1 c) ?_
    rintro _ c1 ⟨u, n, hu, hd, rfl⟩
    refine Outcome.bind (gives_skipOf c1) ?_
    rintro _ c2 ⟨v, hv, hof⟩
    refine Outcome.bind (gives_argument hn t 2 c2) ?_
    rintro _ c3 ⟨w, n', hw, hd', rfl⟩
    exact ⟨u ++ (v ++ w), hu.trans (hv.trans hw), .root ht hm hr hd hof hd'⟩
  | leftRight =>
    refine (gives_leftRight hn t c).weaken ?_
    rintro _ c' ⟨d, w, right, d', opening, done, closing, hw, hopening, hd, hright, hclosing, rfl⟩
    exact ⟨_, hw, .leftRight ht hm hr hopening hd hright hclosing⟩
  | refused e => trivial

/-! ## Environments -/

theorem readPieces_eq_ok {t opening : Token} {tokens : List Token} {pieces : List Text} {n : Nat}
    (h : readPieces t opening tokens = .ok (pieces, n)) :
    ∃ (run : List Token) (closing : Token) (rest : List Token),
      tokens = run ++ closing :: rest ∧ n = run.length + 1 ∧ (∀ x ∈ run, isNamePiece x = true) ∧
      closing.isCloseBrace = true ∧ pieces = run.map Token.value := by
  induction tokens generalizing pieces n with
  | nil => cases h
  | cons x tokens ih =>
    unfold readPieces at h
    split at h
    · next hclose =>
      cases h
      exact ⟨[], x, tokens, rfl, rfl, by simp, hclose, rfl⟩
    · split at h
      · next hpiece =>
        split at h
        · next more m hmore =>
          cases h
          obtain ⟨run, closing, rest, rfl, rfl, hrun, hclose, rfl⟩ := ih hmore
          refine ⟨x :: run, closing, rest, rfl, rfl, ?_, hclose, rfl⟩
          intro y hy
          rcases List.mem_cons.mp hy with rfl | hy
          · exact hpiece
          · exact hrun y hy
        · cases h
      · cases h

theorem readName_eq_ok {t : Token} {tokens : List Token} {name : Text} {n : Nat}
    (h : readName t tokens = .ok (name, n)) :
    ∃ w rest, tokens = w ++ rest ∧ n = w.length ∧ NameGroup w name := by
  cases tokens with
  | nil => cases h
  | cons opening tokens =>
    simp only [readName] at h
    split at h
    · next hopen =>
      split at h
      · cases h
      · next pieces m hne hpieces =>
        cases h
        obtain ⟨run, closing, rest, rfl, rfl, hrun, hclose, rfl⟩ := readPieces_eq_ok hpieces
        have hrun' : run ≠ [] := by
          rintro rfl
          exact hne rfl
        exact ⟨opening :: (run ++ [closing]), rest, by simp, by simp, opening, run, closing, rfl,
          hopen, hrun', hrun, hclose, rfl⟩
      · cases h
    · cases h

theorem gives_takeName (t : Token) (c : Cursor) :
    Gives (takeName t) c fun name c' => ∃ w, Took w c c' ∧ NameGroup w name := by
  unfold takeName
  simp only [outcome_bind, outcome_get]
  split
  · trivial
  · next name n hread =>
    obtain ⟨w, rest, hc, rfl, hname⟩ := readName_eq_ok hread
    exact ⟨w, took_skip hc, hname⟩

/-- The end that is found stands at its position, behind the tokens scanned and before the name. -/
theorem findEnd_eq_ok {name : Text} {opening closing : Token} {inner : List (Text × Token)}
    {position stop : Nat} {tokens : List Token}
    (h : findEnd name opening inner position tokens = .ok (stop, closing)) :
    ∃ body rest, tokens = body ++ closing :: rest ∧ stop = position + body.length ∧
      closing.isCommand "\\end" = true ∧ ∃ n, scanName? rest = some (name, n) := by
  fun_induction findEnd name opening inner position tokens with
  | case1 => cases h
  | case2 => cases h
  | case3 inner position t rest hbegin hscan ih
  | case4 inner position t rest hbegin other n hscan ih
  | case5 inner position t rest hbegin hend hscan ih
  | case8 position t rest hbegin hend other n token outer hscan ih
  | case10 inner position t rest hbegin hend ih =>
    obtain ⟨body, rest', rfl, rfl, hclose⟩ := ih h
    exact ⟨t :: body, rest', rfl, by rw [List.length_cons]; omega, hclose⟩
  | case6 position t rest hbegin hend n hscan =>
    cases h
    exact ⟨[], rest, rfl, rfl, hend, n, hscan⟩
  | case7 => cases h
  | case9 => cases h

/-- The loop over the cells of a table. The tokens `u` were taken before, and with the next cell
they are read as the rows so far. -/
theorem gives_tableRows {inside : Inside} (hi : ∀ stop, FollowsTo s stop (inside.content stop))
    (ho : Follows s .optional inside.optional) (stop : Nat) {rounds : Nat} {cells : List Node}
    {rows : List (List Node)} {u : List Token} {start c : Cursor} (hrounds : c.rest.length < rounds)
    (hu : Took u start c)
    (hrows : ∀ w done, Derives s w (.siblings done) →
      Derives s (u ++ w) (.rows (collapseSiblings done :: cells) rows)) :
    Gives (tableRows inside stop rounds cells rows) c fun all c' => ∃ w cells' rows',
      Took w start c' ∧ Derives s w (.rows cells' rows') ∧
      all = (cells'.reverse :: rows').reverse := by
  induction rounds generalizing cells rows u c with
  | zero => omega
  | succ rounds ih =>
    unfold tableRows
    refine Outcome.bind (hi (stopAtCell stop) c) ?_
    rintro cell c1 ⟨w, done, hw, hd, rfl, hstop⟩
    have hread := hrows w done hd
    have htook := hu.trans hw
    simp only [outcome_bind, outcome_get]
    cases hc1 : c1.rest with
    | nil => exact ⟨u ++ w, _, rows, htook, hread, rfl⟩
    | cons t rest =>
      by_cases hend : c1.position = stop
      · simp only [if_pos hend]
        exact ⟨u ++ w, _, rows, htook, hread, rfl⟩
      · simp only [if_neg hend, outcome_bind, outcome_advance]
        have hskip := htook.trans (took_next hc1)
        have hlen : (c1.skip 1).rest.length < rounds := by
          have h1 := hw.length_le
          have h2 := (took_next hc1).length_le
          simp only [List.length_singleton] at h2
          omega
        have hsep := hstop t rest hc1
        simp only [stopAtCell, hend, decide_false, Bool.false_or, Bool.or_eq_true] at hsep
        by_cases hrow : isRowSeparator t = true
        · simp only [if_pos hrow]
          refine Outcome.bind (ho _) ?_
          rintro hint c2 ⟨v, hv, hhint⟩
          have hlen' := hv.length_le
          refine ih (by omega) (hskip.trans hv) fun w' done' hd' => ?_
          have hnext := Derives.nextRow hread hrow hhint hd'
          simpa using hnext
        · simp only [if_neg hrow]
          refine ih hlen hskip fun w' done' hd' => ?_
          have hnext := Derives.nextCell hread (hsep.resolve_right hrow) hd'
          simpa using hnext

theorem gives_environmentContent {inside : Inside}
    (hi : ∀ stop, FollowsTo s stop (inside.content stop))
    (ho : Follows s .optional inside.optional) (name argument : Text) (e : Environment)
    (stop : Nat) (c : Cursor) :
    Gives (environmentContent inside name e stop argument) c fun n c' =>
      ∃ w, Took w c c' ∧ Derives s w (.body name e argument n) := by
  have flow : isGrid e = false → Gives (inside.content (stopAt stop) >>= fun content =>
      pure (flowNode name e content)) c fun n c' =>
        ∃ w, Took w c c' ∧ Derives s w (.body name e argument n) := by
    intro he
    refine Outcome.bind (hi (stopAt stop) c) ?_
    rintro content c' ⟨w, done, hw, hd, rfl, _⟩
    exact ⟨w, hw, .flow he hd⟩
  have grid : isGrid e = true → Gives (tableRows inside stop (c.rest.length + 1) [] [] >>=
      fun rows => pure (gridNode e argument rows)) c fun n c' =>
        ∃ w, Took w c c' ∧ Derives s w (.body name e argument n) := by
    intro he
    refine Outcome.bind (gives_tableRows hi ho stop (Nat.lt_succ_self _) (.refl c)
      fun w done hd => .firstCell hd) ?_
    rintro all c' ⟨w, cells, rows, hw, hd, rfl⟩
    exact ⟨w, hw, .grid he hd⟩
  unfold environmentContent
  cases hk : e.kind with
  | display => simpa [flowNode, hk] using flow (by simp [isGrid, hk])
  | container => simpa [flowNode, hk] using flow (by simp [isGrid, hk])
  | table => simpa [gridNode, hk] using grid (by simp [isGrid, hk])
  | fencedTable => simpa [gridNode, hk] using grid (by simp [isGrid, hk])
  | array => simpa [gridNode, hk] using grid (by simp [isGrid, hk])

theorem gives_environmentArgument (name : Text) (opening : Token) (stop : Nat) (c : Cursor) :
    Gives (environmentArgument s name opening stop) c fun argument c' =>
      ∃ w, Took w c c' ∧ RawGroup s w argument := by
  unfold environmentArgument
  simp only [outcome_bind, outcome_get]
  split
  · next t rest hc =>
    split
    · exact gives_rawGroup c
    · trivial
  · trivial

theorem gives_environmentNamed (name : Text) (opening : Token) (c : Cursor) :
    Gives (environmentNamed s name opening) c fun e c' =>
      e = environmentOf s.grammar name ∧ Took [] c c' := by
  unfold environmentNamed environmentOf
  cases hget : s.grammar.environments.get? name with
  | some e => exact ⟨rfl, .refl c⟩
  | none =>
    by_cases hstrict : s.options.strictMode.isTruthy = true
    · simp only [if_pos hstrict]
      trivial
    · simp only [if_neg hstrict]
      exact ⟨rfl, rfl, rfl, rfl, rfl⟩

theorem gives_takeEnd (name : Text) (stop : Nat) (c : Cursor) :
    Gives (takeEnd name stop) c fun _ c' => c.position = stop ∧
      ∃ t rest w, c.rest = t :: rest ∧ Took (t :: w) c c' ∧ NameGroup w name := by
  unfold takeEnd
  refine Outcome.get_bind ?_
  refine Outcome.next_bind (fun _ => trivial) fun t rest hc => ?_
  by_cases hstop : c.position = stop
  · simp only [if_pos hstop]
    refine Outcome.bind (gives_takeName t _) ?_
    rintro closing c' ⟨w, hw, hname⟩
    by_cases hne : closing ≠ name
    · simp only [if_pos hne]
      trivial
    · simp only [if_neg hne]
      rw [Decidable.not_not] at hne
      subst hne
      exact ⟨hstop, t, rest, w, hc, (took_next hc).trans hw, hname⟩
  · simp only [if_neg hstop]
    trivial

theorem gives_environmentArgument? (name : Text) (opening : Token) (e : Environment) (stop : Nat)
    (c : Cursor) :
    Gives (environmentArgument? s name opening e stop) c fun argument c' =>
      ∃ w, Took w c c' ∧ ArgumentGroup s e w argument := by
  unfold environmentArgument? ArgumentGroup
  split
  · exact gives_environmentArgument name opening stop c
  · exact ⟨[], .refl c, rfl, rfl⟩

/-- The argument and the content of an environment are read in a scope of its own. The end stands at
the position given. -/
theorem gives_environmentRest (hn : nested.Follows s) (name : Text) (opening : Token)
    (e : Environment) (stop : Nat) (c : Cursor) :
    Gives (environmentRest s nested name opening e stop) c fun n c' => ∃ a w t v argument,
      Took (a ++ (w ++ t :: v)) c c' ∧ stop = c.position + (a ++ w).length ∧
      ArgumentGroup s e a argument ∧ Derives s w (.body name e argument n) ∧ NameGroup v name := by
  unfold environmentRest
  refine Outcome.enter_bind (fun _ => trivial) fun inside hi => ?_
  refine Outcome.get_bind ?_
  simp only [outcome_bind, outcome_modify]
  refine (gives_environmentArgument? name opening e stop _).weaken ?_
  rintro argument c1 ⟨a, ha, harg⟩
  refine (gives_environmentContent (hn inside hi).1 (hn inside hi).2 name argument e stop c1).weaken
    ?_
  rintro n c2 ⟨w, hw, hd⟩
  have hscope := (ha.trans hw).inScope
  refine (gives_takeEnd name stop _).weaken ?_
  rintro _ c3 ⟨hstop, t, rest, v, hc2, hv, hname⟩
  refine ⟨a, w, t, v, argument, ?_, ?_, harg, hd, hname⟩
  · have htook := hscope.trans hv
    simpa using htook
  · rw [← hstop]
    exact hscope.position

/-- An environment is read from its name up to the end that was looked for behind it, and to the
name of that end. -/
theorem gives_environment (hn : nested.Follows s) (c : Cursor) :
    Gives (environment s nested) c fun n c' => ∃ b v name a u e v' argument,
      b.isCommand "\\begin" = true ∧ NameGroup v name ∧
      findEnd name b [] (c.position + 1 + v.length) (a ++ (u ++ e :: (v' ++ c'.rest))) =
        .ok (c.position + 1 + v.length + (a ++ u).length, e) ∧
      ArgumentGroup s (environmentOf s.grammar name) a argument ∧
      Derives s u (.body name (environmentOf s.grammar name) argument n) ∧ NameGroup v' name ∧
      Took (b :: (v ++ (a ++ (u ++ e :: v')))) c c' := by
  rw [environment_eq]
  refine Outcome.next_bind (fun _ => trivial) fun opening rest hc => ?_
  by_cases hbegin : opening.isCommand "\\begin" = true
  · simp only [if_pos hbegin]
    refine Outcome.bind (gives_takeName opening _) ?_
    rintro name c1 ⟨v, hv, hname⟩
    refine Outcome.bind (gives_environmentNamed name opening c1) ?_
    rintro _ c2 ⟨rfl, hnil⟩
    refine Outcome.get_bind ?_
    cases hfind : findEnd name opening [] c2.position c2.rest with
    | error e => trivial
    | ok found =>
      obtain ⟨stop, closing⟩ := found
      refine Outcome.trace_bind fun log => ?_
      refine (gives_environmentRest hn name opening _ stop _).weaken ?_
      rintro n c3 ⟨a, u, e, v', argument, hw, hstop, harg, hd, hname'⟩
      have hw' : Took (a ++ (u ++ e :: v')) c2 c3 := hw.ofLog
      have hrest : c2.rest = a ++ (u ++ e :: (v' ++ c3.rest)) := by
        rw [hw'.rest]
        simp
      have hopen := (took_next hc).trans (hv.trans hnil)
      have hposition : c2.position = c.position + 1 + v.length := by
        rw [hopen.position, List.append_nil, List.length_append, List.length_singleton,
          Nat.add_assoc]
      -- The token at the position of the end is the end that was looked for.
      obtain ⟨body, rest', hbody, hstop', -⟩ := findEnd_eq_ok hfind
      have hlen : (a ++ u).length = body.length := by
        have hs : c2.position + (a ++ u).length = c2.position + body.length := by
          rw [← hstop', hstop]
        omega
      have hsame : (a ++ u) ++ e :: (v' ++ c3.rest) = body ++ closing :: rest' := by
        rw [← hbody, hrest, List.append_assoc]
      obtain rfl : e = closing := (List.cons.inj (List.append_inj hsame hlen).2).1
      refine ⟨opening, v, name, a, u, e, v', argument, hbegin, hname, ?_, harg, hd, hname', ?_⟩
      · rw [← hposition, ← hrest, hfind, hstop]
      · have htook := hopen.trans hw'
        simpa using htook
  · simp only [if_neg hbegin]
    trivial

theorem follows_environment (hn : nested.Follows s) : Follows s .atom (environment s nested) := by
  intro c
  refine (gives_environment hn c).weaken ?_
  rintro n c' ⟨b, v, name, a, u, e, v', argument, hb, hname, hfind, harg, hd, hname', hw⟩
  obtain ⟨-, -, -, -, hend, -⟩ := findEnd_eq_ok hfind
  exact ⟨_, hw, .environment hb hname harg hd hend hname'⟩

/-! ## Atoms -/

theorem follows_command (hn : nested.Follows s) : Follows s .atom (command s nested) := by
  intro c
  rw [command_eq]
  refine Outcome.peek_bind (fun _ => trivial) fun t rest hc => ?_
  by_cases ht : t.kind = .command
  · simp only [if_pos ht]
    unfold commandAt
    split
    · next hget =>
      unfold unknownCommand
      split
      · trivial
      · have htook := took_next hc
        exact ⟨[t], ⟨htook.rest, htook.position, rfl, rfl⟩, .unknown ht hget⟩
    · exact follows_environment hn c
    · trivial
    · trivial
    · next meaning _ _ _ hget =>
      refine Outcome.advance_bind (Outcome.trace_bind fun log => ?_)
      refine (gives_reading hn ht hget _).weaken ?_
      rintro n c' ⟨w, hw, hd⟩
      exact ⟨t :: w, (took_next hc).trans hw.ofLog, hd⟩
  · simp only [if_neg ht]
    trivial

theorem gives_atomAt (hn : nested.Follows s) {t : Token} {rest : List Token}
    (hc : c.rest = t :: rest) :
    Gives (atomAt s nested t) c fun n c' => ∃ w, Took w c c' ∧ Derives s w (.atom n) := by
  unfold atomAt
  split
  · exact follows_command hn c
  · next ht => exact ⟨[t], took_next hc, .symbol ht⟩
  · next ht => exact ⟨[t], took_next hc, .number ht⟩
  · next ht => exact ⟨[t], took_next hc, .text ht⟩
  · split
    · refine (follows_group hn c).weaken ?_
      rintro n c' ⟨w, hw, hd⟩
      exact ⟨w, hw, .braced hd⟩
    · trivial
  · split
    · unfold bracketGroup
      refine Outcome.bind (follows_bracketContent hn c) ?_
      rintro n c' ⟨w, hw, hd⟩
      exact ⟨w, hw, .bracketed hd⟩
    · trivial
  · trivial

/-- No atom is empty. -/
theorem Derives.atom_ne_nil {n : Node} (h : Derives s w (.atom n)) : w ≠ [] := by
  have key : ∀ {w form}, Derives s w form →
      (∀ n, form = .group n ∨ form = .brackets n ∨ form = .atom n → w ≠ []) := by
    intro w form h
    induction h <;> simp_all
  exact key h n (Or.inr (Or.inr rfl))

theorem gives_atom (hn : nested.Follows s) {t : Token} {rest : List Token}
    (hc : c.rest = t :: rest) :
    Gives (atom s nested) c fun n c' => ∃ w, Took (t :: w) c c' ∧
      Derives s (t :: w) (.placed n) := by
  rw [atom_eq]
  refine Outcome.peek_bind (fun hnil => ?_) fun t' rest' hc' => ?_
  · rw [hc] at hnil
    cases hnil
  · rw [hc] at hc'
    cases hc'
    refine Outcome.trace_bind fun log => ?_
    refine Outcome.bind (gives_atomAt hn hc) ?_
    rintro n c' ⟨w, hw, hd⟩
    -- What was taken starts with the token at the cursor.
    cases w with
    | nil => exact absurd rfl hd.atom_ne_nil
    | cons t' w =>
      have hhead : t :: rest = t' :: (w ++ c'.rest) := by
        rw [← hc]
        exact hw.rest
      cases hhead
      exact ⟨w, hw.ofLog, .placed hd⟩

/-! ## Siblings -/

theorem gives_scriptArgument (hn : nested.Follows s) (stop : Stop) (script : Script)
    (marker : Token) (c : Cursor) :
    Gives (scriptArgument s nested stop script marker) c fun n c' =>
      ∃ w, Took w c c' ∧ Derives s w (.script n) := by
  unfold scriptArgument
  refine Outcome.get_bind ?_
  cases hc : c.rest with
  | nil => trivial
  | cons t rest =>
    dsimp only
    split
    · trivial
    · split
      · refine Outcome.bind (follows_group hn c) ?_
        rintro n c' ⟨w, hw, hd⟩
        exact ⟨w, hw, .group_script hd⟩
      · next hopen =>
        refine (gives_atom hn hc).weaken ?_
        rintro n c' ⟨w, hw, hd⟩
        exact ⟨t :: w, hw, .atom_script (by simpa using hopen) hd⟩

theorem gives_takeScript (hn : nested.Follows s) (stop : Stop) (script : Script) {t : Token}
    {rest : List Token} (hc : c.rest = t :: rest) (done : List Sibling) :
    Gives (takeScript s nested stop script t done) c fun bound c' => ∃ w n, Took (t :: w) c c' ∧
      Derives s w (.script n) ∧ bindScript? script n done = some bound := by
  unfold takeScript
  refine Outcome.advance_bind ?_
  split
  · trivial
  · refine Outcome.bind (gives_scriptArgument hn stop script t _) ?_
    rintro n c' ⟨w, hw, hd⟩
    split
    · next bound hbound => exact ⟨w, n, (took_next hc).trans hw, hd, hbound⟩
    · trivial

/-- A command on the placement of limits changes the siblings and the log. -/
theorem run_takeLimits (movable : Bool) (t : Token) (done : List Sibling) (c : Cursor) :
    ∃ log, (takeLimits movable t done).run c =
      .ok (placeLimits movable done) { c.skip 1 with log := log } := by
  unfold takeLimits placeLimits
  cases done with
  | nil => exact ⟨_, rfl⟩
  | cons latest earlier =>
    cases latest with
    | scripted base scripts => exact ⟨_, rfl⟩
    | atom node =>
      by_cases hname : node.hasName "mo" = true
      · simp only [if_pos hname]
        exact ⟨_, rfl⟩
      · simp only [if_neg hname]
        exact ⟨_, rfl⟩

theorem gives_takeLimits (movable : Bool) {t : Token} {rest : List Token} (hc : c.rest = t :: rest)
    (done : List Sibling) :
    Gives (takeLimits movable t done) c fun done' c' => Took [t] c c' ∧
      done' = placeLimits movable done := by
  obtain ⟨log, hrun⟩ := run_takeLimits movable t done c
  have htook := took_next hc
  unfold Gives Outcome
  rw [hrun]
  exact ⟨⟨htook.rest, htook.position, rfl, rfl⟩, rfl⟩

/-- The loop of an expression. The tokens `u` were taken before and are read as the siblings so far.
As no round is without a token, the rounds do not run out. -/
theorem gives_siblings (hn : nested.Follows s) (stop : Stop) {rounds : Nat} {done : List Sibling}
    {u : List Token} {start c : Cursor} (hrounds : c.rest.length ≤ rounds) (hu : Took u start c)
    (hd : Derives s u (.siblings done)) :
    Gives (siblings s nested stop rounds done) c fun done' c' => ∃ w, Took w start c' ∧
      Derives s w (.siblings done') ∧ AtStop stop c' := by
  induction rounds generalizing done u c with
  | zero =>
    refine ⟨u, hu, hd, fun t rest hc => ?_⟩
    rw [hc] at hrounds
    cases hrounds
  | succ rounds ih =>
    unfold siblings
    refine Outcome.get_bind ?_
    cases hc : c.rest with
    | nil =>
      refine ⟨u, hu, hd, fun t rest hc' => ?_⟩
      rw [hc] at hc'
      cases hc'
    | cons t rest =>
      have fewer : ∀ {w c'}, Took (t :: w) c c' → c'.rest.length ≤ rounds := by
        intro w c' hw
        have hlen := hw.length_le
        rw [List.length_cons] at hlen
        omega
      dsimp only
      split
      · next hstop =>
        refine ⟨u, hu, hd, fun t' rest' hc' => ?_⟩
        rw [hc] at hc'
        cases hc'
        exact hstop
      · split
        · trivial
        · cases hscript : Script.ofToken? t with
          | some script =>
            refine Outcome.bind (gives_takeScript hn stop script hc done) ?_
            rintro bound c' ⟨w, n, hw, hdw, hbound⟩
            exact ih (fewer hw) (hu.trans hw) (.script hd hscript hdw hbound)
          | none =>
            cases hlimits : limits? s.grammar t with
            | some movable =>
              refine Outcome.bind (gives_takeLimits movable hc done) ?_
              rintro done' c' ⟨hw, rfl⟩
              exact ih (fewer hw) (hu.trans hw) (.limits hd hlimits)
            | none =>
              refine Outcome.bind (gives_atom hn hc) ?_
              rintro n c' ⟨w, hw, hdw⟩
              exact ih (fewer hw) (hu.trans hw) (.next hd hdw)

/-! ## Expressions -/

theorem followsTo_expressionWith (hn : nested.Follows s) (stop : Stop) :
    FollowsTo s stop (expressionWith s nested stop) := by
  intro c
  unfold expressionWith
  refine Outcome.get_bind ?_
  refine Outcome.bind (gives_siblings hn stop (Nat.le_refl _) (.refl c) .nothing) ?_
  rintro done c' ⟨w, hw, hd, hstop⟩
  exact ⟨w, done, hw, hd, rfl, hstop⟩

theorem follows_inside (s : Setup) (n : Nat) : (inside s n).Follows s := by
  induction n with
  | zero =>
    intro inside hi
    cases hi
  | succ n ih =>
    intro inside hi
    cases hi
    exact ⟨followsTo_expressionWith ih, follows_optionalArgument ih⟩

theorem followsTo_expression (s : Setup) (stop : Stop) : FollowsTo s stop (expression s stop) := by
  intro c
  exact Outcome.get_bind (followsTo_expressionWith (follows_inside s (allowance s c)) stop c)

theorem allowance_of_ceiling {limit : Nat}
    (hlimit : s.options.maxNestingDepth.number.ceiling? = some limit) (c : Cursor) :
    allowance s c = limit - c.scopes.length := by
  unfold allowance
  rw [hlimit]

/-- The result of a parse is that of an expression over all tokens. -/
theorem value_parse (grammar : Grammar) (options : Options) (source : Text) :
    (parse grammar options source).value =
      match (expression ⟨grammar, options, source⟩ noStop).run
        { rest := Token.tokenize source } with
      | .ok node _ => .ok node
      | .error e _ => .error e := by
  unfold parse
  simp only [Logged.value_bind, Token.tokenizeLogged, Logged.value_pure]
  cases hrun : (expression ⟨grammar, options, source⟩ noStop).run
    { rest := Token.tokenize source } <;> split <;> rfl

/-- A parse that succeeds has a derivation of all its tokens. -/
theorem derives_of_parse {grammar : Grammar} {options : Options} {source : Text} {node : Node}
    (h : (parse grammar options source).value = .ok node) :
    ∃ done, Derives ⟨grammar, options, source⟩ (Token.tokenize source) (.siblings done) ∧
      node = collapseSiblings done := by
  rw [value_parse] at h
  split at h
  · next n c hrun =>
    cases h
    obtain ⟨w, done, hw, hd, hnode, hstop⟩ :=
      outcome_ok (followsTo_expression ⟨grammar, options, source⟩ noStop _) hrun
    have hall : Token.tokenize source = w := by
      have hsplit := hw.rest
      rw [hstop.rest_eq_nil, List.append_nil] at hsplit
      exact hsplit
    exact ⟨done, hall ▸ hd, hnode⟩
  · cases h

end MathMarkup.Parser
