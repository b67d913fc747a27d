import MathMarkup.Proofs.Parser.Lookahead

/-!
# Where failures are placed

A parse that fails says where: its error has the place of a token of the source, and its text is
that of the token or the name of an environment that the token begins. There is one exception. An
environment whose `\end` is hidden in a raw group is found to have an end, but its content is read
up to the end of the input, and the failure to find the `\end` there is placed nowhere
(`locatedAt_of_parse`).

All parsers are treated alike: at a cursor that a parse of the tokens reaches (`Reached`) a parser
fails only in these ways (`Blames`). What a parser takes before it goes on is known from
`MathMarkup.Proofs.Parser.Run`.
-/

namespace MathMarkup

namespace Parser

variable {g : Grammar} {s : Setup} {tokens u v w : List Token} {t : Token} {name : Text}
  {c c' : Cursor} {e : ParseError}

/-! ## Places -/

/-- The token begins the environment `name`. -/
def Begins (tokens : List Token) (name : Text) (t : Token) : Prop :=
  t.isCommand "\\begin" = true ∧
    ∃ before n after, tokens = before ++ t :: (n ++ after) ∧ NameGroup n name

theorem Begins.mono (h : Begins w name t) (hw : w <:+: tokens) : Begins tokens name t := by
  obtain ⟨before, after, rfl⟩ := hw
  obtain ⟨ht, u, n, v, rfl, hname⟩ := h
  exact ⟨ht, before ++ u, n, v ++ after, by simp, hname⟩

theorem Begins.mem (h : Begins tokens name t) : t ∈ tokens := by
  obtain ⟨_, before, n, after, rfl, _⟩ := h
  simp

/-- The error has the place of a token, and the text of the token or of the environment that it
begins. -/
def Placed (tokens : List Token) (e : ParseError) : Prop :=
  ∃ t ∈ tokens, e.place = some t.place ∧ (e.text = t.value ∨ Begins tokens e.text t)

theorem placed_located (ht : t ∈ tokens) (cause : ParseError.Cause) :
    Placed tokens (.located cause t) :=
  ⟨t, ht, rfl, Or.inl rfl⟩

theorem placed_named (h : Begins tokens name t) (cause : ParseError.Cause) :
    Placed tokens (.named cause name t) :=
  ⟨t, h.mem, rfl, Or.inr h⟩

/-- The error that an `\end` is missing at the end of the input, while one is in a raw group. -/
def EndHidden (g : Grammar) (tokens : List Token) (e : ParseError) : Prop :=
  RawEnd g tokens ∧ ∃ name, e = ⟨.expectedEnd name none, [], none⟩

/-- The ways in which parsers fail. -/
def Fault (g : Grammar) (tokens : List Token) (e : ParseError) : Prop :=
  Placed tokens e ∨ EndHidden g tokens e

theorem fault_located (ht : t ∈ tokens) (cause : ParseError.Cause) :
    Fault g tokens (.located cause t) :=
  Or.inl (placed_located ht cause)

theorem fault_named (h : Begins tokens name t) (cause : ParseError.Cause) :
    Fault g tokens (.named cause name t) :=
  Or.inl (placed_named h cause)

/-! ## Cursors -/

/-- The scope was opened by a token, which begins an environment if the scope is one. -/
def Opened (tokens : List Token) (scope : Scope) : Prop :=
  scope.token ∈ tokens ∧ (scope.kind = .environment → Begins tokens scope.name scope.token)

theorem opened_of_kind (ht : t ∈ tokens) {kind : Scope.Kind} (hk : kind ≠ .environment)
    (name : Text) : Opened tokens ⟨kind, name, t⟩ :=
  ⟨ht, fun h => absurd h hk⟩

/-- A cursor that a parse of the tokens reaches. -/
structure Reached (tokens : List Token) (c : Cursor) : Prop where
  rest : c.rest <:+ tokens
  scopes : ∀ scope ∈ c.scopes, Opened tokens scope

namespace Reached

theorem mem (h : Reached tokens c) (hc : c.rest = t :: w) : t ∈ tokens :=
  h.rest.subset (by rw [hc]; exact List.mem_cons_self)

theorem took (h : Reached tokens c) (hw : Took w c c') : Reached tokens c' where
  rest := by
    have hsuffix : c'.rest <:+ c.rest := ⟨w, hw.rest.symm⟩
    exact hsuffix.trans h.rest
  scopes := by
    rw [hw.scopes]
    exact h.scopes

theorem skip (h : Reached tokens c) (n : Nat) : Reached tokens (c.skip n) where
  rest := (List.drop_suffix n c.rest).trans h.rest
  scopes := h.scopes

/-- Inside a scope that a token has opened. -/
theorem push (h : Reached tokens c) {scope : Scope} (hscope : Opened tokens scope)
    (hr : c'.rest = c.rest) (hs : c'.scopes = scope :: c.scopes) : Reached tokens c' where
  rest := by
    rw [hr]
    exact h.rest
  scopes := by
    rw [hs]
    intro other hother
    rcases List.mem_cons.mp hother with rfl | hother
    · exact hscope
    · exact h.scopes other hother

/-- Only the tokens and the scopes count. -/
theorem congr (h : Reached tokens c) (hr : c'.rest = c.rest) (hs : c'.scopes = c.scopes) :
    Reached tokens c' where
  rest := by
    rw [hr]
    exact h.rest
  scopes := by
    rw [hs]
    exact h.scopes

end Reached

theorem fault_misplaced {scopes : List Scope} (h : ∀ scope ∈ scopes, Opened tokens scope)
    (ht : t ∈ tokens) : Fault g tokens (Scope.misplaced scopes t) := by
  have hstray : ∀ kind, Fault g tokens (Scope.stray kind t) := by
    intro kind
    unfold Scope.stray
    split <;> exact fault_located ht _
  unfold Scope.misplaced
  split
  · next kind innermost outer _ =>
    split
    · obtain ⟨hmem, hbegins⟩ := h innermost List.mem_cons_self
      unfold Scope.unclosed
      split
      · exact fault_located hmem _
      · exact fault_located hmem _
      · next hkind => exact fault_named (hbegins hkind) _
      · exact fault_located hmem _
      · exact fault_located hmem _
    · exact hstray _
  · exact hstray _

/-! ## Statements about parsers -/

/-- A parser fails at a cursor only in the known ways. -/
abbrev Blames {α : Type} (g : Grammar) (tokens : List Token) (p : ParseM α) (c : Cursor) : Prop :=
  Outcome p c (fun _ _ => True) fun e _ => Fault g tokens e

/-- The parsers inside one more scope, if there are any, fail only in the known ways. -/
def Nested.Blames (g : Grammar) (tokens : List Token) (nested : Nested) : Prop :=
  ∀ inside, nested = some inside → ∀ c, Reached tokens c →
    (∀ stop, Parser.Blames g tokens (inside.content stop) c) ∧
      Parser.Blames g tokens inside.optional c

variable {nested : Nested}

/-! ## Groups -/

theorem blames_enclosed {opens closes : Token → Bool} {kind : Scope.Kind} {name : Text}
    {expected unclosed : ParseError.Cause} (hkind : kind ≠ .environment)
    (hn : nested.Blames g tokens) (hf : nested.Follows s) (hc : Reached tokens c)
    (hrest : c.rest = t :: w) :
    Blames g tokens (enclosed s nested opens closes kind name expected unclosed) c := by
  have ht := hc.mem hrest
  unfold enclosed
  refine Outcome.next_bind (fun hnil => ?_) fun opening rest hcons => ?_
  · rw [hrest] at hnil
    cases hnil
  · rw [hrest] at hcons
    cases hcons
    by_cases hopen : opens t = true
    · simp only [if_pos hopen]
      refine Outcome.enter_bind (fun _ => fault_located ht _) fun inside hi => ?_
      have hin : Reached tokens { c.skip 1 with scopes := ⟨kind, name, t⟩ :: c.scopes } :=
        (hc.skip 1).push (opened_of_kind ht hkind _) rfl rfl
      refine Outcome.bind_gives ((hn inside hi _ hin).1 _) ((hf inside hi).1 _ _) ?_
      intro content c' _
      exact Outcome.next_bind (fun _ => fault_located ht _) fun _ _ _ => trivial
    · simp only [if_neg hopen]
      exact fault_located ht _

theorem blames_group (hn : nested.Blames g tokens) (hf : nested.Follows s)
    (hc : Reached tokens c) (hrest : c.rest = t :: w) : Blames g tokens (group s nested) c := by
  rw [group_eq]
  exact blames_enclosed (by decide) hn hf hc hrest

theorem blames_bracketContent (hn : nested.Blames g tokens) (hf : nested.Follows s)
    (hc : Reached tokens c) (hrest : c.rest = t :: w) :
    Blames g tokens (bracketContent s nested) c := by
  rw [bracketContent_eq]
  exact blames_enclosed (by decide) hn hf hc hrest

theorem blames_optionalArgument (hn : nested.Blames g tokens) (hf : nested.Follows s)
    (hc : Reached tokens c) : Blames g tokens (optionalArgument s nested) c := by
  unfold optionalArgument
  refine Outcome.peek_bind (fun _ => trivial) fun t rest hrest => ?_
  by_cases hopen : t.isOpenBracket = true
  · simp only [if_pos hopen]
    exact (blames_bracketContent hn hf hc hrest).map
  · simp only [if_neg hopen]
    trivial

theorem blames_rawGroup (hc : Reached tokens c) (hrest : c.rest = t :: w) :
    Blames g tokens (rawGroup s) c := by
  have ht := hc.mem hrest
  unfold rawGroup
  refine Outcome.get_bind ?_
  rw [hrest]
  dsimp only
  by_cases hopen : t.isOpenBrace = true
  · simp only [if_pos hopen]
    split
    · exact fault_located ht _
    · trivial
  · simp only [if_neg hopen]
    exact fault_located ht _

/-! ## Arguments of commands -/

theorem blames_expectGroup (ht : t ∈ tokens) (index : Nat) :
    Blames g tokens (expectGroup t index) c := by
  unfold expectGroup
  refine Outcome.peek_bind (fun _ => fault_located ht _) fun t' rest _ => ?_
  by_cases hopen : t'.isOpenBrace = true
  · simp only [if_pos hopen]
    trivial
  · simp only [if_neg hopen]
    exact fault_located ht _

theorem blames_argument (hn : nested.Blames g tokens) (hf : nested.Follows s)
    (hc : Reached tokens c) (ht : t ∈ tokens) (index : Nat) :
    Blames g tokens (argument s nested t index) c := by
  unfold argument
  refine Outcome.bind_gives (blames_expectGroup ht index) (gives_expectGroup t index c) ?_
  rintro _ _ ⟨rfl, t', rest, hrest, _⟩
  exact (blames_group hn hf hc hrest).map

theorem blames_rawArgument (hc : Reached tokens c) (ht : t ∈ tokens) (index : Nat) :
    Blames g tokens (rawArgument s t index) c := by
  unfold rawArgument
  refine Outcome.bind_gives (blames_expectGroup ht index) (gives_expectGroup t index c) ?_
  rintro _ _ ⟨rfl, t', rest, hrest, _⟩
  exact blames_rawGroup hc hrest

theorem blames_takeDelimiter (hc : Reached tokens c) (ht : t ∈ tokens) :
    Blames g tokens (takeDelimiter s t) c := by
  unfold takeDelimiter
  refine Outcome.next_bind (fun _ => fault_located ht _) fun d rest hrest => ?_
  dsimp only
  split
  · trivial
  · exact fault_located (hc.mem hrest) _

theorem blames_leftRight (hn : nested.Blames g tokens) (hf : nested.Follows s)
    (hc : Reached tokens c) (ht : t ∈ tokens) : Blames g tokens (leftRight s nested t) c := by
  unfold leftRight
  refine Outcome.bind_gives (blames_takeDelimiter hc ht) (gives_takeDelimiter t c) ?_
  rintro opening c1 ⟨d, hd, _⟩
  have hc1 := hc.took hd
  refine Outcome.enter_bind (fun _ => fault_located ht _) fun inside hi => ?_
  have hin : Reached tokens { c1 with scopes := ⟨.left, t.value, t⟩ :: c1.scopes } :=
    hc1.push (opened_of_kind ht (by decide) _) rfl rfl
  refine Outcome.bind_gives ((hn inside hi _ hin).1 stopAtRight) ((hf inside hi).1 stopAtRight _) ?_
  rintro content c2 ⟨w, done, hw, _⟩
  have hc2 := hin.took hw
  refine Outcome.next_bind (fun _ => fault_located ht _) fun right rest hrest => ?_
  simp only [outcome_bind, outcome_popScope]
  refine (blames_takeDelimiter ?_ (hc2.mem hrest)).weaken fun _ _ _ => trivial
  exact ⟨(hc2.skip 1).rest, fun scope hscope => hc2.scopes scope (List.mem_of_mem_tail hscope)⟩

theorem blames_reading (hn : nested.Blames g tokens) (hf : nested.Follows s)
    (hc : Reached tokens c) (ht : t ∈ tokens) (m : Command) :
    Blames g tokens ((reading s t m).parser s nested t) c := by
  cases hr : reading s t m with
  | nothing n => trivial
  | raw build => exact (blames_rawArgument hc ht 1).map
  | one build => exact (blames_argument hn hf hc ht 1).map
  | two build =>
    refine Outcome.bind_gives (blames_argument hn hf hc ht 1) (gives_argument hf t 1 c) ?_
    rintro _ c1 ⟨v, _, hv, _⟩
    exact (blames_argument hn hf (hc.took hv) ht 2).map
  | delimiter build => exact (blames_takeDelimiter hc ht).map
  | squareRoot =>
    refine Outcome.bind_gives (blames_optionalArgument hn hf hc) (follows_optionalArgument hf c) ?_
    rintro degree c1 ⟨v, hv, _⟩
    exact (blames_argument hn hf (hc.took hv) ht 1).map
  | root =>
    refine Outcome.bind_gives (blames_argument hn hf hc ht 1) (gives_argument hf t 1 c) ?_
    rintro _ c1 ⟨u, _, hu, _⟩
    have hskip : Blames g tokens Reading.skipOf c1 := by
      unfold Reading.skipOf
      refine Outcome.peek_bind (fun _ => trivial) fun t' _ _ => ?_
      dsimp only
      split <;> trivial
    refine Outcome.bind_gives hskip (gives_skipOf c1) ?_
    rintro _ c2 ⟨v, hv, _⟩
    exact (blames_argument hn hf ((hc.took hu).took hv) ht 2).map
  | leftRight => exact blames_leftRight hn hf hc ht
  | refused e =>
    have hlocated : ∃ cause, e = .located cause t := by
      cases m <;> cases hr <;> exact ⟨_, rfl⟩
    obtain ⟨cause, rfl⟩ := hlocated
    exact fault_located ht cause

/-! ## Names -/

theorem placed_readPieces {command opening : Token} (hopening : opening ∈ tokens)
    (hw : ∀ x ∈ w, x ∈ tokens) (h : readPieces command opening w = .error e) : Placed tokens e := by
  induction w generalizing e with
  | nil =>
    cases h
    exact placed_located hopening _
  | cons x w ih =>
    have hx := hw x List.mem_cons_self
    unfold readPieces at h
    split at h
    · cases h
    · split at h
      · split at h
        · cases h
        · next e' hmore =>
          cases h
          exact ih (fun y hy => hw y (List.mem_cons_of_mem _ hy)) hmore
      · cases h
        exact placed_located hx _

theorem placed_readName (ht : t ∈ tokens) (hw : ∀ x ∈ w, x ∈ tokens)
    (h : readName t w = .error e) : Placed tokens e := by
  cases w with
  | nil =>
    cases h
    exact placed_located ht _
  | cons opening w =>
    have hopening := hw opening List.mem_cons_self
    simp only [readName] at h
    split at h
    · split at h
      · cases h
        exact placed_located hopening _
      · cases h
      · next e' hmore =>
        cases h
        exact placed_readPieces hopening (fun y hy => hw y (List.mem_cons_of_mem _ hy)) hmore
    · cases h
      exact placed_located hopening _

theorem blames_takeName (hc : Reached tokens c) (ht : t ∈ tokens) :
    Blames g tokens (takeName t) c := by
  unfold takeName
  refine Outcome.get_bind ?_
  split
  · next e' hread => exact Or.inl (placed_readName ht (fun _ hx => hc.rest.subset hx) hread)
  · trivial

/-! ## The scan for the end of an environment -/

/-- What begins an environment is followed by its name. -/
theorem begins_of_scanName? {rest : List Token} {n : Nat} (hsuffix : t :: rest <:+ tokens)
    (ht : t.isCommand "\\begin" = true) (h : scanName? rest = some (name, n)) :
    Begins tokens name t := by
  obtain ⟨before, rfl⟩ := hsuffix
  obtain ⟨w, after, rfl, -, hname⟩ := scanName?_eq_some_iff.mp h
  exact ⟨ht, before, w, after, rfl, hname⟩

theorem placed_findEnd {opening : Token} {inner : List (Text × Token)} {position : Nat}
    (hopening : Begins tokens name opening) (hinner : ∀ p ∈ inner, Begins tokens p.1 p.2)
    (hw : w <:+ tokens) (h : findEnd name opening inner position w = .error e) :
    Placed tokens e := by
  fun_induction findEnd name opening inner position w with
  | case1 other token =>
    cases h
    exact placed_named (hinner _ List.mem_cons_self) _
  | case2 =>
    cases h
    exact placed_named hopening _
  | case3 inner position t rest hbegin hscan ih =>
    exact ih hinner ((List.suffix_cons t rest).trans hw) h
  | case4 inner position t rest hbegin other n hscan ih =>
    refine ih ?_ ((List.suffix_cons t rest).trans hw) h
    intro p hp
    rcases List.mem_cons.mp hp with rfl | hp
    · exact begins_of_scanName? hw hbegin hscan
    · exact hinner p hp
  | case5 inner position t rest hbegin hend hscan ih =>
    exact ih hinner ((List.suffix_cons t rest).trans hw) h
  | case6 => cases h
  | case7 =>
    cases h
    exact placed_named hopening _
  | case8 position t rest hbegin hend other n token outer hscan ih =>
    exact ih (fun p hp => hinner p (List.mem_cons_of_mem _ hp))
      ((List.suffix_cons t rest).trans hw) h
  | case9 =>
    cases h
    exact placed_named (hinner _ List.mem_cons_self) _
  | case10 inner position t rest hbegin hend ih =>
    exact ih hinner ((List.suffix_cons t rest).trans hw) h

/-! ## Environments -/

theorem blames_tableRows {inside : Inside}
    (hn : ∀ c, Reached tokens c → (∀ stop, Blames g tokens (inside.content stop) c) ∧
      Blames g tokens inside.optional c)
    (hi : ∀ stop, FollowsTo s stop (inside.content stop))
    (ho : Follows s .optional inside.optional) (stop : Nat) {rounds : Nat} {cells : List Node}
    {rows : List (List Node)} (hc : Reached tokens c) :
    Blames g tokens (tableRows inside stop rounds cells rows) c := by
  induction rounds generalizing cells rows c with
  | zero => trivial
  | succ rounds ih =>
    unfold tableRows
    refine Outcome.bind_gives ((hn c hc).1 (stopAtCell stop)) (hi (stopAtCell stop) c) ?_
    rintro cell c1 ⟨w, done, hw, _⟩
    have hc1 := hc.took hw
    refine Outcome.get_bind ?_
    cases hrest : c1.rest with
    | nil => trivial
    | cons t rest =>
      by_cases hend : c1.position = stop
      · simp only [if_pos hend]
        trivial
      · simp only [if_neg hend]
        refine Outcome.advance_bind ?_
        by_cases hrow : isRowSeparator t = true
        · simp only [if_pos hrow]
          refine Outcome.bind_gives (hn _ (hc1.skip 1)).2 (ho _) ?_
          rintro hint c2 ⟨v, hv, _⟩
          exact ih ((hc1.skip 1).took hv)
        · simp only [if_neg hrow]
          exact ih (hc1.skip 1)

theorem blames_environmentContent {inside : Inside}
    (hn : ∀ c, Reached tokens c → (∀ stop, Blames g tokens (inside.content stop) c) ∧
      Blames g tokens inside.optional c)
    (hi : ∀ stop, FollowsTo s stop (inside.content stop))
    (ho : Follows s .optional inside.optional) (name argument : Text) (e : Environment)
    (stop : Nat) (hc : Reached tokens c) :
    Blames g tokens (environmentContent inside name e stop argument) c := by
  have flow := (hn c hc).1 (stopAt stop)
  have grid : Blames g tokens (tableRows inside stop (c.rest.length + 1) [] []) c :=
    blames_tableRows hn hi ho stop hc
  unfold environmentContent
  cases e.kind with
  | display | container => exact flow.map
  | table | fencedTable | array => exact Outcome.get_bind grid.map

theorem blames_environmentArgument? (hc : Reached tokens c) (hbegins : Begins tokens name t)
    (e : Environment) (stop : Nat) :
    Blames g tokens (environmentArgument? s name t e stop) c := by
  unfold environmentArgument?
  split
  · unfold environmentArgument
    refine Outcome.get_bind ?_
    split
    · next opening rest hrest =>
      split
      · exact blames_rawGroup hc hrest
      · exact fault_named hbegins _
    · exact fault_named hbegins _
  · trivial

theorem blames_environmentNamed (hbegins : Begins tokens name t) :
    Blames g tokens (environmentNamed s name t) c := by
  unfold environmentNamed
  split
  · trivial
  · split
    · exact fault_named hbegins _
    · trivial

/-- At the end of the input the `\end` is missing. -/
theorem blames_takeEnd (hc : Reached tokens c) (stop : Nat)
    (hhidden : c.rest = [] → RawEnd g tokens) : Blames g tokens (takeEnd name stop) c := by
  unfold takeEnd
  refine Outcome.get_bind ?_
  refine Outcome.next_bind (fun hnil => Or.inr ⟨hhidden hnil, name, rfl⟩) fun t rest hrest => ?_
  have ht := hc.mem hrest
  by_cases hstop : c.position = stop
  · simp only [if_pos hstop]
    refine Outcome.bind (blames_takeName (hc.skip 1) ht) ?_
    intro closing c' _
    split
    · exact fault_located ht _
    · trivial
  · simp only [if_neg hstop]
    exact fault_located ht _

theorem blames_environmentRest (hg : s.grammar.Regular) (hn : nested.Blames s.grammar tokens)
    (hf : nested.Follows s) {before n : List Token} {opening : Token} {found : Nat × Token}
    (hc : Reached tokens c) (hb : opening.isCommand "\\begin" = true)
    (hbefore : tokens = before ++ opening :: (n ++ c.rest)) (hname : NameGroup n name)
    (hfind : findEnd name opening [] c.position c.rest = .ok found) :
    Blames s.grammar tokens
      (environmentRest s nested name opening (environmentOf s.grammar name) found.1) c := by
  have hbegins : Begins tokens name opening := ⟨hb, before, n, c.rest, hbefore, hname⟩
  unfold environmentRest
  refine Outcome.enter_bind (fun _ => fault_located hbegins.mem _) fun inside hi => ?_
  refine Outcome.get_bind ?_
  simp only [outcome_bind, outcome_modify]
  have hin : Reached tokens { c with
      scopes := ⟨.environment, name, opening⟩ :: c.scopes, environment := some name } :=
    hc.push ⟨hbegins.mem, fun _ => hbegins⟩ rfl rfl
  refine ((blames_environmentArgument? hin hbegins _ found.1).and_gives
    (gives_environmentArgument? name opening _ found.1 _)).weaken ?_
  rintro argument c1 ⟨-, a, ha, harg⟩
  have hc1 := hin.took ha
  refine ((blames_environmentContent (hn inside hi) (hf inside hi).1 (hf inside hi).2 name argument
    _ found.1 hc1).and_gives (gives_environmentContent (hf inside hi).1 (hf inside hi).2 name
      argument _ found.1 c1)).weaken ?_
  rintro node c2 ⟨-, w, hw, hd⟩
  have hc2 := hc1.took hw
  have hout : Reached tokens { c2 with scopes := c2.scopes.tail, environment := c.environment } :=
    ⟨hc2.rest, fun scope hscope => hc2.scopes scope (List.mem_of_mem_tail hscope)⟩
  simp only [outcome_popScope]
  refine (blames_takeEnd hout found.1 fun hnil => ?_).weaken fun _ _ _ => trivial
  · have hrest : c.rest = a ++ w := by
      have htook := (ha.trans hw).rest
      rw [hnil, List.append_nil] at htook
      exact htook
    rw [hrest] at hfind hbefore
    rw [hbefore]
    exact (rawEnd_of_findEnd hg hb hname harg hd hfind).append_left before

theorem blames_environment (hg : s.grammar.Regular) (hn : nested.Blames s.grammar tokens)
    (hf : nested.Follows s) (hc : Reached tokens c) (hrest : c.rest = t :: w) :
    Blames s.grammar tokens (environment s nested) c := by
  have ht := hc.mem hrest
  rw [environment_eq]
  refine Outcome.next_bind (fun hnil => ?_) fun opening rest hcons => ?_
  · rw [hrest] at hnil
    cases hnil
  · rw [hrest] at hcons
    cases hcons
    by_cases hb : t.isCommand "\\begin" = true
    · simp only [if_pos hb]
      refine Outcome.bind_gives (blames_takeName (hc.skip 1) ht) (gives_takeName t _) ?_
      rintro name c1 ⟨n, htook, hname⟩
      have hc1 := (hc.skip 1).took htook
      obtain ⟨before, hbefore⟩ := hc.rest
      have hsplit : tokens = before ++ t :: (n ++ c1.rest) := by
        have hall := ((took_next hrest).trans htook).rest
        rw [← hbefore, hall]
        rfl
      have hbegins : Begins tokens name t := ⟨hb, before, n, c1.rest, hsplit, hname⟩
      refine Outcome.bind_gives (blames_environmentNamed hbegins)
        (gives_environmentNamed name t c1) ?_
      rintro e c2 ⟨rfl, hnil⟩
      have hc2 := hc1.took hnil
      refine Outcome.get_bind ?_
      cases hfind : findEnd name t [] c2.position c2.rest with
      | error e => exact Or.inl (placed_findEnd hbegins (by simp) hc2.rest hfind)
      | ok found =>
        refine Outcome.trace_bind fun log => ?_
        have hsame : c1.rest = c2.rest := hnil.rest
        rw [hsame] at hsplit
        exact blames_environmentRest hg hn hf (hc2.congr rfl rfl) hb hsplit hname hfind
    · simp only [if_neg hb]
      exact fault_located ht _

/-! ## Atoms -/

theorem blames_command (hg : s.grammar.Regular) (hn : nested.Blames s.grammar tokens)
    (hf : nested.Follows s) (hc : Reached tokens c) (hrest : c.rest = t :: w) :
    Blames s.grammar tokens (command s nested) c := by
  have ht := hc.mem hrest
  rw [command_eq]
  refine Outcome.peek_bind (fun hnil => ?_) fun t' rest hcons => ?_
  · rw [hrest] at hnil
    cases hnil
  · rw [hrest] at hcons
    cases hcons
    dsimp only
    split
    · unfold commandAt
      split
      · unfold unknownCommand
        split
        · exact fault_located ht _
        · trivial
      · exact blames_environment hg hn hf hc hrest
      · exact fault_misplaced hc.scopes ht
      · exact fault_located ht _
      · next m _ _ _ _ =>
        refine Outcome.advance_bind (Outcome.trace_bind fun log => ?_)
        have hlog : Reached tokens { c.skip 1 with log := log } := (hc.skip 1).congr rfl rfl
        exact blames_reading hn hf hlog ht m
    · exact fault_located ht _

theorem blames_atomAt (hg : s.grammar.Regular) (hn : nested.Blames s.grammar tokens)
    (hf : nested.Follows s) (hc : Reached tokens c) (hrest : c.rest = t :: w) :
    Blames s.grammar tokens (atomAt s nested t) c := by
  have ht := hc.mem hrest
  unfold atomAt
  split
  · exact blames_command hg hn hf hc hrest
  · trivial
  · trivial
  · trivial
  · split
    · exact blames_group hn hf hc hrest
    · exact fault_misplaced hc.scopes ht
  · split
    · exact (blames_bracketContent hn hf hc hrest).map
    · exact fault_misplaced hc.scopes ht
  · exact fault_located ht _

theorem blames_atom (hg : s.grammar.Regular) (hn : nested.Blames s.grammar tokens)
    (hf : nested.Follows s) (hc : Reached tokens c) (hrest : c.rest = t :: w) :
    Blames s.grammar tokens (atom s nested) c := by
  rw [atom_eq]
  refine Outcome.peek_bind (fun hnil => ?_) fun t' rest hcons => ?_
  · rw [hrest] at hnil
    cases hnil
  · rw [hrest] at hcons
    cases hcons
    refine Outcome.trace_bind fun log => ?_
    have hlog : Reached tokens { c with log := log } := hc.congr rfl rfl
    exact (blames_atomAt hg hn hf hlog hrest).map

/-! ## Siblings -/

theorem blames_scriptArgument (hg : s.grammar.Regular) (hn : nested.Blames s.grammar tokens)
    (hf : nested.Follows s) (hc : Reached tokens c) (ht : t ∈ tokens) (stop : Stop)
    (script : Script) : Blames s.grammar tokens (scriptArgument s nested stop script t) c := by
  unfold scriptArgument
  refine Outcome.get_bind ?_
  cases hrest : c.rest with
  | nil => exact fault_located ht _
  | cons t' rest =>
    dsimp only
    split
    · exact fault_located ht _
    · split
      · exact (blames_group hn hf hc hrest).map
      · exact blames_atom hg hn hf hc hrest

theorem blames_takeScript (hg : s.grammar.Regular) (hn : nested.Blames s.grammar tokens)
    (hf : nested.Follows s) (hc : Reached tokens c) (ht : t ∈ tokens) (stop : Stop)
    (script : Script) (done : List Sibling) :
    Blames s.grammar tokens (takeScript s nested stop script t done) c := by
  unfold takeScript
  refine Outcome.advance_bind ?_
  split
  · exact fault_located ht _
  · refine Outcome.bind (blames_scriptArgument hg hn hf (hc.skip 1) ht stop script) ?_
    intro n c' _
    split
    · trivial
    · exact fault_located ht _

theorem blames_takeLimits (movable : Bool) (done : List Sibling) :
    Blames g tokens (takeLimits movable t done) c := by
  unfold takeLimits
  refine Outcome.advance_bind ?_
  split
  · split <;> trivial
  · trivial

/-- The loop of an expression: what one round takes leads to a cursor that is reached. -/
theorem blames_siblings (hg : s.grammar.Regular) (hn : nested.Blames s.grammar tokens)
    (hf : nested.Follows s) (stop : Stop) {rounds : Nat} {done : List Sibling}
    (hc : Reached tokens c) : Blames s.grammar tokens (siblings s nested stop rounds done) c := by
  induction rounds generalizing done c with
  | zero => trivial
  | succ rounds ih =>
    unfold siblings
    refine Outcome.get_bind ?_
    cases hrest : c.rest with
    | nil => trivial
    | cons t rest =>
      have ht := hc.mem hrest
      dsimp only
      split
      · trivial
      · split
        · exact fault_misplaced hc.scopes ht
        · cases Script.ofToken? t with
          | some script =>
            refine Outcome.bind_gives (blames_takeScript hg hn hf hc ht stop script done)
              (gives_takeScript hf stop script hrest done) ?_
            rintro bound c' ⟨w, n, hw, _⟩
            exact ih (hc.took hw)
          | none =>
            cases limits? s.grammar t with
            | some movable =>
              refine Outcome.bind_gives (blames_takeLimits movable done)
                (gives_takeLimits movable hrest done) ?_
              rintro done' c' ⟨hw, _⟩
              exact ih (hc.took hw)
            | none =>
              refine Outcome.bind_gives (blames_atom hg hn hf hc hrest) (gives_atom hf hrest) ?_
              rintro n c' ⟨w, hw, _⟩
              exact ih (hc.took hw)

/-! ## Expressions -/

theorem blames_expressionWith (hg : s.grammar.Regular) (hn : nested.Blames s.grammar tokens)
    (hf : nested.Follows s) (hc : Reached tokens c) (stop : Stop) :
    Blames s.grammar tokens (expressionWith s nested stop) c := by
  unfold expressionWith
  exact Outcome.get_bind (blames_siblings hg hn hf stop hc).map

theorem blames_inside (hg : s.grammar.Regular) (tokens : List Token) (n : Nat) :
    (inside s n).Blames s.grammar tokens := by
  induction n with
  | zero =>
    intro inside hi
    cases hi
  | succ n ih =>
    intro inside hi c hc
    cases hi
    exact ⟨blames_expressionWith hg ih (follows_inside s n) hc,
      blames_optionalArgument ih (follows_inside s n) hc⟩

theorem blames_expression (hg : s.grammar.Regular) (hc : Reached tokens c) (stop : Stop) :
    Blames s.grammar tokens (expression s stop) c := by
  unfold expression withAllowance
  refine Outcome.get_bind ?_
  exact blames_expressionWith hg (blames_inside hg tokens _) (follows_inside s _) hc stop

theorem fault_of_parse {grammar : Grammar} (hg : grammar.Regular) {options : Options}
    {source : Text} {e : ParseError}
    (h : (parse grammar options source).value = .error e) :
    Fault grammar (Token.tokenize source) e := by
  have hstart : Reached (Token.tokenize source) { rest := Token.tokenize source } :=
    ⟨List.suffix_refl _, by simp⟩
  have hblames := blames_expression (s := ⟨grammar, options, source⟩) hg hstart noStop
  rw [value_parse] at h
  split at h
  · cases h
  · next hrun =>
    cases h
    exact outcome_error hblames hrun

end Parser

/-- The report says where a token stands, and its text is that of the token or the name of the
environment that the token begins. -/
def Diagnostic.LocatedAt (d : Diagnostic) (tokens : List Token) (t : Token) : Prop :=
  d.offset = some t.place.offset ∧ d.line = some t.place.line ∧ d.column = some t.place.column ∧
    (d.text = t.value ∨ Parser.Begins tokens d.text t)

/-- A parse that fails reports the place of a token. The one exception is an environment that ends
with the input while an `\end` is in a raw group: the report that its own is missing has no
place. -/
theorem locatedAt_of_parse (symbols : Symbol.Table) (options : Options) (source : Text)
    (e : ParseError)
    (h : (parse (Grammar.ofSymbols symbols).value options source).value = .error e) :
    (∃ t ∈ Token.tokenize source, e.diagnostic.LocatedAt (Token.tokenize source) t) ∨
      Parser.RawEnd (Grammar.ofSymbols symbols).value (Token.tokenize source) ∧
        ∃ name, e = ⟨.expectedEnd name none, [], none⟩ := by
  rcases Parser.fault_of_parse (Grammar.regular_ofSymbols symbols) h with hplaced | hhidden
  · obtain ⟨t, ht, hplace, htext⟩ := hplaced
    exact Or.inl ⟨t, ht, by simp [ParseError.diagnostic, hplace],
      by simp [ParseError.diagnostic, hplace], by simp [ParseError.diagnostic, hplace], htext⟩
  · exact Or.inr hhidden

/-- The name of an operator with an `\end` in it: the scan for the end of the environment finds that
one, and the parse goes on to the end of the input. -/
theorem locatedAt_of_parse_hidden :
    (parse (Grammar.ofSymbols ⟨fun _ => []⟩).value {}
      "\\begin\x7bmatrix\x7d\\operatorname\x7b\\end\x7bmatrix\x7d\x7d").value =
      .error ⟨.expectedEnd "matrix" none, [], none⟩ ∧
    (ParseError.mk (.expectedEnd "matrix" none) [] none).diagnostic.offset = none ∧
    ((∃ t ∈ Token.tokenize "\\begin\x7bmatrix\x7d\\operatorname\x7b\\end\x7bmatrix\x7d\x7d",
        (ParseError.mk (.expectedEnd "matrix" none) [] none).diagnostic.LocatedAt
          (Token.tokenize "\\begin\x7bmatrix\x7d\\operatorname\x7b\\end\x7bmatrix\x7d\x7d") t) ∨
      Parser.RawEnd (Grammar.ofSymbols ⟨fun _ => []⟩).value
          (Token.tokenize "\\begin\x7bmatrix\x7d\\operatorname\x7b\\end\x7bmatrix\x7d\x7d") ∧
        ∃ name, ParseError.mk (.expectedEnd "matrix" none) [] none =
          ⟨.expectedEnd name none, [], none⟩) := by
  have hparse : (parse (Grammar.ofSymbols ⟨fun _ => []⟩).value {}
      "\\begin\x7bmatrix\x7d\\operatorname\x7b\\end\x7bmatrix\x7d\x7d").value =
      .error ⟨.expectedEnd "matrix" none, [], none⟩ := by
    rw [Grammar.ofSymbols_nil]
    decide +kernel
  exact ⟨hparse, rfl, locatedAt_of_parse _ _ _ _ hparse⟩

end MathMarkup
