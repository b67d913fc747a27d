import MathMarkup.Proofs.Parser.Run

/-!
# Where failures leave the cursor

A parser that fails leaves the cursor where the failure arose: behind the start, with the scopes of
the start still open and on top of them those that were opened on the way. Of these there are no
more than the parser may open (`Halt`). A failure that no parser makes on its own comes from the
parsers inside a scope, so that it arises inside a scope and behind the token that opened it
(`Exit`).

Each scope takes a token. A run that may open as many scopes as there are tokens is therefore never
refused one; the error that the nesting is too deep carries this count (`Halt.deep`).

The parsers are treated in the order of their definitions, as in `MathMarkup.Proofs.Parser.Run`,
which says what a parser takes before it goes on.
-/

namespace MathMarkup.Parser

variable {α β : Type} {s : Setup} {nested : Nested} {n m : Nat} {e : ParseError} {t : Token}
  {start c c' d : Cursor} {w : List Token}

/-! ## Errors -/

/-- An error that does not depend on how many scopes may be opened. Without a place it has no
text. -/
structure Own (e : ParseError) : Prop where
  cause : ∀ limit, e.cause ≠ .tooDeep limit
  text : e.place = none → e.text = []

/-- An error that no parser makes on its own. -/
def Foreign (e : ParseError) : Prop :=
  e.place = none ∧ e.text ≠ []

theorem own_located {cause : ParseError.Cause} (h : ∀ limit, cause ≠ .tooDeep limit) (t : Token) :
    Own (.located cause t) where
  cause := h
  text hplace := nomatch hplace

theorem own_named {cause : ParseError.Cause} (h : ∀ limit, cause ≠ .tooDeep limit) (name : Text)
    (t : Token) : Own (.named cause name t) where
  cause := h
  text hplace := nomatch hplace

/-- An error at the end of the input. -/
theorem own_nowhere {cause : ParseError.Cause} (h : ∀ limit, cause ≠ .tooDeep limit) :
    Own (.locatedAt? cause none) where
  cause := h
  text _ := rfl

theorem Own.not_foreign (h : Own e) : ¬ Foreign e := fun hforeign =>
  hforeign.2 (h.text hforeign.1)

theorem own_misplaced (scopes : List Scope) (t : Token) : Own (Scope.misplaced scopes t) := by
  have hstray : ∀ kind, Own (Scope.stray kind t) := by
    intro kind
    unfold Scope.stray
    split <;> exact own_located (by simp) t
  unfold Scope.misplaced
  split
  · split
    · unfold Scope.unclosed
      split
      · exact own_located (by simp) _
      · exact own_located (by simp) _
      · exact own_named (by simp) _ _
      · exact own_located (by simp) _
      · exact own_located (by simp) _
    · exact hstray _
  · exact hstray _

theorem own_readPieces {command opening : Token} (h : readPieces command opening w = .error e) :
    Own e := by
  induction w generalizing e with
  | nil =>
    cases h
    exact own_located (by simp) _
  | cons x w ih =>
    unfold readPieces at h
    split at h
    · cases h
    · split at h
      · split at h
        · cases h
        · next e' hmore =>
          cases h
          exact ih hmore
      · cases h
        exact own_located (by simp) _

theorem own_readName (h : readName t w = .error e) : Own e := by
  cases w with
  | nil =>
    cases h
    exact own_located (by simp) _
  | cons opening w =>
    simp only [readName] at h
    split at h
    · split at h
      · cases h
        exact own_located (by simp) _
      · cases h
      · next e' hmore =>
        cases h
        exact own_readPieces hmore
    · cases h
      exact own_located (by simp) _

theorem own_findEnd {name : Text} {opening : Token} {inner : List (Text × Token)} {position : Nat}
    (h : findEnd name opening inner position w = .error e) : Own e := by
  fun_induction findEnd name opening inner position w with
  | case1 | case2 | case7 | case9 =>
    cases h
    exact own_named (by simp) _ _
  | case6 => cases h
  | case3 _ _ _ _ _ _ ih | case4 _ _ _ _ _ _ _ _ ih | case5 _ _ _ _ _ _ _ ih
  | case8 _ _ _ _ _ _ _ _ _ _ ih | case10 _ _ _ _ _ _ ih => exact ih h

/-! ## Cursors -/

/-- The cursor is behind the start, with the scopes of the start. -/
structure Beyond (start c : Cursor) : Prop where
  rest : c.rest <:+ start.rest
  scopes : c.scopes = start.scopes

namespace Beyond

theorem refl (c : Cursor) : Beyond c c := ⟨List.suffix_refl _, rfl⟩

theorem took (h : Beyond start c) (hw : Took w c c') : Beyond start c' where
  rest := by
    have hsuffix : c'.rest <:+ c.rest := ⟨w, hw.rest.symm⟩
    exact hsuffix.trans h.rest
  scopes := hw.scopes.trans h.scopes

theorem skip (h : Beyond start c) (n : Nat) : Beyond start (c.skip n) where
  rest := (List.drop_suffix n c.rest).trans h.rest
  scopes := h.scopes

/-- Only the tokens and the scopes count. -/
theorem congr (h : Beyond start c) (hr : c'.rest = c.rest) (hs : c'.scopes = c.scopes) :
    Beyond start c' where
  rest := by
    rw [hr]
    exact h.rest
  scopes := hs.trans h.scopes

theorem length_le (h : Beyond start c) : c.rest.length ≤ start.rest.length :=
  h.rest.length_le

/-- Behind a token that is still to be read. -/
theorem length_lt (h : Beyond start c) (hc : c.rest = t :: w) :
    (c.skip 1).rest.length < start.rest.length := by
  have hlen := h.length_le
  rw [Cursor.rest_skip, hc, List.drop_one, List.tail_cons]
  rw [hc, List.length_cons] at hlen
  omega

end Beyond

/-! ## Failures -/

/-- How a run that may open `n` scopes breaks off: with the scopes of the start still open. -/
structure Halt (n : Nat) (start : Cursor) (e : ParseError) (d : Cursor) : Prop where
  rest : d.rest.length ≤ start.rest.length
  opened : ∃ opened, d.scopes = opened ++ start.scopes ∧ opened.length ≤ n
  deep : ∀ limit, e.cause = .tooDeep limit → d.rest.length + n < start.rest.length

/-- How a parser that may open `n` scopes fails: if the failure is not its own, then inside a scope
and behind the token that opened it. -/
structure Exit (n : Nat) (start : Cursor) (e : ParseError) (d : Cursor) : Prop
    extends Halt n start e d where
  foreign : Foreign e → start.scopes.length < d.scopes.length ∧
    d.rest.length < start.rest.length

theorem halt_own (h : Beyond start c) (he : Own e) : Halt n start e c where
  rest := h.length_le
  opened := ⟨[], h.scopes, Nat.zero_le n⟩
  deep limit htoo := absurd htoo (he.cause limit)

theorem exit_own (h : Beyond start c) (he : Own e) : Exit n start e c where
  toHalt := halt_own h he
  foreign hforeign := (he.not_foreign hforeign).elim

/-- Behind a token no scope may be opened. -/
theorem exit_tooDeep (h : Beyond start c) (hlt : c.rest.length < start.rest.length) (limit : Number)
    (t : Token) : Exit 0 start (.located (.tooDeep limit) t) c where
  rest := h.length_le
  opened := ⟨[], h.scopes, Nat.le_refl 0⟩
  deep _ _ := hlt
  foreign hforeign := nomatch hforeign.1

/-- A run inside a scope breaks off inside it. -/
theorem Halt.inScope {scope : Scope} (h : Halt n { c with scopes := scope :: c.scopes } e d)
    (hb : Beyond start c) (hlt : c.rest.length < start.rest.length) :
    Exit (n + 1) start e d := by
  obtain ⟨opened, hopened, hlen⟩ := h.opened
  have hscopes : d.scopes = (opened ++ [scope]) ++ start.scopes := by
    rw [hopened, hb.scopes, List.append_assoc, List.singleton_append]
  have hrest : d.rest.length ≤ c.rest.length := h.rest
  refine { rest := by omega, opened := ⟨opened ++ [scope], hscopes, ?_⟩, deep := ?_, foreign := ?_ }
  · rw [List.length_append, List.length_singleton]
    omega
  · intro limit htoo
    have hdeep : d.rest.length + n < c.rest.length := h.deep limit htoo
    omega
  · intro _
    refine ⟨?_, by omega⟩
    rw [hscopes, List.length_append, List.length_append, List.length_singleton]
    omega

/-! ## Statements about parsers -/

/-- A parser that may open `n` scopes behind the start fails at the cursor only in the known way. -/
abbrev Exits (n : Nat) (start : Cursor) (p : ParseM α) (c : Cursor) : Prop :=
  Outcome p c (fun _ _ => True) (Exit n start)

/-- A run of a parser from the cursor that may open `n` scopes breaks off only in the known way. -/
abbrev Halts (n : Nat) (p : ParseM α) (c : Cursor) : Prop :=
  Outcome p c (fun _ _ => True) (Halt n c)

theorem Exits.halts {p : ParseM α} (h : Exits n c p c) : Halts n p c :=
  h.mono (fun _ _ _ => trivial) fun _ _ hexit => hexit.toHalt

/-- The parsers inside a scope in which `n` more may be opened. -/
structure Inside.Halts (n : Nat) (inside : Inside) : Prop where
  content : ∀ stop c, Parser.Halts n (inside.content stop) c
  optional : ∀ c, Parser.Halts n inside.optional c

/-- As many scopes may be opened as is said. -/
inductive Nested.Halts : Nat → Nested → Prop where
  | none : Nested.Halts 0 none
  | some {n : Nat} {inside : Inside} : inside.Halts n → Nested.Halts (n + 1) (some inside)

/-- Behind the opening of a scope. A run inside it breaks off as the whole parser may. -/
theorem exits_enter_bind (hn : nested.Halts n) (hb : Beyond start c)
    (hlt : c.rest.length < start.rest.length) {scope : Scope} {f : Inside → ParseM β}
    (h : ∀ inside, nested = some inside → ∀ m, inside.Halts m →
      (∀ e d, Halt m { c with scopes := scope :: c.scopes } e d → Exit n start e d) →
        Exits n start (f inside) { c with scopes := scope :: c.scopes }) :
    Exits n start (enter s nested scope >>= f) c := by
  cases hn with
  | none => exact Outcome.enter_bind (fun _ => exit_tooDeep hb hlt _ _) nofun
  | some hi =>
    refine Outcome.enter_bind nofun fun inside hinside => ?_
    refine h inside hinside _ ?_ fun e d hhalt => hhalt.inScope hb hlt
    cases hinside
    exact hi

/-! ## Groups -/

theorem exits_enclosed {opens closes : Token → Bool} {kind : Scope.Kind} {name : Text}
    {expected unclosed : ParseError.Cause} (hn : nested.Halts n) (hf : nested.Follows s)
    (hb : Beyond start c) (hexpected : ∀ limit, expected ≠ .tooDeep limit)
    (hunclosed : ∀ limit, unclosed ≠ .tooDeep limit) :
    Exits n start (enclosed s nested opens closes kind name expected unclosed) c := by
  unfold enclosed
  refine Outcome.next_bind (fun _ => exit_own hb (own_nowhere hexpected)) fun opening rest hc => ?_
  by_cases hopen : opens opening = true
  · simp only [if_pos hopen]
    refine exits_enter_bind hn (hb.skip 1) (hb.length_lt hc) fun inside hi m hm hin => ?_
    refine Outcome.bind_gives ((hm.content _ _).mono (fun _ _ h => h) hin)
      ((hf inside hi).1 _ _) ?_
    rintro content c' ⟨w, done, hw, -⟩
    refine Outcome.next_bind (fun _ => hin _ _ ?_) fun _ _ _ => trivial
    exact halt_own ((Beyond.refl _).took hw) (own_located hunclosed _)
  · simp only [if_neg hopen]
    exact exit_own (hb.skip 1) (own_located hexpected _)

theorem exits_group (hn : nested.Halts n) (hf : nested.Follows s) (hb : Beyond start c) :
    Exits n start (group s nested) c := by
  rw [group_eq]
  exact exits_enclosed hn hf hb (by simp) (by simp)

theorem exits_bracketContent (hn : nested.Halts n) (hf : nested.Follows s) (hb : Beyond start c) :
    Exits n start (bracketContent s nested) c := by
  rw [bracketContent_eq]
  exact exits_enclosed hn hf hb (by simp) (by simp)

theorem exits_optionalArgument (hn : nested.Halts n) (hf : nested.Follows s)
    (hb : Beyond start c) : Exits n start (optionalArgument s nested) c := by
  unfold optionalArgument
  refine Outcome.peek_bind (fun _ => trivial) fun t rest _ => ?_
  by_cases hopen : t.isOpenBracket = true
  · simp only [if_pos hopen]
    exact (exits_bracketContent hn hf hb).map
  · simp only [if_neg hopen]
    trivial

/-! ## Parsers that open no scope -/

/-- A parser that fails at the cursor only on its own and before it takes a token of any group. -/
abbrev Refuses (start : Cursor) (p : ParseM α) (c : Cursor) : Prop :=
  Outcome p c (fun _ _ => True) fun e d => Own e ∧ Beyond start d

theorem Refuses.exits {p : ParseM α} (h : Refuses start p c) : Exits n start p c :=
  h.mono (fun _ _ _ => trivial) fun _ _ ⟨he, hd⟩ => exit_own hd he

theorem refuses_rawGroup (hb : Beyond start c) : Refuses start (rawGroup s) c := by
  unfold rawGroup
  refine Outcome.get_bind ?_
  split
  · exact ⟨own_nowhere (by simp), hb⟩
  · split
    · split
      · exact ⟨own_located (by simp) _, hb⟩
      · trivial
    · exact ⟨own_located (by simp) _, hb⟩

theorem refuses_expectGroup (hb : Beyond start c) (t : Token) (index : Nat) :
    Refuses start (expectGroup t index) c := by
  unfold expectGroup
  refine Outcome.peek_bind (fun _ => ⟨own_located (by simp) _, hb⟩) fun t' rest _ => ?_
  by_cases hopen : t'.isOpenBrace = true
  · simp only [if_pos hopen]
    trivial
  · simp only [if_neg hopen]
    exact ⟨own_located (by simp) _, hb⟩

theorem refuses_rawArgument (hb : Beyond start c) (t : Token) (index : Nat) :
    Refuses start (rawArgument s t index) c := by
  unfold rawArgument
  refine Outcome.bind_gives (refuses_expectGroup hb t index) (gives_expectGroup t index c) ?_
  rintro _ _ ⟨rfl, -⟩
  exact refuses_rawGroup hb

theorem refuses_takeDelimiter (hb : Beyond start c) (t : Token) :
    Refuses start (takeDelimiter s t) c := by
  unfold takeDelimiter
  refine Outcome.next_bind (fun _ => ⟨own_located (by simp) _, hb⟩) fun d rest _ => ?_
  dsimp only
  split
  · trivial
  · exact ⟨own_located (by simp) _, hb.skip 1⟩

theorem refuses_takeName (hb : Beyond start c) (t : Token) : Refuses start (takeName t) c := by
  unfold takeName
  refine Outcome.get_bind ?_
  split
  · next hread => exact ⟨own_readName hread, hb⟩
  · trivial

theorem refuses_environmentNamed (hb : Beyond start c) (name : Text) (t : Token) :
    Refuses start (environmentNamed s name t) c := by
  unfold environmentNamed
  split
  · trivial
  · split
    · exact ⟨own_named (by simp) _ _, hb⟩
    · trivial

theorem refuses_environmentArgument? (hb : Beyond start c) (name : Text) (t : Token)
    (env : Environment) (stop : Nat) :
    Refuses start (environmentArgument? s name t env stop) c := by
  unfold environmentArgument?
  split
  · unfold environmentArgument
    refine Outcome.get_bind ?_
    split
    · split
      · exact refuses_rawGroup hb
      · exact ⟨own_named (by simp) _ _, hb⟩
    · exact ⟨own_named (by simp) _ _, hb⟩
  · trivial

theorem refuses_takeEnd (hb : Beyond start c) (name : Text) (stop : Nat) :
    Refuses start (takeEnd name stop) c := by
  unfold takeEnd
  refine Outcome.get_bind ?_
  refine Outcome.next_bind (fun _ => ⟨own_nowhere (by simp), hb⟩) fun t rest _ => ?_
  by_cases hstop : c.position = stop
  · simp only [if_pos hstop]
    refine Outcome.bind_gives (refuses_takeName (hb.skip 1) t) (gives_takeName t _) ?_
    rintro closing c' ⟨w, hw, -⟩
    split
    · exact ⟨own_located (by simp) _, (hb.skip 1).took hw⟩
    · trivial
  · simp only [if_neg hstop]
    exact ⟨own_located (by simp) _, hb.skip 1⟩

/-! ## Arguments of commands -/

theorem exits_argument (hn : nested.Halts n) (hf : nested.Follows s) (hb : Beyond start c)
    (t : Token) (index : Nat) : Exits n start (argument s nested t index) c := by
  unfold argument
  refine Outcome.bind_gives (refuses_expectGroup hb t index).exits (gives_expectGroup t index c) ?_
  rintro _ _ ⟨rfl, -⟩
  exact (exits_group hn hf hb).map

theorem exits_leftRight (hn : nested.Halts n) (hf : nested.Follows s) (hb : Beyond start c)
    (t : Token) : Exits n start (leftRight s nested t) c := by
  unfold leftRight
  refine Outcome.bind_gives (refuses_takeDelimiter hb t).exits (gives_takeDelimiter t c) ?_
  rintro opening c1 ⟨delimiter, hd, -⟩
  have hb1 := hb.took hd
  have hlt : c1.rest.length < start.rest.length := by
    have h := hd.length_le
    have h' := hb.length_le
    rw [List.length_singleton] at h
    omega
  refine exits_enter_bind hn hb1 hlt fun inside hi m hm hin => ?_
  refine Outcome.bind_gives ((hm.content stopAtRight _).mono (fun _ _ h => h) hin)
    ((hf inside hi).1 stopAtRight _) ?_
  rintro content c2 ⟨w, done, hw, -⟩
  refine Outcome.next_bind (fun _ => hin _ _ ?_) fun right rest hc2 => ?_
  · exact halt_own ((Beyond.refl _).took hw) (own_located (by simp) _)
  · simp only [outcome_bind, outcome_popScope]
    exact (refuses_takeDelimiter (hb1.took (hw.closing hc2)) right).exits.weaken fun _ _ _ =>
      trivial

theorem exits_reading (hn : nested.Halts n) (hf : nested.Follows s) (hb : Beyond start c)
    (t : Token) (meaning : Command) :
    Exits n start ((reading s t meaning).parser s nested t) c := by
  cases hr : reading s t meaning with
  | nothing node => trivial
  | raw build => exact (refuses_rawArgument hb t 1).exits.map
  | one build => exact (exits_argument hn hf hb t 1).map
  | two build =>
    refine Outcome.bind_gives (exits_argument hn hf hb t 1) (gives_argument hf t 1 c) ?_
    rintro _ c1 ⟨v, _, hv, -⟩
    exact (exits_argument hn hf (hb.took hv) t 2).map
  | delimiter build => exact (refuses_takeDelimiter hb t).exits.map
  | squareRoot =>
    refine Outcome.bind_gives (exits_optionalArgument hn hf hb) (follows_optionalArgument hf c) ?_
    rintro degree c1 ⟨v, hv, -⟩
    exact (exits_argument hn hf (hb.took hv) t 1).map
  | root =>
    refine Outcome.bind_gives (exits_argument hn hf hb t 1) (gives_argument hf t 1 c) ?_
    rintro _ c1 ⟨u, _, hu, -⟩
    have hskip : Exits n start Reading.skipOf c1 := by
      unfold Reading.skipOf
      refine Outcome.peek_bind (fun _ => trivial) fun t' _ _ => ?_
      dsimp only
      split <;> trivial
    refine Outcome.bind_gives hskip (gives_skipOf c1) ?_
    rintro _ c2 ⟨v, hv, -⟩
    exact (exits_argument hn hf ((hb.took hu).took hv) t 2).map
  | leftRight => exact exits_leftRight hn hf hb t
  | refused e =>
    have hown : Own e := by
      cases meaning <;> cases hr <;> exact own_located (by simp) t
    exact exit_own hb hown

/-! ## Environments -/

/-- Behind tokens that were taken inside the scope. -/
theorem Halt.beyond (h : Halt n c e d) (hb : Beyond start c) : Halt n start e d := by
  have hle := hb.length_le
  have hrest := h.rest
  obtain ⟨opened, hopened, hlen⟩ := h.opened
  refine ⟨by omega, ⟨opened, by rw [hopened, hb.scopes], hlen⟩, fun limit htoo => ?_⟩
  have hdeep := h.deep limit htoo
  omega

/-- The loop over the cells of a table breaks off in a cell or in a hint behind a row. -/
theorem halts_tableRows {inside : Inside} (hi : inside.Halts n)
    (hcontent : ∀ stop, FollowsTo s stop (inside.content stop))
    (hoptional : Follows s .optional inside.optional) (stop : Nat) {rounds : Nat}
    {cells : List Node} {rows : List (List Node)} (hb : Beyond start c) :
    Outcome (tableRows inside stop rounds cells rows) c (fun _ _ => True) (Halt n start) := by
  induction rounds generalizing cells rows c with
  | zero => trivial
  | succ rounds ih =>
    unfold tableRows
    have hcell := (hi.content (stopAtCell stop) c).mono (fun _ _ h => h) fun _ _ h => h.beyond hb
    refine Outcome.bind (hcell.and_gives (hcontent (stopAtCell stop) c)) ?_
    rintro cell c1 ⟨-, w, done, hw, -⟩
    have hb1 := hb.took hw
    refine Outcome.get_bind ?_
    cases hrest : c1.rest with
    | nil => trivial
    | cons t rest =>
      by_cases hend : c1.position = stop
      · simp only [if_pos hend]
        trivial
      · simp only [if_neg hend]
        refine Outcome.advance_bind ?_
        by_cases hrow : isRowSeparator t = true
        · simp only [if_pos hrow]
          have hhint := (hi.optional (c1.skip 1)).mono (fun _ _ h => h) fun _ _ h =>
            h.beyond (hb1.skip 1)
          refine Outcome.bind (hhint.and_gives (hoptional (c1.skip 1))) ?_
          rintro hint c2 ⟨-, v, hv, -⟩
          exact ih ((hb1.skip 1).took hv)
        · simp only [if_neg hrow]
          exact ih (hb1.skip 1)

theorem halts_environmentContent {inside : Inside} (hi : inside.Halts n)
    (hcontent : ∀ stop, FollowsTo s stop (inside.content stop))
    (hoptional : Follows s .optional inside.optional) (name argument : Text) (env : Environment)
    (stop : Nat) (hb : Beyond start c) :
    Outcome (environmentContent inside name env stop argument) c (fun _ _ => True)
      (Halt n start) := by
  have flow := (hi.content (stopAt stop) c).mono (fun _ _ h => h) fun _ _ h => h.beyond hb
  have grid : Outcome (tableRows inside stop (c.rest.length + 1) [] []) c (fun _ _ => True)
      (Halt n start) := halts_tableRows hi hcontent hoptional stop hb
  unfold environmentContent
  cases env.kind with
  | display | container => exact Outcome.bind flow fun _ _ _ => trivial
  | table | fencedTable | array =>
    exact Outcome.get_bind (Outcome.bind grid fun _ _ _ => trivial)

/-- Behind the name of an environment. -/
theorem exits_environmentRest (hn : nested.Halts n) (hf : nested.Follows s) (hb : Beyond start c)
    (hlt : c.rest.length < start.rest.length) (name : Text) (t : Token) (env : Environment)
    (stop : Nat) : Exits n start (environmentRest s nested name t env stop) c := by
  unfold environmentRest
  refine exits_enter_bind hn hb hlt fun inside hi m hm hin => ?_
  obtain ⟨hcontent, hoptional⟩ := hf inside hi
  refine Outcome.get_bind ?_
  simp only [outcome_bind, outcome_modify]
  -- Up to the end of the content the run is inside the scope.
  have hb1 : Beyond { c with scopes := ⟨.environment, name, t⟩ :: c.scopes }
      { c with scopes := ⟨.environment, name, t⟩ :: c.scopes, environment := some name } :=
    (Beyond.refl _).congr rfl rfl
  have hargument := (refuses_environmentArgument? (s := s) hb1 name t env stop).mono
    (fun _ _ h => h) fun e d h => hin e d (halt_own h.2 h.1)
  refine (hargument.and_gives (gives_environmentArgument? name t env stop _)).weaken ?_
  rintro argument c1 ⟨-, a, ha, -⟩
  have hnode := (halts_environmentContent hm hcontent hoptional name argument env stop
    (hb1.took ha)).mono (fun _ _ h => h) hin
  refine (hnode.and_gives (gives_environmentContent hcontent hoptional name argument env stop
    c1)).weaken ?_
  rintro node c2 ⟨-, w, hw, -⟩
  -- The end is taken outside it.
  have hb2 := hb.took (ha.trans hw).inScope
  simp only [outcome_popScope]
  exact (refuses_takeEnd hb2 name stop).exits.weaken fun _ _ _ => trivial

theorem exits_environment (hn : nested.Halts n) (hf : nested.Follows s) (hb : Beyond start c) :
    Exits n start (environment s nested) c := by
  rw [environment_eq]
  refine Outcome.next_bind (fun _ => exit_own hb (own_nowhere (by simp))) fun opening rest hc => ?_
  have hlt := hb.length_lt hc
  by_cases hbegin : opening.isCommand "\\begin" = true
  · simp only [if_pos hbegin]
    refine Outcome.bind_gives (refuses_takeName (hb.skip 1) opening).exits
      (gives_takeName opening _) ?_
    rintro name c1 ⟨v, hv, -⟩
    have hb1 := (hb.skip 1).took hv
    refine Outcome.bind_gives (refuses_environmentNamed hb1 name opening).exits
      (gives_environmentNamed name opening c1) ?_
    rintro env c2 ⟨-, hnil⟩
    have hb2 := hb1.took hnil
    refine Outcome.get_bind ?_
    cases hfind : findEnd name opening [] c2.position c2.rest with
    | error error => exact exit_own hb2 (own_findEnd hfind)
    | ok found =>
      refine Outcome.trace_bind fun log => ?_
      have hlt2 : c2.rest.length < start.rest.length := by
        have h1 := hv.length_le
        have h2 := hnil.length_le
        omega
      have hlog : Beyond start { c2 with log := log } := hb2.congr rfl rfl
      exact exits_environmentRest hn hf hlog hlt2 name opening env found.1
  · simp only [if_neg hbegin]
    exact exit_own (hb.skip 1) (own_located (by simp) _)

/-! ## Atoms -/

theorem exits_command (hn : nested.Halts n) (hf : nested.Follows s) (hb : Beyond start c) :
    Exits n start (command s nested) c := by
  rw [command_eq]
  refine Outcome.peek_bind (fun _ => exit_own hb (own_nowhere (by simp))) fun t rest _ => ?_
  dsimp only
  split
  · unfold commandAt
    split
    · unfold unknownCommand
      split
      · exact exit_own hb (own_located (by simp) _)
      · trivial
    · exact exits_environment hn hf hb
    · exact exit_own hb (own_misplaced _ _)
    · exact exit_own hb (own_located (by simp) _)
    · next meaning _ _ _ _ =>
      refine Outcome.advance_bind (Outcome.trace_bind fun log => ?_)
      have hlog : Beyond start { c.skip 1 with log := log } := (hb.skip 1).congr rfl rfl
      exact exits_reading hn hf hlog t meaning
  · exact exit_own hb (own_located (by simp) _)

theorem exits_atomAt (hn : nested.Halts n) (hf : nested.Follows s) (hb : Beyond start c)
    (t : Token) : Exits n start (atomAt s nested t) c := by
  unfold atomAt
  split
  · exact exits_command hn hf hb
  · trivial
  · trivial
  · trivial
  · split
    · exact exits_group hn hf hb
    · exact exit_own hb (own_misplaced _ _)
  · split
    · exact (exits_bracketContent hn hf hb).map
    · exact exit_own hb (own_misplaced _ _)
  · exact exit_own hb (own_located (by simp) _)

theorem exits_atom (hn : nested.Halts n) (hf : nested.Follows s) (hb : Beyond start c) :
    Exits n start (atom s nested) c := by
  rw [atom_eq]
  refine Outcome.peek_bind (fun _ => exit_own hb (own_nowhere (by simp))) fun t rest _ => ?_
  refine Outcome.trace_bind fun log => ?_
  have hlog : Beyond start { c with log := log } := hb.congr rfl rfl
  exact (exits_atomAt hn hf hlog t).map

/-! ## Siblings -/

theorem exits_scriptArgument (hn : nested.Halts n) (hf : nested.Follows s) (hb : Beyond start c)
    (stop : Stop) (script : Script) (t : Token) :
    Exits n start (scriptArgument s nested stop script t) c := by
  unfold scriptArgument
  refine Outcome.get_bind ?_
  cases c.rest with
  | nil => exact exit_own hb (own_located (by simp) _)
  | cons t' rest =>
    dsimp only
    split
    · exact exit_own hb (own_located (by simp) _)
    · split
      · exact (exits_group hn hf hb).map
      · exact exits_atom hn hf hb

theorem exits_takeScript (hn : nested.Halts n) (hf : nested.Follows s) (hb : Beyond start c)
    (stop : Stop) (script : Script) (t : Token) (done : List Sibling) :
    Exits n start (takeScript s nested stop script t done) c := by
  unfold takeScript
  refine Outcome.advance_bind ?_
  split
  · exact exit_own (hb.skip 1) (own_located (by simp) _)
  · refine Outcome.bind_gives (exits_scriptArgument hn hf (hb.skip 1) stop script t)
      (gives_scriptArgument hf stop script t _) ?_
    rintro node c' ⟨w, hw, -⟩
    split
    · trivial
    · exact exit_own ((hb.skip 1).took hw) (own_located (by simp) _)

theorem exits_takeLimits (movable : Bool) (t : Token) (done : List Sibling) :
    Exits n start (takeLimits movable t done) c := by
  unfold takeLimits
  refine Outcome.advance_bind ?_
  split
  · split <;> trivial
  · trivial

/-- The loop of an expression fails in one of its rounds, each of which starts where the one before
has led. -/
theorem exits_siblings (hn : nested.Halts n) (hf : nested.Follows s) (stop : Stop) {rounds : Nat}
    {done : List Sibling} (hb : Beyond start c) :
    Exits n start (siblings s nested stop rounds done) c := by
  induction rounds generalizing done c with
  | zero => trivial
  | succ rounds ih =>
    unfold siblings
    refine Outcome.get_bind ?_
    cases hrest : c.rest with
    | nil => trivial
    | cons t rest =>
      dsimp only
      split
      · trivial
      · split
        · exact exit_own hb (own_misplaced _ _)
        · cases Script.ofToken? t with
          | some script =>
            refine Outcome.bind_gives (exits_takeScript hn hf hb stop script t done)
              (gives_takeScript hf stop script hrest done) ?_
            rintro bound c' ⟨w, node, hw, -⟩
            exact ih (hb.took hw)
          | none =>
            cases limits? s.grammar t with
            | some movable =>
              refine Outcome.bind_gives (exits_takeLimits movable t done)
                (gives_takeLimits movable hrest done) ?_
              rintro done' c' ⟨hw, -⟩
              exact ih (hb.took hw)
            | none =>
              refine Outcome.bind_gives (exits_atom hn hf hb) (gives_atom hf hrest) ?_
              rintro node c' ⟨w, hw, -⟩
              exact ih (hb.took hw)

/-! ## Expressions -/

theorem exits_expressionWith (hn : nested.Halts n) (hf : nested.Follows s) (hb : Beyond start c)
    (stop : Stop) : Exits n start (expressionWith s nested stop) c := by
  unfold expressionWith
  exact Outcome.get_bind (exits_siblings hn hf stop hb).map

end MathMarkup.Parser
