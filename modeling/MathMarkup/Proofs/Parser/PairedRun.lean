import MathMarkup.Proofs.Parser.Fitting
import MathMarkup.Proofs.Parser.Lookahead

/-!
# Parsers of paired runs

Each parser agrees with itself under two setups that go alike. Most parsers never part: where the
left run meets the end of its tokens they fail. The parsers that may end anywhere do part there:
those of expressions, of optional arguments, and of what environments hold.

As in `MathMarkup.Proofs.Parser.Run` the parsers are treated in the order of their definitions, here
under the assumption that the parsers inside one more scope fit (`NestedFits`), and an induction on
the numbers of scopes that may still be opened discharges it.
-/

namespace MathMarkup.Parser

variable {P : Pairing} {α β γ δ : Type} {c c' d d' : Cursor} {inner : List Scope}
  {parted : Cursor → Prop} {s s' : Setup} {nested nested' : Nested}

/-! ## Where the runs have parted -/

theorem Pairing.Closed.left_of_parted (hP : P.Closed) (h : P.Parted c) {e : ParseError}
    (he : Own e) : P.left e := by
  rcases hP with hsame | hleft
  · exact absurd hsame.tail h.1
  · exact hleft he

/-- What follows runs that may part. Where they have, it is enough to know what the left run
gives. -/
theorem Agree.bind_parted {p : ParseM α} {p' : ParseM β} {mid : α → Cursor → β → Cursor → Prop}
    {f : α → ParseM γ} {f' : β → ParseM δ} {post : γ → Cursor → δ → Cursor → Prop} (hP : P.Closed)
    (h : Agree P P.Parted p p' c c' mid)
    (hend : ∀ a d, P.Parted d → Outcome (f a) d (fun _ d' => parted d') fun e _ => Own e)
    (hf : ∀ a d b d', mid a d b d' → Agree P parted (f a) (f' b) d d' post) :
    Agree P parted (p >>= f) (p' >>= f') c c' post :=
  h.bind (fun a d hd => (hend a d hd).mono (fun _ _ h => h) fun _ _ he =>
    hP.left_of_parted hd he) hf

/-- A closer that is met by the same parser is misplaced in the same way. -/
theorem Agree.misplaced {p' : ParseM β} {post : α → Cursor → β → Cursor → Prop} (hP : P.Closed)
    (hj : Joined P inner c c') (t : Token)
    (hp' : p'.run c' =
      (MonadExcept.throw (Scope.misplaced c'.scopes (P.move t)) : ParseM β).run c') :
    Agree P parted (MonadExcept.throw (Scope.misplaced c.scopes t) : ParseM α) p' c c' post := by
  refine throw_or hP (own_misplaced c.scopes t) fun hsame => ?_
  rw [hj.scopes_of_same hsame] at hp'
  exact (throw (P.matches_misplaced c.scopes t)).congr rfl hp'

/-! ## Tokens of the right run -/

namespace Pairing

variable {t : Token}

theorem keepsTokens (P : Pairing) : KeepsTokens P.move := fun _ => ⟨rfl, rfl⟩

@[simp] theorem delimiter?_move (g : Grammar) : delimiter? g (P.move t) = delimiter? g t := rfl

@[simp] theorem isCellSeparator_move : isCellSeparator (P.move t) = isCellSeparator t := rfl

@[simp] theorem isRowSeparator_move : isRowSeparator (P.move t) = isRowSeparator t := rfl

@[simp] theorem ofToken?_move : Script.ofToken? (P.move t) = Script.ofToken? t := rfl

@[simp] theorem limits?_move (g : Grammar) : limits? g (P.move t) = limits? g t := rfl

/-! Lookups that fail, fail for the right run, too. -/

theorem matches_readPieces (P : Pairing) {command opening : Token} {w : List Token}
    {e : ParseError} (h : readPieces command opening w = .error e) :
    ∃ e', readPieces (P.move command) (P.move opening) (w.map P.move) = .error e' ∧
      P.Matches e e' := by
  induction w generalizing e with
  | nil =>
    cases h
    exact ⟨_, rfl, .move (.located .openNameBrace) opening rfl rfl⟩
  | cons t w ih =>
    simp only [List.map_cons, readPieces, isCloseBrace_move, P.keepsTokens.isNamePiece] at h ⊢
    by_cases hclose : t.isCloseBrace = true
    · rw [if_pos hclose] at h
      cases h
    rw [if_neg hclose] at h ⊢
    by_cases hpiece : isNamePiece t = true
    · rw [if_pos hpiece] at h ⊢
      cases hrest : readPieces command opening w with
      | ok found =>
        rw [hrest] at h
        cases h
      | error e =>
        rw [hrest] at h
        cases h
        obtain ⟨e', hrest', he⟩ := ih hrest
        rw [hrest']
        exact ⟨e', rfl, he⟩
    · rw [if_neg hpiece] at h ⊢
      cases h
      exact ⟨_, rfl, .move (fun t => .located (.expectedName command.value t) t) t rfl rfl⟩

theorem readPieces_move (P : Pairing) {command opening : Token} {w : List Token}
    {found : List Text × Nat} (h : readPieces command opening w = .ok found) :
    readPieces (P.move command) (P.move opening) (w.map P.move) = .ok found := by
  obtain ⟨pieces, n⟩ := found
  obtain ⟨run, closing, rest, rfl, rfl, hrun, hclosing, rfl⟩ := readPieces_eq_ok h
  have hmoved : ∀ x ∈ run.map P.move, isNamePiece x = true := by
    intro x hx
    obtain ⟨y, hy, rfl⟩ := List.mem_map.mp hx
    rw [P.keepsTokens.isNamePiece, hrun y hy]
  have hclosing' : (P.move closing).isCloseBrace = true := hclosing
  rw [List.map_append, List.map_cons, readPieces_append _ _ hmoved hclosing', List.map_map,
    List.length_map]
  rfl

theorem matches_readName (P : Pairing) {command : Token} {w : List Token} {e : ParseError}
    (h : readName command w = .error e) :
    ∃ e', readName (P.move command) (w.map P.move) = .error e' ∧ P.Matches e e' := by
  cases w with
  | nil =>
    cases h
    exact ⟨_, rfl,
      .move (fun t => .located (.expectedNameBrace t.value none) t) command rfl rfl⟩
  | cons opening w =>
    rw [List.map_cons]
    unfold readName at h ⊢
    dsimp only at h ⊢
    rw [isOpenBrace_move]
    by_cases hopen : opening.isOpenBrace = true
    · rw [if_pos hopen] at h ⊢
      cases hpieces : readPieces command opening w with
      | error e =>
        rw [hpieces] at h
        cases h
        obtain ⟨e', hpieces', he⟩ := P.matches_readPieces hpieces
        rw [hpieces']
        exact ⟨e', rfl, he⟩
      | ok found =>
        rw [P.readPieces_move hpieces]
        rw [hpieces] at h
        obtain ⟨_ | ⟨piece, pieces⟩, n⟩ := found
        · cases h
          exact ⟨_, rfl, .move (.located (.emptyName command.value)) opening rfl rfl⟩
        · cases h
    · rw [if_neg hopen] at h ⊢
      cases h
      exact ⟨_, rfl, .move
        (fun t => .located (.expectedNameBrace command.value (some t)) t) opening rfl rfl⟩

theorem matches_findEnd (P : Pairing) {name : Text} {opening : Token}
    {env : List (Text × Token)} {position : Nat} {w : List Token} {e : ParseError}
    (h : findEnd name opening env position w = .error e) :
    ∃ e', findEnd name (P.move opening) (env.map fun (other, t) => (other, P.move t)) position
      (w.map P.move) = .error e' ∧ P.Matches e e' := by
  have hmove := P.keepsTokens
  fun_induction findEnd name opening env position w with
  | case1 position other token outer =>
    cases h
    exact ⟨_, rfl, .move (fun t => .named (.neverClosed other t.offset) other t) token rfl rfl⟩
  | case2 =>
    cases h
    exact ⟨_, rfl, .move (fun t => .named (.neverClosed name t.offset) name t) opening rfl rfl⟩
  | case3 env position t rest hbegin hnone ih =>
    rw [List.map_cons]
    unfold findEnd
    simpa [hmove.isCommand, scanName?_map hmove, hbegin, hnone] using ih h
  | case4 env position t rest hbegin other n hsome ih =>
    rw [List.map_cons]
    unfold findEnd
    simpa [hmove.isCommand, scanName?_map hmove, hbegin, hsome] using ih h
  | case5 env position t rest hbegin hend hnone ih =>
    rw [List.map_cons]
    unfold findEnd
    simpa [hmove.isCommand, scanName?_map hmove, hbegin, hend, hnone] using ih h
  | case6 => cases h
  | case7 position t rest hbegin hend other n hsome hne =>
    cases h
    refine ⟨_, ?_, .move (fun t => .named (.closedBy name t.offset other) name t) opening rfl rfl⟩
    rw [List.map_cons]
    unfold findEnd
    simp [hmove.isCommand, scanName?_map hmove, hbegin, hend, hsome, hne]
  | case8 position t rest hbegin hend name' token outer n hsome ih =>
    rw [List.map_cons, List.map_cons]
    unfold findEnd
    simpa [hmove.isCommand, scanName?_map hmove, hbegin, hend, hsome] using ih h
  | case9 position t rest hbegin hend other n expected token outer hsome hne =>
    cases h
    refine ⟨_, ?_,
      .move (fun t => .named (.closedBy expected t.offset other) expected t) token rfl rfl⟩
    rw [List.map_cons, List.map_cons]
    unfold findEnd
    simp [hmove.isCommand, scanName?_map hmove, hbegin, hend, hsome, hne]
  | case10 env position t rest hbegin hend ih =>
    rw [List.map_cons]
    unfold findEnd
    simpa [hmove.isCommand, hbegin, hend] using ih h

end Pairing

/-! ## Parsers inside a scope -/

/-- Stops that fit: they stop at the same tokens, or the right one also at closers, at which the
left run fails in an excused way. -/
def StopFits (P : Pairing) (stop stop' : Stop) : Prop :=
  ∀ p t, stop' (p + P.shift) (P.move t) = stop p t ∨
    stop p t = false ∧ (Scope.closedBy? t).isSome = true ∧ P.Lenient

/-- A stop that does not look at positions and places fits itself. -/
theorem StopFits.refl {stop : Token → Bool} (h : ∀ t, stop (P.move t) = stop t) :
    StopFits P (fun _ t => stop t) fun _ t => stop t :=
  fun _ t => Or.inl (h t)

/-- The parsers inside a scope agree. Where there are no tokens left an expression ends. -/
structure InsideFits (P : Pairing) (inside inside' : Inside) : Prop where
  content : ∀ {stop stop'}, StopFits P stop stop' →
    Paired P P.Parted (inside.content stop) (inside'.content stop') P.node
  optional : Paired P P.Parted inside.optional inside'.optional (Option.Rel P.node)
  ends : ∀ stop {c}, c.rest = [] →
    Outcome (inside.content stop) c (fun _ d => d.rest = []) fun _ _ => False

/-- The error that no more scopes may be opened. -/
def tooDeep (s : Setup) (t : Token) : ParseError :=
  .located (.tooDeep s.options.maxNestingDepth.number) t

theorem Pairing.Matches.tooDeep (h : s'.options.maxNestingDepth = s.options.maxNestingDepth)
    (t : Token) : P.Matches (tooDeep s t) (tooDeep s' (P.move t)) := by
  unfold Parser.tooDeep
  rw [h]
  exact .move (.located _) t rfl rfl

/-- The parsers inside one more scope agree, or the failures to open one are excused. -/
inductive NestedFits (P : Pairing) (s s' : Setup) : Nested → Nested → Prop where
  | neither : (∀ t, P.Matches (tooDeep s t) (tooDeep s' (P.move t)) ∨ P.left (tooDeep s t) ∨
    P.right (tooDeep s' (P.move t))) → NestedFits P s s' none none
  | right {inside' : Inside} : (∀ t, P.left (tooDeep s t)) → NestedFits P s s' none (some inside')
  | left {inside : Inside} : (∀ t, P.right (tooDeep s' t)) → NestedFits P s s' (some inside) none
  | both {inside inside' : Inside} : InsideFits P inside inside' →
    NestedFits P s s' (some inside) (some inside')

/-- What is assumed of two runs in which the same parser is compared. -/
structure Alike (P : Pairing) (s s' : Setup) (nested nested' : Nested) : Prop where
  setups : Relates P s s'
  scopes : NestedFits P s s' nested nested'
  follows : nested.Follows s

namespace Agree

variable {post : γ → Cursor → δ → Cursor → Prop}

/-- What follows the opening of a scope. -/
theorem enter_bind (hn : NestedFits P s s' nested nested') (hj : Joined P inner c c')
    {scope : Scope} {f : Inside → ParseM γ} {f' : Inside → ParseM δ}
    (h : ∀ {inside inside' d d'}, nested = some inside → InsideFits P inside inside' →
      Joined P (scope :: inner) d d' → Agree P parted (f inside) (f' inside') d d' post) :
    Agree P parted (enter s nested scope >>= f) (enter s' nested' (P.moveScope scope) >>= f')
      c c' post := by
  cases hn with
  | neither he => exact .of_error rfl rfl (he scope.token)
  | right he =>
    refine .of_left ?_
    exact he scope.token
  | left he =>
    refine .of_right ?_
    exact he (P.move scope.token)
  | both hi =>
    have hj' : Joined P (scope :: inner) { c with scopes := scope :: c.scopes }
        { c' with scopes := P.moveScope scope :: c'.scopes } :=
      hj.push scope rfl rfl rfl rfl rfl rfl
    exact (h rfl hi hj').congr rfl rfl

theorem modify_bind {g g' : Cursor → Cursor} {f : Unit → ParseM γ} {f' : Unit → ParseM δ}
    (h : Agree P parted (f ()) (f' ()) (g c) (g' c') post) :
    Agree P parted (modify g >>= f) (modify g' >>= f') c c' post :=
  h.congr rfl rfl

theorem popScope_bind {scope : Scope} (hj : Joined P (scope :: inner) c c')
    {f : Unit → ParseM γ} {f' : Unit → ParseM δ}
    (h : ∀ {d d'}, Joined P inner d d' → Agree P parted (f ()) (f' ()) d d' post) :
    Agree P parted (popScope >>= f) (popScope >>= f') c c' post := by
  have hj' : Joined P inner { c with scopes := c.scopes.tail }
      { c' with scopes := c'.scopes.tail } := hj.pop rfl rfl rfl rfl rfl rfl
  exact (h hj').congr rfl rfl

/-- What follows the content of a scope and the token that closes it. -/
theorem content_next (hP : P.Closed) {i i' : Inside} (hi : InsideFits P i i') {stop stop' : Stop}
    (hstop : StopFits P stop stop') (hj : Joined P inner c c') {e e' : ParseError}
    {f : Node → Option Token → ParseM γ} {f' : Node → Option Token → ParseM δ}
    (hnil : ∀ n, f n none = MonadExcept.throw e) (hnil' : ∀ n, f' n none = MonadExcept.throw e')
    (he : P.Matches e e') (hown : Own e)
    (hcons : ∀ {n n' d d'} t, P.node n n' → Joined P inner d d' →
      Agree P parted (f n (some t)) (f' n' (some (P.move t))) d d' post) :
    Agree P parted (i.content stop >>= fun n => next >>= f n)
      (i'.content stop' >>= fun n => next >>= f' n) c c' post := by
  refine .bind_parted hP (hi.content hstop inner c c' hj) (fun n d hd => ?_) ?_
  · refine (outcome_bind _ _).mpr ((outcome_next_nil hd.2).mpr ?_)
    rw [hnil]
    exact hown
  · rintro n d n' d' ⟨hj', hnode⟩
    exact .next_bind hP hj' (hnil n) (hnil' n') he hown fun t rest _ hj => hcons t hnode hj

end Agree

/-! ## Groups -/

theorem paired_enclosed {opens closes : Token → Bool} {kind : Scope.Kind} {name : Text}
    {expected unclosed : ParseError.Cause} (h : Alike P s s' nested nested')
    (hopens : ∀ t, opens (P.move t) = opens t) (hcloses : ∀ t, closes (P.move t) = closes t)
    (hexpected : ∀ limit, expected ≠ .tooDeep limit)
    (hunclosed : ∀ limit, unclosed ≠ .tooDeep limit) :
    Paired P Never (enclosed s nested opens closes kind name expected unclosed)
      (enclosed s' nested' opens closes kind name expected unclosed) P.node := by
  intro inner c c' hj
  have hP := h.setups.closed
  unfold enclosed
  refine .next_bind hP hj rfl rfl (.refl _) (own_nowhere hexpected) fun opening rest _ hj => ?_
  by_cases hopen : opens opening = true
  · simp only [hopens, hopen, if_true]
    refine .enter_bind h.scopes hj fun _ hi hj => ?_
    refine .content_next hP hi (.refl hcloses) hj (fun _ => rfl) (fun _ => rfl)
      (.move (.located unclosed) opening rfl rfl) (own_located hunclosed opening) ?_
    intro n n' d d' t hnode hj
    exact .popScope_bind hj fun hj => .pure ⟨hj, hnode⟩
  · simp only [hopens, hopen, Bool.false_eq_true, if_false]
    exact .throw_located expected opening

theorem paired_group (h : Alike P s s' nested nested') :
    Paired P Never (group s nested) (group s' nested') P.node := by
  rw [group_eq, group_eq]
  exact paired_enclosed h (fun _ => rfl) (fun _ => rfl) nofun nofun

theorem paired_bracketContent (h : Alike P s s' nested nested') :
    Paired P Never (bracketContent s nested) (bracketContent s' nested') P.node := by
  rw [bracketContent_eq, bracketContent_eq]
  exact paired_enclosed h (fun _ => rfl) (fun _ => rfl) nofun nofun

theorem paired_bracketGroup (h : Alike P s s' nested nested') :
    Paired P Never (bracketGroup s nested) (bracketGroup s' nested') P.node := by
  intro inner c c' hj
  unfold bracketGroup
  refine .map (paired_bracketContent h inner c c' hj) ?_
  rintro n d n' d' ⟨hj, hnode⟩
  exact ⟨hj, h.setups.fitting.elementOne "mfenced" rfl hnode⟩

/-- What follows a look at the next token, where the input may end. -/
theorem Agree.peek_bind_end {f : Option Token → ParseM γ} {f' : Option Token → ParseM δ}
    {post : γ → Cursor → δ → Cursor → Prop} (hj : Joined P inner c c')
    (hnil : Agree P parted (f none) (f' none) c c' post)
    (hparted : P.Parted c → Outcome (f none) c (fun _ d => parted d) fun e _ => P.left e)
    (hcons : ∀ t rest, c.rest = t :: rest →
      Agree P parted (f (some t)) (f' (some (P.move t))) c c' post) :
    Agree P parted (peek >>= f) (peek >>= f') c c' post := by
  cases hc : c.rest with
  | nil =>
    have hrun : (peek >>= f).run c = (f none).run c := by rw [run_peek, hc, List.head?_nil]
    by_cases htail : P.tail = []
    · refine hnil.congr hrun ?_
      rw [run_peek, hj.rest, hc, htail, List.map_nil, List.append_nil, List.head?_nil]
    · exact (of_left (hparted ⟨htail, hc⟩)).congr hrun rfl
  | cons t rest =>
    refine (hcons t rest hc).congr ?_ ?_
    · rw [run_peek, hc, List.head?_cons]
    · rw [run_peek, hj.rest_cons hc, List.head?_cons]

theorem paired_optionalArgument (h : Alike P s s' nested nested') :
    Paired P P.Parted (optionalArgument s nested) (optionalArgument s' nested')
      (Option.Rel P.node) := by
  intro inner c c' hj
  unfold optionalArgument
  refine .peek_bind_end hj (.pure ⟨hj, .none⟩) id fun t rest _ => ?_
  by_cases hopen : t.isOpenBracket = true
  · simp only [Pairing.isOpenBracket_move, hopen, if_true]
    refine .bind_never (paired_bracketContent h inner c c' hj) ?_
    rintro n d n' d' ⟨hj, hnode⟩
    exact .pure ⟨hj, .some hnode⟩
  · simp only [Pairing.isOpenBracket_move, hopen, Bool.false_eq_true, if_false]
    exact .pure ⟨hj, .none⟩

theorem paired_rawGroup (hs : Relates P s s') :
    Paired P Never (rawGroup s) (rawGroup s') P.raw := by
  intro inner c c' hj
  unfold rawGroup
  refine .get_bind ?_
  cases hc : c.rest with
  | nil =>
    refine .throw_or hs.closed (own_nowhere (by simp)) fun hsame => ?_
    rw [hj.rest_of_same hsame, hc]
    exact .throw (.refl _)
  | cons opening rest =>
    rw [hj.rest_cons hc]
    dsimp only
    by_cases hopen : opening.isOpenBrace = true
    · simp only [Pairing.isOpenBrace_move, hopen, if_true]
      cases hfind : closingBrace? 0 rest with
      | none =>
        refine .throw_or hs.closed (own_located (by simp) opening) fun hsame => ?_
        rw [hsame.tail, List.append_nil, closingBrace?_map P.keepsTokens, hfind]
        exact .throw_located .openBrace opening
      | some found =>
        obtain ⟨closing, n⟩ := found
        obtain ⟨body, behind, hrest, hn, -⟩ := closingBrace?_eq_some hfind
        have hmoved : closingBrace? 0 (rest.map P.move) = some (P.move closing, n) := by
          rw [closingBrace?_map P.keepsTokens, hfind]
          rfl
        have hraw := hs.raw (hc ▸ hj.suffix) hopen hfind
        rw [closingBrace?_append hmoved]
        refine .advance_bind (.pure ⟨hj.skip ?_, hraw⟩)
        rw [hc, hrest, hn]
        simp
    · simp only [Pairing.isOpenBrace_move, hopen, Bool.false_eq_true, if_false]
      exact .throw_located .expectedBrace opening

/-! ## Arguments of commands -/

theorem paired_expectGroup (hP : P.Closed) (t : Token) (index : Nat) :
    Paired P Never (expectGroup t index) (expectGroup (P.move t) index) fun _ _ => True := by
  intro inner c c' hj
  unfold expectGroup
  have hmissing : P.Matches (.located (.missingGroup t.value index) t)
      (.located (.missingGroup (P.move t).value index) (P.move t)) :=
    .move (fun t => .located (.missingGroup t.value index) t) t rfl rfl
  refine .peek_bind hP hj rfl rfl hmissing (own_located (by simp) t) fun next rest _ => ?_
  by_cases hopen : next.isOpenBrace = true
  · simp only [Pairing.isOpenBrace_move, hopen, if_true]
    exact .pure ⟨hj, trivial⟩
  · simp only [Pairing.isOpenBrace_move, hopen, Bool.false_eq_true, if_false]
    exact .throw hmissing

theorem paired_argument (h : Alike P s s' nested nested') (t : Token) (index : Nat) :
    Paired P Never (argument s nested t index) (argument s' nested' (P.move t) index) P.node := by
  intro inner c c' hj
  unfold argument
  refine .bind_never (paired_expectGroup h.setups.closed t index inner c c' hj) ?_
  rintro _ d _ d' ⟨hj, -⟩
  refine .map (paired_group h inner d d' hj) ?_
  rintro n d n' d' ⟨hj, hnode⟩
  exact ⟨hj, h.setups.fitting.slot hnode⟩

theorem paired_rawArgument (hs : Relates P s s') (t : Token) (index : Nat) :
    Paired P Never (rawArgument s t index) (rawArgument s' (P.move t) index) P.raw := by
  intro inner c c' hj
  unfold rawArgument
  refine .bind_never (paired_expectGroup hs.closed t index inner c c' hj) ?_
  rintro _ d _ d' ⟨hj, -⟩
  exact paired_rawGroup hs inner d d' hj

theorem paired_takeDelimiter (hs : Relates P s s') (t : Token) :
    Paired P Never (takeDelimiter s t) (takeDelimiter s' (P.move t)) Eq := by
  intro inner c c' hj
  unfold takeDelimiter
  refine .next_bind hs.closed hj rfl rfl
    (.move (fun t => .located (.missingDelimiter t.value) t) t rfl rfl) (own_located (by simp) t)
    fun delimiter rest _ hj => ?_
  simp only [hs.grammar, Pairing.delimiter?_move]
  cases delimiter? s.grammar delimiter with
  | none => exact .throw_located (.invalidDelimiter t.value) delimiter
  | some shown => exact .pure ⟨hj, rfl⟩

theorem paired_leftRight (h : Alike P s s' nested nested') (t : Token) :
    Paired P Never (leftRight s nested t) (leftRight s' nested' (P.move t)) P.node := by
  intro inner c c' hj
  have hP := h.setups.closed
  unfold leftRight
  refine .bind_never (paired_takeDelimiter h.setups t inner c c' hj) ?_
  rintro opening d _ d' ⟨hj, rfl⟩
  refine .enter_bind h.scopes hj fun _ hi hj => ?_
  refine .content_next hP hi (.refl fun _ => rfl) hj (fun _ => rfl) (fun _ => rfl)
    (.move (.located .openLeft) t rfl rfl) (own_located (by simp) t) ?_
  intro n n' d d' right hnode hj
  refine .popScope_bind hj fun {d d'} hj => ?_
  refine .map (paired_takeDelimiter h.setups right inner d d' hj) ?_
  rintro closing d _ d' ⟨hj, rfl⟩
  exact ⟨hj, h.setups.fitting.pairNode opening closing hnode⟩

theorem paired_skipOf : Paired P P.Parted Reading.skipOf Reading.skipOf fun _ _ => True := by
  intro inner c c' hj
  unfold Reading.skipOf
  refine .peek_bind_end hj (.pure ⟨hj, trivial⟩) id fun t rest hc => ?_
  by_cases hof : t.isCommand "\\of" = true
  · simp only [Pairing.isCommand_move, hof, if_true]
    exact (Agree.pure ⟨hj.next hc, trivial⟩).congr rfl rfl
  · simp only [Pairing.isCommand_move, hof, Bool.false_eq_true, if_false]
    exact .pure ⟨hj, trivial⟩

/-- An argument is missing where the runs have parted. -/
theorem outcome_argument_nil (t : Token) (index : Nat) (hc : c.rest = []) :
    Outcome (argument s nested t index) c (fun _ _ => False) fun e _ => Own e := by
  unfold argument expectGroup
  refine (outcome_bind _ _).mpr (Outcome.peek_bind (fun _ => ?_) fun next rest hc' => ?_)
  · exact own_located (by simp) t
  rw [hc] at hc'
  cases hc'

/-- Readings that fit read alike. -/
theorem paired_reading (h : Alike P s s' nested nested') (t : Token) {r r' : Reading}
    (hr : ReadingFits P r r') :
    Paired P Never (r.parser s nested t) (r'.parser s' nested' (P.move t)) P.node := by
  intro inner c c' hj
  have hP := h.setups.closed
  cases hr with
  | nothing hnode => exact .pure ⟨hj, hnode⟩
  | raw hbuild =>
    refine .map (paired_rawArgument h.setups t 1 inner c c' hj) ?_
    rintro raw d raw' d' ⟨hj, hraw⟩
    exact ⟨hj, hbuild hraw⟩
  | one hbuild =>
    refine .map (paired_argument h t 1 inner c c' hj) ?_
    rintro n d n' d' ⟨hj, hnode⟩
    exact ⟨hj, hbuild hnode⟩
  | two hbuild =>
    refine .bind_never (paired_argument h t 1 inner c c' hj) ?_
    rintro n d n' d' ⟨hj, hnode⟩
    refine .map (paired_argument h t 2 inner d d' hj) ?_
    rintro m d m' d' ⟨hj, hnode'⟩
    exact ⟨hj, hbuild hnode hnode'⟩
  | delimiter hbuild =>
    refine .map (paired_takeDelimiter h.setups t inner c c' hj) ?_
    rintro shown d _ d' ⟨hj, rfl⟩
    exact ⟨hj, hbuild shown⟩
  | squareRoot =>
    refine .bind_parted hP (paired_optionalArgument h inner c c' hj) (fun degree d hd => ?_) ?_
    · exact (outcome_bind _ _).mpr ((outcome_argument_nil t 1 hd.2).weaken fun _ _ => False.elim)
    · rintro degree d degree' d' ⟨hj, hdegree⟩
      refine .map (paired_argument h t 1 inner d d' hj) ?_
      rintro n d n' d' ⟨hj, hnode⟩
      exact ⟨hj, h.setups.fitting.rootNode hdegree hnode⟩
  | root =>
    refine .bind_never (paired_argument h t 1 inner c c' hj) ?_
    rintro n d n' d' ⟨hj, hnode⟩
    refine .bind_parted hP (paired_skipOf inner d d' hj) (fun _ d hd => ?_) ?_
    · exact (outcome_bind _ _).mpr ((outcome_argument_nil t 2 hd.2).weaken fun _ _ => False.elim)
    · rintro _ d _ d' ⟨hj, -⟩
      refine .map (paired_argument h t 2 inner d d' hj) ?_
      rintro m d m' d' ⟨hj, hnode'⟩
      exact ⟨hj, h.setups.fitting.elementTwo "mroot" rfl hnode' hnode⟩
  | leftRight => exact paired_leftRight h t inner c c' hj
  | refused he => exact .throw he

/-! ## Environments -/

theorem paired_takeName (hP : P.Closed) (t : Token) :
    Paired P Never (takeName t) (takeName (P.move t)) Eq := by
  intro inner c c' hj
  unfold takeName
  refine .get_bind ?_
  cases hread : readName t c.rest with
  | error e =>
    refine .throw_or hP (own_readName hread) fun hsame => ?_
    obtain ⟨e', hread', he⟩ := P.matches_readName hread
    rw [hj.rest_of_same hsame, hread']
    exact .throw he
  | ok found =>
    obtain ⟨name, n⟩ := found
    obtain ⟨w, rest, hrest, hn, -⟩ := readName_eq_ok hread
    rw [hj.rest, readName_append (readName_map P.keepsTokens hread)]
    refine .advance_bind (.pure ⟨hj.skip ?_, rfl⟩)
    rw [hrest, hn]
    simp

/-- The name stands behind the token in the tokens of the left run. -/
theorem agree_environmentNamed (hs : Relates P s s') {name : Text} {t : Token}
    {group rest : List Token} (htokens : t :: (group ++ rest) <:+ P.tokens)
    (hbegin : t.isCommand "\\begin" = true) (hgroup : NameGroup group name)
    (hj : Joined P inner c c') :
    Agree P Never (environmentNamed s name t) (environmentNamed s' name (P.move t)) c c'
      fun e d e' d' => Joined P inner d d' ∧ e = e' := by
  unfold environmentNamed
  rw [hs.grammar]
  cases hget : s.grammar.environments.get? name with
  | some e => exact .pure ⟨hj, rfl⟩
  | none =>
    dsimp only
    rcases hs.unknownEnvironment htokens hbegin hgroup hget with hsame | ⟨hstrict, hleft⟩
    · rw [hsame]
      by_cases hstrict : s.options.strictMode.isTruthy = true
      · simp only [if_pos hstrict]
        exact .throw (.move (.named (.unknownEnvironment name) name) t rfl rfl)
      · simp only [if_neg hstrict]
        exact (Agree.pure ⟨hj.congr rfl rfl rfl rfl rfl rfl, rfl⟩).congr rfl rfl
    · rw [if_pos hstrict]
      exact .of_left hleft

theorem stopFits_stopAt (stop : Nat) : StopFits P (stopAt stop) (stopAt (stop + P.shift)) := by
  intro p t
  left
  simp [stopAt]

theorem stopFits_stopAtCell (stop : Nat) :
    StopFits P (stopAtCell stop) (stopAtCell (stop + P.shift)) := by
  intro p t
  left
  simp [stopAtCell]

/-- Where there are no tokens left the loop over the cells of a table ends. -/
theorem outcome_tableRows_nil {i i' : Inside} (hi : InsideFits P i i') (stop rounds : Nat)
    (cells : List Node) (rows : List (List Node)) (hc : c.rest = []) :
    Outcome (tableRows i stop rounds cells rows) c (fun _ d => d.rest = []) fun _ _ => False := by
  cases rounds with
  | zero => exact hc
  | succ rounds =>
    unfold tableRows
    refine Outcome.bind (hi.ends (stopAtCell stop) hc) fun cell d hd => ?_
    refine Outcome.get_bind ?_
    rw [hd]
    exact hd

/-- The loops over the cells of a table agree. -/
theorem agree_tableRows {i i' : Inside} (hP : P.Closed) (hi : InsideFits P i i')
    (hcontent : ∀ stop, FollowsTo s stop (i.content stop))
    (hoptional : Follows s .optional i.optional) (stop : Nat) {rounds rounds' : Nat}
    {cells cells' : List Node} {rows rows' : List (List Node)}
    (hj : Joined P inner c c') (hrounds : c.rest.length < rounds)
    (hrounds' : c.rest.length + P.tail.length < rounds')
    (hcells : List.Forall₂ P.node cells cells')
    (hrows : List.Forall₂ (List.Forall₂ P.node) rows rows') :
    Agree P P.Parted (tableRows i stop rounds cells rows)
      (tableRows i' (stop + P.shift) rounds' cells' rows') c c' fun all d all' d' =>
        Joined P inner d d' ∧ List.Forall₂ (List.Forall₂ P.node) all all' := by
  induction rounds generalizing rounds' cells cells' rows rows' c c' with
  | zero => omega
  | succ rounds ih =>
    cases rounds' with
    | zero => omega
    | succ rounds' =>
      simp only [tableRows]
      have hcell := (hi.content (stopFits_stopAtCell stop) inner c c' hj).and_gives
        (hcontent (stopAtCell stop) c)
      refine .bind_parted hP hcell (fun cell d hd => ?_) ?_
      · refine Outcome.get_bind ?_
        rw [hd.2]
        exact hd
      rintro cell d cell' d' ⟨⟨hj, hnode⟩, w, done, hw, -⟩
      have hlen := hw.length_le
      have hmore : List.Forall₂ P.node (cell :: cells) (cell' :: cells') := .cons hnode hcells
      have hfinished := List.Forall₂.cons (List.forall₂_reverse_iff.mpr hmore) hrows
      have hall := List.forall₂_reverse_iff.mpr hfinished
      refine .get_bind ?_
      cases hd : d.rest with
      | nil =>
        -- Where the right run has more tokens the left one leaves the table before it.
        by_cases htail : P.tail = []
        · rw [hj.rest, hd, htail, List.map_nil, List.append_nil]
          exact .pure ⟨hj, hall⟩
        · exact .of_left ⟨htail, hd⟩
      | cons t rest =>
        rw [hj.rest_cons hd, hj.position]
        simp only [Nat.add_right_cancel_iff]
        by_cases hend : d.position = stop
        · simp only [if_pos hend]
          exact .pure ⟨hj, hall⟩
        · simp only [if_neg hend]
          refine .advance_bind ?_
          have hskip := hj.next hd
          have hfewer : (d.skip 1).rest.length + 1 = d.rest.length := by
            rw [Cursor.rest_skip, hd]
            rfl
          by_cases hrow : isRowSeparator t = true
          · simp only [Pairing.isRowSeparator_move, hrow, if_true]
            have hhint := (hi.optional inner _ _ hskip).and_gives (hoptional (d.skip 1))
            refine .bind_parted hP hhint (fun _ d hd => ?_) ?_
            · exact (outcome_tableRows_nil hi stop rounds _ _ hd.2).mono
                (fun _ _ hd' => ⟨hd.1, hd'⟩) fun _ _ => False.elim
            · rintro _ d1 _ d1' ⟨⟨hj, -⟩, v, hv, -⟩
              have hlen' := hv.length_le
              exact ih hj (by omega) (by omega) .nil hfinished
          · simp only [Pairing.isRowSeparator_move, hrow, Bool.false_eq_true, if_false]
            exact ih hskip (by omega) (by omega) hmore hrows

theorem agree_environmentContent {i i' : Inside} (h : Alike P s s' nested nested')
    (hnested : nested = some i) (hi : InsideFits P i i') (name : Text) {argument argument' : Text}
    (hargument : Environment.columnAlignment argument' = Environment.columnAlignment argument)
    (e : Environment) (stop : Nat) (hj : Joined P inner c c') :
    Agree P P.Parted (environmentContent i name e stop argument)
      (environmentContent i' name e (stop + P.shift) argument') c c' fun n d n' d' =>
        Joined P inner d d' ∧ P.node n n' := by
  have hfit := h.setups.fitting
  have hP := h.setups.closed
  obtain ⟨hcontent, hoptional⟩ := h.follows i hnested
  have flow : Agree P P.Parted (i.content (stopAt stop) >>= fun n => pure (flowNode name e n))
      (i'.content (stopAt (stop + P.shift)) >>= fun n => pure (flowNode name e n)) c c'
      fun n d n' d' => Joined P inner d d' ∧ P.node n n' := by
    refine .map (hi.content (stopFits_stopAt stop) inner c c' hj) ?_
    rintro n d n' d' ⟨hj, hnode⟩
    exact ⟨hj, hfit.flowNode name e hnode⟩
  have grid : Agree P P.Parted
      (tableRows i stop (c.rest.length + 1) [] [] >>= fun rows => pure (gridNode e argument rows))
      (tableRows i' (stop + P.shift) (c'.rest.length + 1) [] [] >>= fun rows =>
        pure (gridNode e argument' rows)) c c' fun n d n' d' =>
          Joined P inner d d' ∧ P.node n n' := by
    have hlen := hj.length_rest
    refine .map (agree_tableRows hP hi hcontent hoptional stop hj (by omega) (by omega) .nil
      .nil) ?_
    rintro rows d rows' d' ⟨hj, hrows⟩
    exact ⟨hj, hfit.gridNode e hargument hrows⟩
  unfold environmentContent
  cases hk : e.kind with
  | display => simpa [flowNode, hk] using flow
  | container => simpa [flowNode, hk] using flow
  | table => exact (by simpa [gridNode, hk] using grid : Agree P P.Parted _ _ c c' _).get_bind
  | fencedTable => exact (by simpa [gridNode, hk] using grid : Agree P P.Parted _ _ c c' _).get_bind
  | array => exact (by simpa [gridNode, hk] using grid : Agree P P.Parted _ _ c c' _).get_bind

theorem paired_environmentArgument? (hs : Relates P s s') (name : Text) (opening : Token)
    (e : Environment) (stop : Nat) :
    Paired P Never (environmentArgument? s name opening e stop)
      (environmentArgument? s' name (P.move opening) e (stop + P.shift)) fun argument argument' =>
        Environment.columnAlignment argument' = Environment.columnAlignment argument := by
  intro inner c c' hj
  unfold environmentArgument?
  by_cases htakes : e.takesArgument = true
  · simp only [if_pos htakes]
    unfold environmentArgument
    have hmissing : P.Matches (.named (.missingEnvironmentArgument name) name opening)
        (.named (.missingEnvironmentArgument name) name (P.move opening)) :=
      .move (.named (.missingEnvironmentArgument name) name) opening rfl rfl
    refine .get_bind ?_
    cases hc : c.rest with
    | nil =>
      refine .throw_or hs.closed (own_named (by simp) name opening) fun hsame => ?_
      rw [hj.rest_of_same hsame, hc]
      exact .throw hmissing
    | cons t rest =>
      rw [hj.rest_cons hc, hj.position]
      simp only [ne_eq, Nat.add_right_cancel_iff, Pairing.isOpenBrace_move]
      by_cases hopen : ¬c.position = stop ∧ t.isOpenBrace = true
      · simp only [if_pos hopen]
        exact (paired_rawGroup hs inner c c' hj).mono (fun _ hd => hd) fun _ _ _ _ h =>
          ⟨h.1, hs.columns h.2⟩
      · simp only [if_neg hopen]
        exact .throw hmissing
  · simp only [if_neg htakes]
    exact .pure ⟨hj, rfl⟩

/-- There is no end where the runs have parted. -/
theorem outcome_takeEnd_nil (name : Text) (stop : Nat) (hc : c.rest = []) :
    Outcome (takeEnd name stop) c (fun _ _ => False) fun e _ => Own e := by
  unfold takeEnd
  refine Outcome.get_bind (Outcome.next_bind (fun _ => ?_) fun t rest hc' => ?_)
  · exact own_nowhere (by simp)
  · rw [hc] at hc'
    cases hc'

theorem paired_takeEnd (hP : P.Closed) (name : Text) (stop : Nat) :
    Paired P Never (takeEnd name stop) (takeEnd name (stop + P.shift)) fun _ _ => True := by
  intro inner c c' hj
  unfold takeEnd
  refine .get_bind (.next_bind hP hj rfl rfl (.refl _) (own_nowhere (by simp))
    fun t rest _ hskip => ?_)
  rw [hj.position]
  simp only [Nat.add_right_cancel_iff]
  by_cases hstop : c.position = stop
  · simp only [if_pos hstop]
    refine .bind_never (paired_takeName hP t inner _ _ hskip) ?_
    rintro closing d _ d' ⟨hj, rfl⟩
    by_cases hne : closing ≠ name
    · simp only [if_pos hne]
      exact .throw_located (.otherEnd name closing) t
    · simp only [if_neg hne]
      exact .pure ⟨hj, trivial⟩
  · simp only [if_neg hstop]
    exact .throw (.move (fun t => .located (.expectedEnd name (some t)) t) t rfl rfl)

theorem paired_environmentRest (h : Alike P s s' nested nested') (name : Text) (opening : Token)
    (e : Environment) (stop : Nat) :
    Paired P Never (environmentRest s nested name opening e stop)
      (environmentRest s' nested' name (P.move opening) e (stop + P.shift)) P.node := by
  intro inner c c' hj
  have hP := h.setups.closed
  unfold environmentRest
  refine .enter_bind h.scopes hj fun {i i' c c'} hnested hi hj => ?_
  refine .get_bind (.modify_bind ?_)
  refine .bind_never (paired_environmentArgument? h.setups name opening e stop _ _ _
    (hj.congr rfl rfl rfl rfl rfl rfl)) ?_
  rintro argument d argument' d' ⟨hj, hargument⟩
  refine .bind_parted hP (agree_environmentContent h hnested hi name hargument e stop hj)
    (fun n d hd => ?_) ?_
  · simp only [outcome_bind, outcome_modify, outcome_popScope]
    exact Outcome.weaken (outcome_takeEnd_nil name stop hd.2) fun _ _ => False.elim
  · rintro n d n' d' ⟨hj, hnode⟩
    have hj' : Joined P (_ :: inner) { d with environment := c.environment }
        { d' with environment := c'.environment } := hj.congr rfl rfl rfl rfl rfl rfl
    refine .modify_bind (.popScope_bind hj' fun {d d'} hj => ?_)
    refine .bind_never (paired_takeEnd hP name stop _ d d' hj) ?_
    rintro _ d _ d' ⟨hj, -⟩
    exact .pure ⟨hj, hnode⟩

theorem paired_environment (h : Alike P s s' nested nested') :
    Paired P Never (environment s nested) (environment s' nested') P.node := by
  intro inner c c' hj
  have hP := h.setups.closed
  rw [environment_eq, environment_eq]
  have hsuffix := hj.suffix
  refine .next_bind hP hj rfl rfl (.refl _) (own_nowhere (by simp)) fun opening rest hc hj => ?_
  by_cases hbegin : opening.isCommand "\\begin" = true
  · simp only [Pairing.isCommand_move, hbegin, if_true]
    refine .bind_never ((paired_takeName hP opening inner _ _ hj).and_gives
      (gives_takeName opening _)) ?_
    rintro name d _ d' ⟨⟨hj, rfl⟩, group, hd, hgroup⟩
    have htokens : opening :: (group ++ d.rest) <:+ P.tokens := by
      rw [← hd.rest, Cursor.rest_skip, hc]
      exact hc ▸ hsuffix
    refine .bind_never (agree_environmentNamed h.setups htokens hbegin hgroup hj) ?_
    rintro e d _ d' ⟨hj, rfl⟩
    refine .get_bind ?_
    rw [hj.position, findEnd_shift]
    cases hfind : findEnd name opening [] d.position d.rest with
    | error error =>
      refine .throw_or hP (own_findEnd hfind) fun hsame => ?_
      obtain ⟨error', hfind', herror⟩ := P.matches_findEnd hfind
      rw [List.map_nil] at hfind'
      rw [hj.rest_of_same hsame, hfind']
      exact .throw herror
    | ok found =>
      -- The right run finds the same end, as far ahead as its positions are.
      have hmoved := findEnd_append (findEnd_map P.keepsTokens hfind) P.tail
      rw [List.map_nil, ← hj.rest] at hmoved
      rw [hmoved]
      refine .trace_bind fun log log' => ?_
      exact paired_environmentRest h name opening e found.1 inner _ _
        (hj.congr rfl rfl rfl rfl rfl rfl)
  · simp only [Pairing.isCommand_move, hbegin, Bool.false_eq_true, if_false]
    exact .throw (.move (fun t => .located (.expectedBegin (some t)) t) opening rfl rfl)

/-! ## Atoms -/

/-- The next token is at the cursors of both runs. -/
theorem agree_unknownCommand (hs : Relates P s s') (hj : Joined P inner c c') {t : Token}
    {rest : List Token} (hc : c.rest = t :: rest) (hcommand : t.kind = .command)
    (hget : s.grammar.commands.get? t.value = none) :
    Agree P Never (unknownCommand s t) (unknownCommand s' (P.move t)) c c' fun n d n' d' =>
      Joined P inner d d' ∧ P.node n n' := by
  unfold unknownCommand
  rcases hs.unknownCommand (hj.mem hc) hcommand hget with hsame | ⟨hrejects, hleft⟩
  · rw [hsame]
    by_cases hrejects : rejectsUnknown s = true
    · simp only [if_pos hrejects]
      exact .throw (.move (fun t => .located (.unknownCommand t.value) t) t rfl rfl)
    · simp only [if_neg hrejects]
      exact (Agree.pure ⟨(hj.next hc).congr rfl rfl rfl rfl rfl rfl,
        hs.fitting.leaf "mtext" t.value unplaced_nil⟩).congr rfl rfl
  · rw [if_pos hrejects]
    exact .of_left hleft

theorem agree_commandAt (h : Alike P s s' nested nested') (hj : Joined P inner c c') {t : Token}
    {rest : List Token} (hc : c.rest = t :: rest) (hcommand : t.kind = .command) :
    Agree P Never (commandAt s nested t) (commandAt s' nested' (P.move t)) c c' fun n d n' d' =>
      Joined P inner d d' ∧ P.node n n' := by
  have meaning : ∀ m, s.grammar.commands.get? t.value = some m → Agree P Never
      (advance 1 >>= fun _ => trace s .commands (commandEntry t m) >>= fun _ =>
        (reading s t m).parser s nested t)
      (advance 1 >>= fun _ => trace s' .commands (commandEntry (P.move t) m) >>= fun _ =>
        (reading s' (P.move t) m).parser s' nested' (P.move t)) c c'
      fun n d n' d' => Joined P inner d d' ∧ P.node n n' := fun m hm =>
    .advance_bind (.trace_bind fun log log' =>
      paired_reading h t (h.setups.reading (hj.mem hc) hcommand hm) inner _ _
        ((hj.next hc).congr rfl rfl rfl rfl rfl rfl))
  unfold commandAt
  simp only [h.setups.grammar, Pairing.value_move]
  cases hget : s.grammar.commands.get? t.value with
  | none => exact agree_unknownCommand h.setups hj hc hcommand hget
  | some m =>
    cases m with
    | beginEnvironment => exact paired_environment h inner c c' hj
    | closer => exact .get_bind (.misplaced h.setups.closed hj t rfl)
    | limits movable =>
      exact .throw (.move (fun t => .located (.misplacedLimits t.value) t) t rfl rfl)
    | _ => exact meaning _ hget

theorem agree_atomAt (h : Alike P s s' nested nested') (hj : Joined P inner c c') {t : Token}
    {rest : List Token} (hc : c.rest = t :: rest) :
    Agree P Never (atomAt s nested t) (atomAt s' nested' (P.move t)) c c' fun n d n' d' =>
      Joined P inner d d' ∧ P.node n n' := by
  have hP := h.setups.closed
  have hfit := h.setups.fitting
  have hskip := hj.next hc
  unfold atomAt
  simp only [Pairing.kind_move, Pairing.value_move]
  cases hk : t.kind with
  | command =>
    dsimp only
    rw [command_eq, command_eq]
    refine .peek_bind hP hj rfl rfl (.refl _) (own_nowhere (by simp)) fun t' rest' hc' => ?_
    by_cases ht : t'.kind = .command
    · simp only [Pairing.kind_move, ht, if_true]
      exact agree_commandAt h hj hc' ht
    · simp only [Pairing.kind_move, ht, if_false]
      exact .throw_located .expectedCommand t'
  | symbol =>
    have hnode := hfit.symbolNode s.grammar t.value
    rw [h.setups.grammar]
    exact .advance_bind (.pure ⟨hskip, hnode⟩)
  | number => exact .advance_bind (.pure ⟨hskip, hfit.leaf "mn" t.value unplaced_nil⟩)
  | text => exact .advance_bind (.pure ⟨hskip, hfit.leaf "mtext" t.value unplaced_nil⟩)
  | brace =>
    dsimp only
    by_cases hopen : t.isOpenBrace = true
    · simp only [Pairing.isOpenBrace_move, hopen, if_true]
      exact paired_group h inner c c' hj
    · simp only [Pairing.isOpenBrace_move, hopen, Bool.false_eq_true, if_false]
      exact .get_bind (.misplaced hP hj t rfl)
  | bracket =>
    dsimp only
    by_cases hopen : t.isOpenBracket = true
    · simp only [Pairing.isOpenBracket_move, hopen, if_true]
      exact paired_bracketGroup h inner c c' hj
    · simp only [Pairing.isOpenBracket_move, hopen, Bool.false_eq_true, if_false]
      exact .get_bind (.misplaced hP hj t rfl)
  | whitespace => exact .throw_located (.unexpectedKind .whitespace) t

theorem paired_atom (h : Alike P s s' nested nested') :
    Paired P Never (atom s nested) (atom s' nested') P.node := by
  intro inner c c' hj
  rw [atom_eq, atom_eq]
  refine .peek_bind h.setups.closed hj rfl rfl (.refl _) (own_nowhere (by simp)) fun t rest hc => ?_
  refine .trace_bind fun log log' => ?_
  have hj' : Joined P inner { c with log := log } { c' with log := log' } :=
    hj.congr rfl rfl rfl rfl rfl rfl
  have hc' : ({ c with log := log } : Cursor).rest = t :: rest := hc
  refine .map (agree_atomAt h hj' hc') ?_
  rintro n d n' d' ⟨hj, hnode⟩
  exact ⟨hj, h.setups.placedNode (hj'.mem hc') hnode⟩

/-! ## Siblings -/

variable {stop stop' : Stop} {done done' : List Sibling}

theorem paired_scriptArgument (h : Alike P s s' nested nested') (hstop : StopFits P stop stop')
    (script : Script) (marker : Token) :
    Paired P Never (scriptArgument s nested stop script marker)
      (scriptArgument s' nested' stop' script (P.move marker)) P.node := by
  intro inner c c' hj
  unfold scriptArgument
  refine .get_bind ?_
  cases hc : c.rest with
  | nil =>
    refine .throw_or h.setups.closed (own_located (by simp) marker) fun hsame => ?_
    rw [hj.rest_of_same hsame, hc]
    exact .throw_located (.missingScript script) marker
  | cons t rest =>
    rw [hj.rest_cons hc, hj.position]
    dsimp only
    -- A closer is no argument, whether the expression stops at it or not.
    have hmissing : (stop' (c.position + P.shift) (P.move t) ||
        (Scope.closedBy? (P.move t)).isSome || (Script.ofToken? (P.move t)).isSome) =
        (stop c.position t || (Scope.closedBy? t).isSome || (Script.ofToken? t).isSome) := by
      rw [Pairing.closedBy?_move, Pairing.ofToken?_move]
      rcases hstop c.position t with hsame | ⟨-, hcloser, -⟩
      · rw [hsame]
      · rw [hcloser, Bool.or_true, Bool.or_true]
    simp only [hmissing]
    split
    · exact .throw_located (.missingScript script) marker
    · by_cases hopen : t.isOpenBrace = true
      · simp only [Pairing.isOpenBrace_move, hopen, if_true]
        refine .map (paired_group h inner c c' hj) ?_
        rintro n d n' d' ⟨hj, hnode⟩
        exact ⟨hj, h.setups.fitting.slot hnode⟩
      · simp only [Pairing.isOpenBrace_move, hopen, Bool.false_eq_true, if_false]
        exact paired_atom h inner c c' hj

/-- A relation of siblings that the rounds of two expressions keep. The left run may have no sibling
to which a script can be bound where the right one has one, if its failures are excused. -/
structure Carries (P : Pairing) (rel : List Sibling → List Sibling → Prop) : Prop where
  isEmpty : ∀ {done done'}, rel done done' →
    done'.isEmpty = done.isEmpty ∨ done.isEmpty = true ∧ P.Lenient
  atom : ∀ {done done' n n'}, rel done done' → P.node n n' →
    rel (.atom n :: done) (.atom n' :: done')
  script : ∀ {done done' n n'} script, rel done done' → P.node n n' →
    Option.Rel rel (bindScript? script n done) (bindScript? script n' done') ∨
      bindScript? script n done = none ∧ P.Lenient
  limits : ∀ {done done'} movable, rel done done' →
    rel (placeLimits movable done) (placeLimits movable done')

/-- Siblings that fit one by one go on to do so. -/
theorem Fitting.carries (h : Fitting P.node) : Carries P (SiblingsFit P.node) where
  isEmpty hdone := by cases hdone <;> exact Or.inl rfl
  atom hdone hn := .cons (.atom hn) hdone
  script script hdone hn := Or.inl (h.bindScript? script hn hdone)
  limits movable hdone := h.placeLimits movable hdone

variable {rel : List Sibling → List Sibling → Prop}

theorem agree_takeScript (h : Alike P s s' nested nested') (hstop : StopFits P stop stop')
    (hrel : Carries P rel) (script : Script) (hj : Joined P inner c c') {t : Token}
    {rest : List Token} (hc : c.rest = t :: rest) (hdone : rel done done') :
    Agree P Never (takeScript s nested stop script t done)
      (takeScript s' nested' stop' script (P.move t) done') c c' fun all d all' d' =>
        Joined P inner d d' ∧ rel all all' := by
  unfold takeScript
  refine .advance_bind ?_
  rcases hrel.isEmpty hdone with hempty | ⟨hempty, hleft⟩
  · rw [hempty]
    split
    · exact .throw_located (.missingBase script) t
    · refine .bind_never (paired_scriptArgument h hstop script t inner _ _ (hj.next hc)) ?_
      rintro n d n' d' ⟨hj, hnode⟩
      rcases hrel.script script hdone hnode with hbound | ⟨hnone, hleft⟩
      · cases hbind : bindScript? script n done <;> cases hbind' : bindScript? script n' done' <;>
          rw [hbind, hbind'] at hbound <;> cases hbound
        · exact .throw_located (.doubleScript script) t
        · next hall => exact .pure ⟨hj, hall⟩
      · rw [hnone]
        exact .of_left (hleft (own_located (by simp) t))
  · rw [hempty]
    exact .of_left (hleft (own_located (by simp) t))

theorem agree_takeLimits (hrel : Carries P rel) (movable : Bool) (hj : Joined P inner c c')
    {t : Token} {rest : List Token} (hc : c.rest = t :: rest) (hdone : rel done done') :
    Agree P Never (takeLimits movable t done) (takeLimits movable (P.move t) done') c c'
      fun all d all' d' => Joined P inner d d' ∧ rel all all' := by
  obtain ⟨log, hrun⟩ := run_takeLimits movable t done c
  obtain ⟨log', hrun'⟩ := run_takeLimits movable (P.move t) done' c'
  have hj' : Joined P inner { c.skip 1 with log := log } { c'.skip 1 with log := log' } :=
    (hj.next hc).congr rfl rfl rfl rfl rfl rfl
  exact (Agree.pure ⟨hj', hrel.limits movable hdone⟩).congr hrun hrun'

/-- What one round of an expression takes and adds to the siblings. -/
def takeSibling (s : Setup) (nested : Nested) (stop : Stop) (t : Token) (done : List Sibling) :
    ParseM (List Sibling) :=
  match Script.ofToken? t, limits? s.grammar t with
  | some script, _ => takeScript s nested stop script t done
  | none, some movable => takeLimits movable t done
  | none, none => return .atom (← atom s nested) :: done

/-- A round of an expression that does not end it. -/
theorem run_siblings_cons {rounds : Nat} {t : Token} {rest : List Token} (hc : c.rest = t :: rest)
    (hstop : stop c.position t = false) (hclose : (Scope.closedBy? t).isSome = false)
    (f : List Sibling → ParseM γ) :
    (siblings s nested stop (rounds + 1) done >>= f).run c =
      (takeSibling s nested stop t done >>= fun all =>
        siblings s nested stop rounds all >>= f).run c := by
  have hround : (siblings s nested stop (rounds + 1) done).run c =
      (takeSibling s nested stop t done >>= siblings s nested stop rounds).run c := by
    simp only [siblings, takeSibling, EStateM.run_bind, EStateM.run_get, hc, hstop, hclose]
    cases Script.ofToken? t with
    | some script => rfl
    | none =>
      cases limits? s.grammar t with
      | some movable => rfl
      | none =>
        simp only [Bool.false_eq_true, if_false, EStateM.run_bind]
        cases (atom s nested).run c <;> rfl
  rw [EStateM.run_bind, hround, ← EStateM.run_bind, bind_assoc]

/-- An expression that is at its end is left as it is, whatever the rounds. -/
theorem run_siblings_end {rounds : Nat} (hstop : AtStop stop c) (f : List Sibling → ParseM γ) :
    (siblings s nested stop rounds done >>= f).run c = (f done).run c := by
  cases rounds with
  | zero => rfl
  | succ rounds =>
    cases hc : c.rest with
    | nil => simp only [siblings, EStateM.run_bind, EStateM.run_get, hc, EStateM.run_pure]
    | cons t rest =>
      simp only [siblings, EStateM.run_bind, EStateM.run_get, hc, hstop t rest hc, if_true,
        EStateM.run_pure]

/-- A closer at which an expression does not stop. -/
theorem run_siblings_closer {rounds : Nat} {t : Token} {rest : List Token}
    (hc : c.rest = t :: rest) (hstop : stop c.position t = false)
    (hclose : (Scope.closedBy? t).isSome = true) (f : List Sibling → ParseM γ) :
    (siblings s nested stop (rounds + 1) done >>= f).run c =
      (throw (Scope.misplaced c.scopes t) : ParseM γ).run c := by
  simp only [siblings, EStateM.run_bind, EStateM.run_get, hc, hstop, hclose]
  rfl

theorem atStop_nil (hc : c.rest = []) : AtStop stop c := by
  intro t rest hc'
  rw [hc] at hc'
  cases hc'

theorem not_atStop (h : ¬ AtStop stop c) :
    ∃ t rest, c.rest = t :: rest ∧ stop c.position t = false := by
  unfold AtStop at h
  push Not at h
  obtain ⟨t, rest, hc, hgoes⟩ := h
  exact ⟨t, rest, hc, Bool.not_eq_true _ ▸ hgoes⟩

theorem agree_takeSibling (h : Alike P s s' nested nested') (hstop : StopFits P stop stop')
    (hrel : Carries P rel) (hj : Joined P inner c c') {t : Token} {rest : List Token}
    (hc : c.rest = t :: rest) (hdone : rel done done') :
    Agree P Never (takeSibling s nested stop t done) (takeSibling s' nested' stop' (P.move t) done')
      c c' fun all d all' d' => Joined P inner d d' ∧ rel all all' := by
  unfold takeSibling
  simp only [h.setups.grammar, Pairing.ofToken?_move, Pairing.limits?_move]
  cases Script.ofToken? t with
  | some script => exact agree_takeScript h hstop hrel script hj hc hdone
  | none =>
    cases limits? s.grammar t with
    | some movable => exact agree_takeLimits hrel movable hj hc hdone
    | none =>
      refine .map (paired_atom h inner c c' hj) ?_
      rintro n d n' d' ⟨hj, hnode⟩
      exact ⟨hj, hrel.atom hdone hnode⟩

/-- Each round takes a token. -/
theorem gives_takeSibling (hn : nested.Follows s) {t : Token} {rest : List Token}
    (hc : c.rest = t :: rest) :
    Gives (takeSibling s nested stop t done) c fun _ d => ∃ w, Took (t :: w) c d := by
  unfold takeSibling
  cases Script.ofToken? t with
  | some script =>
    refine (gives_takeScript hn stop script hc done).weaken ?_
    rintro _ d ⟨w, n, hw, -⟩
    exact ⟨w, hw⟩
  | none =>
    cases limits? s.grammar t with
    | some movable =>
      refine (gives_takeLimits movable hc done).weaken ?_
      rintro _ d ⟨hw, -⟩
      exact ⟨[], hw⟩
    | none =>
      refine Outcome.bind (gives_atom hn hc) ?_
      rintro n d ⟨w, hw, -⟩
      exact ⟨w, hw⟩

/-- What follows the siblings of an expression. The left run has ended it, at a stop or at the end
of its tokens; the right one may be in the middle of its own. -/
theorem agree_siblings_bind (h : Alike P s s' nested nested') (hstop : StopFits P stop stop')
    (hrel : Carries P rel) {f : List Sibling → ParseM γ} {f' : List Sibling → ParseM δ}
    {post : γ → Cursor → δ → Cursor → Prop} {rounds rounds' : Nat} (hj : Joined P inner c c')
    (hdone : rel done done') (hrounds : c.rest.length ≤ rounds)
    (hrounds' : c'.rest.length ≤ rounds')
    (hend : ∀ {all all' d d' more}, Joined P inner d d' → rel all all' →
      AtStop stop d → d'.rest.length ≤ more →
        Agree P parted (f all) (siblings s' nested' stop' more all' >>= f') d d' post) :
    Agree P parted (siblings s nested stop rounds done >>= f)
      (siblings s' nested' stop' rounds' done' >>= f') c c' post := by
  induction rounds generalizing rounds' done done' c c' with
  | zero =>
    have hat : AtStop stop c := atStop_nil (List.length_eq_zero_iff.mp (Nat.le_zero.mp hrounds))
    exact (hend hj hdone hat hrounds').congr (run_siblings_end hat f) rfl
  | succ rounds ih =>
    by_cases hat : AtStop stop c
    · exact (hend hj hdone hat hrounds').congr (run_siblings_end hat f) rfl
    · obtain ⟨t, rest, hc, hgoes⟩ := not_atStop hat
      have hc' := hj.rest_cons hc
      have hlen := hj.length_rest
      cases rounds' with
      | zero =>
        rw [hc', Nat.le_zero, List.length_eq_zero_iff] at hrounds'
        cases hrounds'
      | succ rounds' =>
        cases hclose : (Scope.closedBy? t).isSome with
        | true =>
          -- The left run fails; the right one does too, or it stops and the failure is excused.
          have hrun : (siblings s nested stop (rounds + 1) done >>= f).run c =
              (throw (Scope.misplaced c.scopes t) : ParseM γ).run c :=
            run_siblings_closer hc hgoes hclose f
          rcases hstop c.position t with hsame | ⟨-, -, hleft⟩
          · rw [hgoes, ← hj.position] at hsame
            exact (Agree.misplaced h.setups.closed hj t
              (run_siblings_closer hc' hsame hclose f')).congr hrun rfl
          · refine (Agree.of_left ?_).congr hrun rfl
            exact hleft (own_misplaced c.scopes t)
        | false =>
          -- Both runs go on, and the right one has more rounds for the tokens behind.
          have hgoes' : stop' c'.position (P.move t) = false := by
            rcases hstop c.position t with hsame | ⟨-, hcloser, -⟩
            · rw [hj.position, hsame, hgoes]
            · rw [hclose] at hcloser
              cases hcloser
          have hround := (agree_takeSibling h hstop hrel hj hc hdone).and_gives
            (gives_takeSibling h.follows hc)
          refine (Agree.bind_never hround ?_).congr (run_siblings_cons hc hgoes hclose f)
            (run_siblings_cons hc' hgoes' hclose f')
          rintro all d all' d' ⟨⟨hj', hall⟩, w, hw⟩
          have hfewer := hw.length_le
          rw [List.length_cons] at hfewer
          have hlen' := hj'.length_rest
          exact ih hj' hall (by omega) (by omega)

/-! ## Expressions -/

theorem paired_expressionWith (h : Alike P s s' nested nested') (hstop : StopFits P stop stop') :
    Paired P P.Parted (expressionWith s nested stop) (expressionWith s' nested' stop') P.node := by
  intro inner c c' hj
  unfold expressionWith
  refine .get_bind (agree_siblings_bind h hstop h.setups.fitting.carries hj .nil
    (Nat.le_refl _) (Nat.le_refl _) ?_)
  intro all all' d d' more hj hall hat _
  have hnode := h.setups.fitting.collapseSiblings hall
  by_cases hparted : P.Parted d
  · exact .of_left hparted
  · -- Where the runs have not parted the right one ends, too.
    have hat' : AtStop stop' d' := by
      intro t rest hd'
      cases hd : d.rest with
      | nil =>
        have htail : P.tail = [] := by
          by_contra htail
          exact hparted ⟨htail, hd⟩
        rw [hj.rest, hd, htail] at hd'
        cases hd'
      | cons t' rest' =>
        rw [hj.rest_cons hd] at hd'
        cases hd'
        have hstops := hat t' rest' hd
        rcases hstop d.position t' with hsame | ⟨hgoes, -⟩
        · rw [hj.position, hsame, hstops]
        · rw [hstops] at hgoes
          cases hgoes
    exact (Agree.pure ⟨hj, hnode⟩).congr rfl (run_siblings_end hat' _)

/-- Where there are no tokens left an expression ends. -/
theorem outcome_expressionWith_nil (stop : Stop) {c : Cursor} (hc : c.rest = []) :
    Outcome (expressionWith s nested stop) c (fun _ d => d.rest = []) fun _ _ => False := by
  unfold expressionWith
  refine Outcome.get_bind ?_
  rw [hc]
  exact hc

/-- The parsers inside scopes agree if the failures to open one more are excused. -/
theorem alike_inside (hs : Relates P s s') {n n' : Nat}
    (hsame : n = n' → ∀ t, P.Matches (tooDeep s t) (tooDeep s' (P.move t)) ∨
      P.left (tooDeep s t) ∨ P.right (tooDeep s' (P.move t)))
    (hless : n < n' → ∀ t, P.left (tooDeep s t)) (hmore : n' < n → ∀ t, P.right (tooDeep s' t)) :
    Alike P s s' (inside s n) (inside s' n') := by
  induction n generalizing n' with
  | zero =>
    cases n' with
    | zero => exact ⟨hs, .neither (hsame rfl), follows_inside s 0⟩
    | succ n' => exact ⟨hs, .right (hless (Nat.succ_pos n')), follows_inside s 0⟩
  | succ n ih =>
    cases n' with
    | zero => exact ⟨hs, .left (hmore (Nat.succ_pos n)), follows_inside s (n + 1)⟩
    | succ n' =>
      -- One scope less may be opened on either side, so that their order stays.
      have halike : Alike P s s' (inside s n) (inside s' n') :=
        ih (fun h => hsame (congrArg _ h)) (fun h => hless (Nat.succ_lt_succ h)) fun h =>
          hmore (Nat.succ_lt_succ h)
      exact ⟨hs, .both ⟨fun hstop => paired_expressionWith halike hstop,
        paired_optionalArgument halike, outcome_expressionWith_nil⟩, follows_inside s (n + 1)⟩

theorem agree_expression (hs : Relates P s s') (hstop : StopFits P stop stop')
    (hj : Joined P inner c c')
    (hsame : allowance s c = allowance s' c' → ∀ t,
      P.Matches (tooDeep s t) (tooDeep s' (P.move t)) ∨ P.left (tooDeep s t) ∨
        P.right (tooDeep s' (P.move t)))
    (hless : allowance s c < allowance s' c' → ∀ t, P.left (tooDeep s t))
    (hmore : allowance s' c' < allowance s c → ∀ t, P.right (tooDeep s' t)) :
    Agree P P.Parted (expression s stop) (expression s' stop') c c' fun n d n' d' =>
      Joined P inner d d' ∧ P.node n n' :=
  .get_bind (paired_expressionWith (alike_inside hs hsame hless hmore) hstop inner c c' hj)

/-- The cursors at the start of two parses of the same tokens fit. -/
theorem joined_start (hsame : P.Same) (hshift : P.shift = 0) {tokens' : List Token}
    (htokens : P.tokens.map P.move = tokens') :
    Joined P [] { rest := P.tokens } { rest := tokens' } where
  suffix := List.suffix_refl _
  rest := by rw [hsame.tail, List.append_nil, htokens]
  position := by rw [hshift]
  scopes := rfl
  scopes_right := by
    rw [hsame.outer]
    rfl

/-- Two parses of the same tokens with the same limit on nesting. -/
theorem agree_same (hs : Relates P s s') (hsame : P.Same) (hshift : P.shift = 0)
    (hdepth : s'.options.maxNestingDepth = s.options.maxNestingDepth) {tokens' : List Token}
    (htokens : P.tokens.map P.move = tokens') :
    Agree P Never (expression s noStop) (expression s' noStop) { rest := P.tokens }
      { rest := tokens' } fun n _ n' _ => P.node n n' := by
  have hstart := joined_start hsame hshift htokens
  have hallowance : allowance s' { rest := tokens' } = allowance s { rest := P.tokens } := by
    unfold allowance
    rw [hdepth, ← htokens, List.length_map]
  have hruns := agree_expression hs (.refl fun _ => rfl : StopFits P noStop noStop) hstart
    (fun _ t => Or.inl (.tooDeep hdepth t)) (fun h => absurd h (by omega))
    fun h => absurd h (by omega)
  exact hruns.mono (fun d hd => hd.1 hsame.tail) fun n d n' d' h => h.2

end MathMarkup.Parser
