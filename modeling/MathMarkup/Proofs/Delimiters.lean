import MathMarkup.Proofs.Command
import MathMarkup.Proofs.Parser.Standalone

/-!
# Delimiters that are not closed

A formula is cut at openers that nothing closes: braces, brackets, or `\left` with its delimiter.
Each piece between them parses on its own. Then it is parsed in its place as it is on its own,
whatever follows (`Fails.filler`), and each opener leads one scope further in (`Fails.opening`).
What stands at the end decides the error (`TailFault`): at the end of the input the last opener is
not closed, and a closer that is not its own leads to an error about that opener or about the
closer.
-/

namespace MathMarkup

namespace Parser

/-! ## Openers -/

/-- The pairs of delimiters that enclose a part of a formula. -/
inductive Pair where
  | braces
  | brackets
  /-- `\left` and `\right`, each with a delimiter of its own. -/
  | leftRight
deriving DecidableEq

namespace Pair

/-- Whether a token opens a pair. -/
def opens (t : Token) : Pair → Bool
  | .braces => t.isOpenBrace
  | .brackets => t.isOpenBracket
  | .leftRight => t.isCommand "\\left"

/-- Whether a token closes a pair. -/
def closes (t : Token) : Pair → Bool
  | .braces => t.isCloseBrace
  | .brackets => t.isCloseBracket
  | .leftRight => t.isCommand "\\right"

/-- The error that a pair which a token opens is not closed. -/
def unclosed (opener : Token) : Pair → ParseError
  | .braces => .located .openBrace opener
  | .brackets => .located .openBracket opener
  | .leftRight => .located .openLeft opener

/-- The error that a token closes a pair which is not open. -/
def stray (closer : Token) : Pair → ParseError
  | .braces => .located .strayBrace closer
  | .brackets => .located .strayBracket closer
  | .leftRight => .located .strayRight closer

/-- The kind of scope that a pair makes. -/
def kind : Pair → Scope.Kind
  | .braces => .brace
  | .brackets => .bracket
  | .leftRight => .left

theorem kind_injective : Function.Injective kind := by
  intro pair pair' h
  cases pair <;> cases pair' <;> first | rfl | cases h

/-- The scope that a token opens. -/
def scope (opener : Token) (pair : Pair) : Scope where
  kind := pair.kind
  name := match pair with
    | .braces => "\x7b"
    | .brackets => "["
    | .leftRight => opener.value
  token := opener

theorem unclosed_scope (opener : Token) (pair : Pair) :
    (pair.scope opener).unclosed = pair.unclosed opener := by
  cases pair <;> rfl

theorem stray_kind (closer : Token) (pair : Pair) :
    Scope.stray (some pair.kind) closer = pair.stray closer := by
  cases pair <;> rfl

/-- What closes a pair closes a scope of its kind, and nothing else does. -/
theorem closes_iff (pair : Pair) (t : Token) :
    pair.closes t = true ↔ Scope.closedBy? t = some pair.kind := by
  constructor
  · intro h
    cases pair <;> obtain ⟨hk, hv⟩ := Token.is_iff.mp h <;>
      simp [Scope.closedBy?, Token.isCloseBrace, Token.isCloseBracket, Token.isBrace,
        Token.isBracket, Token.isCommand, Token.is, hk, hv, kind]
  · intro h
    unfold Scope.closedBy? at h
    split_ifs at h <;> cases pair <;> first | assumption | cases h

end Pair

/-- An opener that is an atom by itself, and what stands behind it up to the next one. -/
structure Opening where
  pair : Pair
  token : Token
  /-- The delimiter behind `\left`; there is none behind the other openers. -/
  delimiter : List Token
  filler : List Token

namespace Opening

/-- The tokens from an opener up to the next one. -/
def tokens (o : Opening) : List Token :=
  o.token :: (o.delimiter ++ o.filler)

/-- The token opens the pair, a delimiter stands exactly behind `\left`, and what follows parses on
its own. -/
structure Valid (s : Setup) (o : Opening) : Prop where
  opens : o.pair.opens o.token = true
  delimiter : if o.pair = .leftRight then
    ∃ d, o.delimiter = [d] ∧ (delimiter? s.grammar d).isSome = true else o.delimiter = []
  filler : ParsesAlone s o.filler

/-- The scope that an opener opens. -/
def scope (o : Opening) : Scope :=
  o.pair.scope o.token

end Opening

variable {s : Setup} {e : ParseError} {c d : Cursor} {v tail : List Token} {scopes : List Scope}
  {α β : Type}

/-! ## Runs that fail -/

/-- The parser fails with the given error, or because no more scopes may be opened. -/
def Fails (s : Setup) (e : ParseError) (p : ParseM α) (c : Cursor) : Prop :=
  Outcome p c (fun _ _ => False) fun e' _ => e' = e ∨ ∃ t, e' = tooDeep s t

namespace Fails

theorem bind {p : ParseM α} {f : α → ParseM β} (h : Fails s e p c) : Fails s e (p >>= f) c :=
  Outcome.bind h fun _ _ h => h.elim

theorem of_run {p q : ParseM α} (h : Fails s e q d) (hr : p.run c = q.run d) : Fails s e p c := by
  unfold Fails Outcome at *
  rw [hr]
  exact h

theorem next_bind {t : Token} {rest : List Token} (hc : c.rest = t :: rest)
    {f : Option Token → ParseM α} (h : Fails s e (f (some t)) (c.skip 1)) :
    Fails s e (next >>= f) c :=
  h.of_run (run_next_cons hc f)

theorem peek_bind {t : Token} {rest : List Token} (hc : c.rest = t :: rest)
    {f : Option Token → ParseM α} (h : Fails s e (f (some t)) c) : Fails s e (peek >>= f) c :=
  h.of_run (by rw [run_peek, hc, List.head?_cons])

theorem throw : Fails s e (throw e : ParseM α) c := Or.inl rfl

end Fails

/-! ## Fillers -/

/-- A filler is read as it is on its own, and if what follows fails then all does. -/
theorem Fails.filler (hv : ParsesAlone s v) (hc : c.rest = v ++ tail) {stop : Stop}
    (hstop : ∀ p t, stop p t = true → (Scope.closedBy? t).isSome = true) (n : Nat) {rounds : Nat}
    (hrounds : c.rest.length ≤ rounds) {f : List Sibling → ParseM Node}
    (h : ∀ {done d more}, d.rest = tail → d.scopes = c.scopes → tail.length ≤ more →
      Fails s e (siblings s (inside s n) stop more done >>= f) d) :
    Fails s e (siblings s (inside s n) stop rounds [] >>= f) c := by
  have hrest : c.rest = v.map (moved Token.place) ++ tail := by
    rw [map_moved_eq_self fun _ _ => rfl, hc]
  have hruns : Agree (standalone (fun _ => True) (fun e' => e' = e ∨ ∃ t, e' = tooDeep s t)
      Token.place v tail c) Never
      (siblings s (inside s (allowance s { rest := v })) noStop v.length [] >>= fun all =>
        pure (collapseSiblings all))
      (siblings s (inside s n) stop rounds [] >>= f) { rest := v } c fun _ _ _ _ => False := by
    refine agree_siblings_bind (alike_standalone (Or.inr fun _ => trivial) (.refl s v)
      (fun _ _ => trivial) fun _ t => Or.inr ⟨t, rfl⟩)
      (stopFits_standalone (fun _ => trivial) hstop) fitting_eq.carries (joined_standalone hrest)
      .nil (Nat.le_refl _) hrounds ?_
    intro all all' d d' more hj _ hat hmore
    have hd' : d'.rest = tail := by
      rw [hj.rest, hat.rest_eq_nil]
      rfl
    refine .of_right (h hd' hj.scopes_right ?_)
    rwa [hd'] at hmore
  obtain ⟨node, hnode⟩ := hv
  unfold readTokens at hnode
  split at hnode
  · next node' d hrun =>
    rw [run_expression] at hrun
    exact hruns.right_outcome hrun
  · cases hnode

/-! ## Inside a pair -/

/-- What surrounds an expression: the open scopes, its stop, and what is done with its siblings. -/
inductive Surroundings : List Scope → Stop → (List Sibling → ParseM Node) → Prop where
  | outermost {f : List Sibling → ParseM Node} : Surroundings [] noStop f
  | inside {scope : Scope} {outer : List Scope} {stop : Stop}
    {g : Node → Option Token → ParseM Node} :
    (∀ p t, stop p t = true ↔ Scope.closedBy? t = some scope.kind) →
    (∀ n, g n none = throw scope.unclosed) →
      Surroundings (scope :: outer) stop fun all =>
        pure (collapseSiblings all) >>= fun n => next >>= g n

theorem Surroundings.isSome_closedBy? {stop : Stop} {f : List Sibling → ParseM Node}
    (h : Surroundings scopes stop f) (p : Nat) (t : Token) (ht : stop p t = true) :
    (Scope.closedBy? t).isSome = true := by
  cases h with
  | outermost => cases ht
  | inside hstop _ => rw [(hstop p t).mp ht, Option.isSome_some]

/-- The error of an expression that is followed by the given tokens: it is inside a scope and they
are none, or they start with a closer that is not its own. -/
inductive TailFault : List Scope → List Token → ParseError → Prop where
  | ends {scope : Scope} {outer : List Scope} : TailFault (scope :: outer) [] scope.unclosed
  | closer {scopes : List Scope} {c : Token} {rest : List Token} {kind : Scope.Kind} :
    Scope.closedBy? c = some kind → (∀ scope ∈ scopes.head?, scope.kind ≠ kind) →
      TailFault scopes (c :: rest) (Scope.misplaced scopes c)

/-- An expression fails with its fault once it comes to the tokens that follow. -/
theorem Surroundings.fails {stop : Stop} {f : List Sibling → ParseM Node}
    (h : Surroundings scopes stop f) (hfault : TailFault scopes tail e) (hd : d.rest = tail)
    (hscopes : d.scopes = scopes) {more : Nat} (hmore : tail.length ≤ more) (nested : Nested)
    (done : List Sibling) : Fails s e (siblings s nested stop more done >>= f) d := by
  cases hfault with
  | ends =>
    cases h with
    | inside _ hg =>
      refine .of_run ?_ (run_siblings_end (atStop_nil hd) _)
      refine .of_run (d := d) ?_ (run_next_nil hd _)
      rw [hg]
      exact Fails.throw
  | @closer _ closer rest kind hclose hnot =>
    cases more with
    | zero => cases hmore
    | succ more =>
      have hgoes : stop d.position closer = false := by
        rw [← Bool.not_eq_true]
        intro hstops
        cases h with
        | outermost => cases hstops
        | inside hstop _ =>
          rw [(hstop _ _).mp hstops, Option.some_inj] at hclose
          exact hnot _ rfl hclose
      refine .of_run ?_ (run_siblings_closer hd hgoes (by rw [hclose]; rfl) f)
      rw [hscopes]
      exact Fails.throw

/-- Behind the opening of a scope. -/
theorem Fails.enter {n : Nat} {scope : Scope} {stop : Stop} {g : Node → Option Token → ParseM Node}
    (h : ∀ {m d}, d.rest = c.rest → d.scopes = scope :: c.scopes →
      Fails s e (siblings s (inside s m) stop d.rest.length [] >>= fun all =>
        pure (collapseSiblings all) >>= fun n => next >>= g n) d) :
    Fails s e (Parser.enter s (inside s n) scope >>= fun i => i.content stop >>= fun n =>
      next >>= g n) c := by
  refine Outcome.enter_bind (fun _ => Or.inr ⟨scope.token, rfl⟩) fun i hi => ?_
  cases n with
  | zero => cases hi
  | succ m =>
    cases hi
    have hcontent := h (m := m) (d := { c with scopes := scope :: c.scopes }) rfl rfl
    have hrun : expressionWith s (inside s m) stop >>= (fun n => next >>= g n) =
        get >>= fun c => siblings s (inside s m) stop c.rest.length [] >>= fun all =>
          pure (collapseSiblings all) >>= fun n => next >>= g n := by
      simp only [expressionWith, bind_assoc]
    refine Fails.of_run hcontent ?_
    show (expressionWith s (inside s m) stop >>= fun n => next >>= g n).run _ = _
    rw [hrun]
    rfl

/-! ## Openers in their place -/

namespace Pair

theorem closedBy?_of_opens {t : Token} {pair : Pair} (h : pair.opens t = true) :
    Scope.closedBy? t = none := by
  cases pair <;> obtain ⟨hk, hv⟩ := Token.is_iff.mp h <;>
    simp [Scope.closedBy?, Token.isCloseBrace, Token.isCloseBracket, Token.isBrace, Token.isBracket,
      Token.isCommand, Token.is, hk, hv]

theorem ofToken?_of_opens {t : Token} {pair : Pair} (h : pair.opens t = true) :
    Script.ofToken? t = none := by
  cases pair <;> obtain ⟨hk, hv⟩ := Token.is_iff.mp h <;>
    simp [Script.ofToken?, Token.isSymbol, Token.is, hk]

theorem limits?_of_opens {g : Grammar} (hg : g.Regular) {t : Token} {pair : Pair}
    (h : pair.opens t = true) : limits? g t = none := by
  cases pair <;> obtain ⟨hk, hv⟩ := Token.is_iff.mp h
  · simp [limits?, hk]
  · simp [limits?, hk]
  · simp [limits?, hk, hg.get?_eq_left_iff.mpr hv]

end Pair

theorem run_takeDelimiter {t delimiter : Token} {rest : List Token} {shown : Option Text}
    (hc : c.rest = delimiter :: rest) (hshown : delimiter? s.grammar delimiter = some shown)
    (f : Option Text → ParseM α) :
    (takeDelimiter s t >>= f).run c = (f shown).run (c.skip 1) := by
  unfold takeDelimiter
  rw [bind_assoc, run_next_cons hc]
  simp only [hshown, pure_bind]

/-- What fails one scope further in fails from the opener on, which is an atom. -/
theorem Fails.opener (hg : s.grammar.Regular) {o : Opening} (ho : o.Valid s)
    (hd : d.rest = o.token :: (o.delimiter ++ tail)) (n : Nat)
    (h : ∀ {m d' stop f}, d'.rest = tail → d'.scopes = o.scope :: d.scopes →
      Surroundings (o.scope :: d.scopes) stop f →
        Fails s e (siblings s (inside s m) stop d'.rest.length [] >>= f) d') :
    Fails s e (atomAt s (inside s n) o.token) d := by
  obtain ⟨pair, t, delimiter, filler⟩ := o
  have hopens := ho.opens
  have hdelimiter := ho.delimiter
  cases pair with
  | braces =>
    have hopen : t.isOpenBrace = true := hopens
    have hrest : d.rest = t :: tail := by
      rw [hd, show delimiter = [] from hdelimiter, List.nil_append]
    simp only [atomAt, (Token.is_iff.mp hopen).1, if_pos hopen]
    unfold group
    refine .next_bind hrest ?_
    simp only [if_pos hopen]
    refine .enter fun hrest' hscopes => h ?_ hscopes
      (.inside (fun _ => Pair.braces.closes_iff) fun _ => rfl)
    rw [hrest', Cursor.rest_skip, hrest, List.drop_one, List.tail_cons]
  | brackets =>
    have hopen : t.isOpenBracket = true := hopens
    have hrest : d.rest = t :: tail := by
      rw [hd, show delimiter = [] from hdelimiter, List.nil_append]
    simp only [atomAt, (Token.is_iff.mp hopen).1, if_pos hopen]
    unfold bracketGroup bracketContent
    refine .bind (.next_bind hrest ?_)
    simp only [if_pos hopen]
    refine .enter fun hrest' hscopes => h ?_ hscopes
      (.inside (fun _ => Pair.brackets.closes_iff) fun _ => rfl)
    rw [hrest', Cursor.rest_skip, hrest, List.drop_one, List.tail_cons]
  | leftRight =>
    have hopen : t.isCommand "\\left" = true := hopens
    obtain ⟨hk, hv⟩ := Token.is_iff.mp hopen
    obtain ⟨delim, hdelim, hsome⟩ := hdelimiter
    obtain ⟨shown, hshown⟩ := Option.isSome_iff_exists.mp hsome
    have hrest : d.rest = t :: delim :: tail := by
      rw [hd, show delimiter = [delim] from hdelim, List.singleton_append]
    simp only [atomAt, hk]
    rw [command_eq]
    refine .peek_bind hrest ?_
    simp only [if_pos hk, commandAt, hg.get?_eq_left_iff.mpr hv]
    refine Outcome.advance_bind (Outcome.trace_bind fun log => ?_)
    have hrest' : ({ d.skip 1 with log := log } : Cursor).rest = delim :: tail := by
      rw [Cursor.rest_skip, hrest, List.drop_one, List.tail_cons]
    -- The scope is opened behind the delimiter.
    simp only [reading, Reading.parser, leftRight]
    refine Fails.of_run ?_ (run_takeDelimiter hrest' hshown _)
    refine .enter fun hrest'' hscopes => h ?_ hscopes
      (.inside (fun _ => Pair.leftRight.closes_iff) fun _ => rfl)
    rw [hrest'', Cursor.rest_skip, hrest', List.drop_one, List.tail_cons]

theorem Fails.opening (hg : s.grammar.Regular) {o : Opening} (ho : o.Valid s)
    (hd : d.rest = o.token :: (o.delimiter ++ tail)) {stop : Stop}
    (hstop : ∀ p t, stop p t = true → (Scope.closedBy? t).isSome = true) (n : Nat) {more : Nat}
    (hmore : d.rest.length ≤ more) (done : List Sibling) (f : List Sibling → ParseM Node)
    (h : ∀ {m d' stop' f'}, d'.rest = tail → d'.scopes = o.scope :: d.scopes →
      Surroundings (o.scope :: d.scopes) stop' f' →
        Fails s e (siblings s (inside s m) stop' d'.rest.length [] >>= f') d') :
    Fails s e (siblings s (inside s n) stop more done >>= f) d := by
  have hclose := Pair.closedBy?_of_opens ho.opens
  have hgoes : stop d.position o.token = false := by
    rw [← Bool.not_eq_true]
    intro hstops
    have hcloser := hstop _ _ hstops
    rw [hclose] at hcloser
    cases hcloser
  cases more with
  | zero =>
    rw [hd] at hmore
    cases hmore
  | succ more =>
    refine .of_run ?_ (run_siblings_cons hd hgoes (by rw [hclose]; rfl) f)
    refine .bind ?_
    unfold takeSibling
    rw [Pair.ofToken?_of_opens ho.opens, Pair.limits?_of_opens hg ho.opens]
    refine .bind ?_
    rw [atom_eq]
    refine .peek_bind hd (Outcome.trace_bind fun log => ?_)
    exact (Fails.opener (d := { d with log := log }) hg ho hd n h).bind

/-- Fillers and openers lead to the fault of what stands at their end. -/
theorem Fails.openings (hg : s.grammar.Regular) {openings : List Opening}
    (hvalid : ∀ o ∈ openings, o.Valid s) {stop : Stop} {f : List Sibling → ParseM Node}
    (h : Surroundings scopes stop f) (hv : ParsesAlone s v)
    (hfault : TailFault ((openings.map Opening.scope).reverse ++ scopes) tail e)
    (hc : c.rest = v ++ (openings.flatMap Opening.tokens ++ tail)) (hscopes : c.scopes = scopes)
    (n : Nat) : Fails s e (siblings s (inside s n) stop c.rest.length [] >>= f) c := by
  -- From the outside in: behind an opener the rest stands in the surroundings that it makes.
  induction openings generalizing scopes stop f v c n with
  | nil =>
    refine .filler hv hc h.isSome_closedBy? n (Nat.le_refl _) fun hd hd' hmore => ?_
    exact h.fails hfault hd (hd'.trans hscopes) hmore _ _
  | cons o openings ih =>
    have ho := hvalid o List.mem_cons_self
    have hmore := fun o' ho' => hvalid o' (List.mem_cons_of_mem o ho')
    refine .filler hv hc h.isSome_closedBy? n (Nat.le_refl _) fun {done d more} hd hd' hlen => ?_
    have hsplit : d.rest = o.token :: (o.delimiter ++
        (o.filler ++ (openings.flatMap Opening.tokens ++ tail))) := by
      rw [hd]
      simp [Opening.tokens]
    refine .opening hg ho hsplit h.isSome_closedBy? n (by rwa [hd]) done f ?_
    intro m d' stop' f' hrest hscopes' hinside
    rw [hd', hscopes] at hinside hscopes'
    exact ih hmore hinside ho.filler (by simpa using hfault) hrest hscopes' m

/-! ## The errors -/

theorem misplaced_of_open {closer : Token} {kind : Scope.Kind} {scope : Scope} {outer : List Scope}
    (hclose : Scope.closedBy? closer = some kind) (h : ∃ x ∈ scope :: outer, x.kind = kind) :
    Scope.misplaced (scope :: outer) closer = scope.unclosed := by
  have hsome : (Scope.innermost? kind (scope :: outer)).isSome = true := by
    rw [Scope.innermost?, List.find?_isSome]
    simpa using h
  simp only [Scope.misplaced, hclose, hsome, if_true]

theorem misplaced_of_not_open {closer : Token} {kind : Scope.Kind}
    (hclose : Scope.closedBy? closer = some kind) (h : ∀ x ∈ scopes, x.kind ≠ kind) :
    Scope.misplaced scopes closer = Scope.stray (some kind) closer := by
  cases scopes with
  | nil => simp only [Scope.misplaced, hclose]
  | cons scope outer =>
    have hnone : Scope.innermost? kind (scope :: outer) = none := by
      rw [Scope.innermost?, List.find?_eq_none]
      simpa using h
    simp only [Scope.misplaced, hclose, hnone, Option.isSome_none, Bool.false_eq_true, if_false]

/-- Fillers and openers are read as the fault of what stands at their end. -/
theorem readTokens_of_fault (hg : s.grammar.Regular) {openings : List Opening}
    (hvalid : ∀ o ∈ openings, o.Valid s) (hv : ParsesAlone s v)
    (hfault : TailFault (openings.map Opening.scope).reverse tail e)
    (hdeep : ∀ t, readTokens s (v ++ (openings.flatMap Opening.tokens ++ tail)) ≠
      .error (tooDeep s t)) :
    readTokens s (v ++ (openings.flatMap Opening.tokens ++ tail)) = .error e := by
  have hfails : Fails s e (expression s noStop)
      { rest := v ++ (openings.flatMap Opening.tokens ++ tail) } := by
    refine Fails.of_run ?_ (run_expression s noStop _)
    exact .openings hg hvalid .outermost hv (by rwa [List.append_nil]) rfl rfl _
  unfold readTokens at hdeep ⊢
  cases hrun : (expression s noStop).run
      { rest := v ++ (openings.flatMap Opening.tokens ++ tail) } with
  | ok node d => exact (outcome_ok hfails hrun).elim
  | error e' d =>
    rw [hrun] at hdeep
    rcases outcome_error hfails hrun with rfl | ⟨t, rfl⟩
    · rfl
    · exact absurd rfl (hdeep t)

/-- The last opener makes the innermost scope. -/
theorem scopes_of_getLast? {openings : List Opening} {last : Opening}
    (h : last ∈ openings.getLast?) :
    ∃ outer, (openings.map Opening.scope).reverse = last.scope :: outer := by
  obtain ⟨earlier, rfl⟩ := List.getLast?_eq_some_iff.mp h
  exact ⟨(earlier.map Opening.scope).reverse, by simp⟩

/-- The errors about delimiters. The tokens are fillers that parse on their own, with openers
between them. At the end of the input the last opener is not closed. A closer that is not its own
leads to the same error if it closes an opener further out, and is stray if it closes none. -/
theorem readTokens_openings (symbols : Symbol.Table) (s : Setup)
    (hs : s.grammar = (Grammar.ofSymbols symbols).value) (first : List Token)
    (openings : List Opening) (tail : List Token) (hfirst : ParsesAlone s first)
    (hopenings : ∀ o ∈ openings, o.Valid s)
    (hdeep : ∀ t, readTokens s (first ++ (openings.flatMap Opening.tokens ++ tail)) ≠
      .error (tooDeep s t)) :
    (tail = [] → ∀ last ∈ openings.getLast?,
      readTokens s (first ++ (openings.flatMap Opening.tokens ++ tail)) =
        .error (last.pair.unclosed last.token)) ∧
    ∀ closer rest pair, tail = closer :: rest → pair.closes closer = true →
      (∀ last ∈ openings.getLast?, last.pair ≠ pair → (∃ o ∈ openings, o.pair = pair) →
        readTokens s (first ++ (openings.flatMap Opening.tokens ++ tail)) =
          .error (last.pair.unclosed last.token)) ∧
      ((∀ o ∈ openings, o.pair ≠ pair) →
        readTokens s (first ++ (openings.flatMap Opening.tokens ++ tail)) =
          .error (pair.stray closer)) := by
  have hg : s.grammar.Regular := hs ▸ Grammar.regular_ofSymbols symbols
  have hread : ∀ {e}, TailFault (openings.map Opening.scope).reverse tail e →
      readTokens s (first ++ (openings.flatMap Opening.tokens ++ tail)) = .error e := fun hfault =>
    readTokens_of_fault hg hopenings hfirst hfault hdeep
  refine ⟨?_, ?_⟩
  · -- The input ends inside the last opener.
    rintro rfl last hlast
    obtain ⟨outer, hscopes⟩ := scopes_of_getLast? hlast
    rw [← last.pair.unclosed_scope last.token]
    exact hread (hscopes ▸ .ends)
  · rintro closer rest pair rfl hcloses
    have hclose := (pair.closes_iff closer).mp hcloses
    -- Whether a closer is stray depends on the openers that are open, which are all of them.
    refine ⟨fun last hlast hne ⟨o, ho, hpair⟩ => ?_, fun hnone => ?_⟩
    · obtain ⟨outer, hscopes⟩ := scopes_of_getLast? hlast
      have hopen : ∃ x ∈ last.scope :: outer, x.kind = pair.kind := by
        rw [← hscopes]
        exact ⟨o.scope, by simpa using ⟨o, ho, rfl⟩, congrArg Pair.kind hpair⟩
      have hnot : ∀ x ∈ (last.scope :: outer).head?, x.kind ≠ pair.kind := by
        rintro _ ⟨⟩ h
        exact hne (Pair.kind_injective h)
      have hfault : TailFault _ (closer :: rest) _ := .closer hclose hnot
      rw [misplaced_of_open hclose hopen, ← hscopes] at hfault
      rw [← last.pair.unclosed_scope last.token]
      exact hread hfault
    · have hkinds : ∀ x ∈ (openings.map Opening.scope).reverse, x.kind ≠ pair.kind := by
        intro x hx
        rw [List.mem_reverse, List.mem_map] at hx
        obtain ⟨o, ho, rfl⟩ := hx
        exact fun h => hnone o ho (Pair.kind_injective h)
      have hfault : TailFault _ (closer :: rest) _ :=
        .closer hclose fun x hx => hkinds x (List.mem_of_mem_head? hx)
      rw [misplaced_of_not_open hclose hkinds, Pair.stray_kind] at hfault
      exact hread hfault

/-- The openers of `a{b[c\left(d`, each with what stands behind it. -/
def crossedOpenings : List Opening :=
  [⟨.braces, ⟨.brace, "\x7b", ⟨1, 1, 2⟩⟩, [], [⟨.symbol, "b", ⟨2, 1, 3⟩⟩]⟩,
   ⟨.brackets, ⟨.bracket, "[", ⟨3, 1, 4⟩⟩, [], [⟨.symbol, "c", ⟨4, 1, 5⟩⟩]⟩,
   ⟨.leftRight, ⟨.command, "\\left", ⟨5, 1, 6⟩⟩, [⟨.symbol, "(", ⟨10, 1, 11⟩⟩],
    [⟨.symbol, "d", ⟨11, 1, 12⟩⟩]⟩]

/-- A bracket is closed while a `\left` inside it is open. -/
theorem readTokens_openings_crossed :
    Token.tokenize "a\x7bb[c\\left(d]e" = [⟨.symbol, "a", ⟨0, 1, 1⟩⟩] ++
      (crossedOpenings.flatMap Opening.tokens ++
        [⟨.bracket, "]", ⟨12, 1, 13⟩⟩, ⟨.symbol, "e", ⟨13, 1, 14⟩⟩]) ∧
    (parse (Grammar.ofSymbols ⟨fun _ => []⟩).value {} "a\x7bb[c\\left(d]e").value =
      .error (.located .openLeft ⟨.command, "\\left", ⟨5, 1, 6⟩⟩) := by
  have htokens : Token.tokenize "a\x7bb[c\\left(d]e" = [⟨.symbol, "a", ⟨0, 1, 1⟩⟩] ++
      (crossedOpenings.flatMap Opening.tokens ++
        [⟨.bracket, "]", ⟨12, 1, 13⟩⟩, ⟨.symbol, "e", ⟨13, 1, 14⟩⟩]) := by
    decide
  have hfirst : ParsesAlone
      ⟨(Grammar.ofSymbols ⟨fun _ => []⟩).value, {}, "a\x7bb[c\\left(d]e"⟩
      [⟨.symbol, "a", ⟨0, 1, 1⟩⟩] := ⟨.identifier "a", by decide⟩
  have hopenings : ∀ o ∈ crossedOpenings, o.Valid
      ⟨(Grammar.ofSymbols ⟨fun _ => []⟩).value, {}, "a\x7bb[c\\left(d]e"⟩ := by
    simp only [crossedOpenings, List.forall_mem_cons, List.not_mem_nil, false_implies, implies_true,
      and_true]
    exact ⟨⟨by decide, rfl, .identifier "b", by decide⟩,
      ⟨by decide, rfl, .identifier "c", by decide⟩,
      ⟨by decide, ⟨_, rfl, by decide⟩, .identifier "d", by decide⟩⟩
  have hdeep : ∀ t, (parse (Grammar.ofSymbols ⟨fun _ => []⟩).value {}
      "a\x7bb[c\\left(d]e").value ≠ .error (tooDeep
        ⟨(Grammar.ofSymbols ⟨fun _ => []⟩).value, {}, "a\x7bb[c\\left(d]e"⟩ t) := by
    have hread : (parse (Grammar.ofSymbols ⟨fun _ => []⟩).value {}
        "a\x7bb[c\\left(d]e").value = .error (.located .openLeft
          ⟨.command, "\\left", ⟨5, 1, 6⟩⟩) := by
      rw [Grammar.ofSymbols_nil]
      decide +kernel
    intro t
    rw [hread]
    simp [tooDeep, ParseError.located]
  refine ⟨htokens, ?_⟩
  rw [value_parse_eq_readTokens, htokens] at hdeep ⊢
  have herrors := readTokens_openings ⟨fun _ => []⟩ _ rfl _ _ _ hfirst hopenings hdeep
  exact (herrors.2 _ _ .brackets rfl (by decide)).1 _ rfl (by decide)
    ⟨_, List.mem_cons_of_mem _ List.mem_cons_self, rfl⟩

end Parser

end MathMarkup
