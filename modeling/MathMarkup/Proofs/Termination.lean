import MathMarkup.Proofs.Parser.Loop
import MathMarkup.Proofs.Scoping

/-!
# Each run comes to its end

The definitions of the parsers recurse on numbers that they are given: a number of rounds for each
loop, and a number of scopes that may be opened. Neither is what ends a run. A loop that is not
bounded leaves as the bounded one does, since each of its rounds takes a token; and what is read
inside a scope is read further on, so that the parsers call each other on fewer and fewer tokens.
Where there is no limit on nesting, the number of scopes is that of the tokens, and it is never
used up (`Terminates`, `terminates`).
-/

namespace MathMarkup.Parser

variable {s : Setup} {c : Cursor}

/-- What brings the runs under a setup to their ends. -/
structure Terminates (s : Setup) : Prop where
  /-- An atom takes tokens. -/
  atom : ∀ n c, Gives (Parser.atom s (inside s n)) c fun _ c' => c.Advanced c'
  /-- A command takes tokens. -/
  command : ∀ n c, Gives (Parser.command s (inside s n)) c fun _ c' => c.Advanced c'
  /-- An environment takes tokens. -/
  environment : ∀ n c, Gives (Parser.environment s (inside s n)) c fun _ c' => c.Advanced c'
  /-- A script at its marker takes tokens. -/
  script : ∀ n stop script t rest done c, c.rest = t :: rest →
    Gives (takeScript s (inside s n) stop script t done) c fun _ c' => c.Advanced c'
  /-- Each round of an expression that goes on takes tokens. -/
  siblingRound : ∀ n stop, Continues (Parser.siblingRound s (inside s n) stop)
  /-- The loop of an expression leaves, with the siblings that it is given rounds for. -/
  siblings : ∀ n stop done c, ∃ rounds ≤ c.rest.length,
    Leaves (turn (Parser.siblingRound s (inside s n) stop)) rounds (done, c)
      ((Parser.siblings s (inside s n) stop c.rest.length done).run c)
  /-- Each round of a table that goes on takes tokens. -/
  rowRound : ∀ n inside, Parser.inside s n = some inside → ∀ stop,
    Continues (Parser.rowRound inside stop)
  /-- The loop of a table leaves, with the rows that it is given rounds for. -/
  tableRows : ∀ n inside, Parser.inside s n = some inside → ∀ stop x c, ∃ rounds ≤ c.rest.length,
    Leaves (turn (Parser.rowRound inside stop)) rounds (x, c)
      ((Parser.tableRows inside stop (c.rest.length + 1) x.1 x.2).run c)
  /-- Each round of a search for the end of an environment that goes on passes over tokens. -/
  searchRound : ∀ name opening x y, Search.round name opening x = .inl y →
    x.position < y.position ∧ y.tokens.length < x.tokens.length
  /-- The search for the end of an environment leaves. -/
  search : ∀ name opening x, ∃ rounds ≤ x.tokens.length,
    Leaves (Search.round name opening) rounds x
      (findEnd name opening x.inner x.position x.tokens)
  /-- An expression inside an expression is read further on. -/
  reads : ∀ n stop c d, Reads s n (fun nested => expressionWith s nested stop) c d →
    d.rest.length < c.rest.length
  /-- Without a limit on nesting no scope is refused. -/
  unlimited : s.options.maxNestingDepth.number.ceiling? = none → ∀ stop c e c',
    (expression s stop).run c = .error e c' → ∀ t, e ≠ tooDeep s t
  /-- An expression ends at its stop or with the input. -/
  stops : ∀ stop c, Gives (expression s stop) c fun _ c' => AtStop stop c'

theorem advanced_command (s : Setup) (n : Nat) (c : Cursor) :
    Gives (command s (inside s n)) c fun _ c' => c.Advanced c' := by
  refine (follows_command (follows_inside s n) c).weaken ?_
  rintro node c' ⟨w, hw, hd⟩
  exact hw.advanced_of_ne_nil hd.atom_ne_nil

theorem advanced_environment (s : Setup) (n : Nat) (c : Cursor) :
    Gives (environment s (inside s n)) c fun _ c' => c.Advanced c' := by
  refine (follows_environment (follows_inside s n) c).weaken ?_
  rintro node c' ⟨w, hw, hd⟩
  exact hw.advanced_of_ne_nil hd.atom_ne_nil

theorem advanced_atom (s : Setup) (n : Nat) (c : Cursor) :
    Gives (atom s (inside s n)) c fun _ c' => c.Advanced c' := by
  cases hc : c.rest with
  | nil =>
    rw [atom_eq]
    refine Outcome.peek_bind (fun _ => trivial) fun t rest hc' => ?_
    rw [hc] at hc'
    cases hc'
  | cons t rest =>
    refine (gives_atom (follows_inside s n) hc).weaken ?_
    rintro node c' ⟨w, hw, -⟩
    exact hw.advanced

theorem advanced_takeScript (s : Setup) (n : Nat) (stop : Stop) (script : Script) {t : Token}
    {rest : List Token} (done : List Sibling) (hc : c.rest = t :: rest) :
    Gives (takeScript s (inside s n) stop script t done) c fun _ c' => c.Advanced c' := by
  refine (gives_takeScript (follows_inside s n) stop script hc done).weaken ?_
  rintro bound c' ⟨w, node, hw, -⟩
  exact hw.advanced

/-- As many scopes as there are tokens are never used up. -/
theorem cause_ne_tooDeep (hroom : c.rest.length ≤ allowance s c) {stop : Stop} {e : ParseError}
    {c' : Cursor} (hrun : (expression s stop).run c = .error e c') (limit : Number) :
    e.cause ≠ .tooDeep limit := by
  intro he
  have hexit := outcome_error ((Entry.expression stop).exits_run s c) hrun
  have hdeep := hexit.deep limit he
  omega

/-- Where there is no limit, as many scopes may be opened as there are tokens. -/
theorem not_tooDeep_of_unlimited (hlimit : s.options.maxNestingDepth.number.ceiling? = none)
    {stop : Stop} {e : ParseError} {c' : Cursor} (hrun : (expression s stop).run c = .error e c')
    (t : Token) : e ≠ tooDeep s t := by
  have hroom : c.rest.length ≤ allowance s c := by
    unfold allowance
    rw [hlimit]
  intro he
  exact cause_ne_tooDeep hroom hrun _ (congrArg ParseError.cause he)

/-- All runs come to their ends. -/
theorem terminates (s : Setup) : Terminates s where
  atom := advanced_atom s
  command := advanced_command s
  environment := advanced_environment s
  script n stop script t rest done c hc := advanced_takeScript s n stop script done hc
  siblingRound n stop := continues_siblingRound (follows_inside s n) stop
  siblings n stop done c := leaves_siblings (follows_inside s n) stop done c
  rowRound n inside hi stop := by
    obtain ⟨hcontent, hoptional⟩ := follows_inside s n inside hi
    exact continues_rowRound hcontent hoptional stop
  tableRows n inside hi stop x c := by
    obtain ⟨hcontent, hoptional⟩ := follows_inside s n inside hi
    exact leaves_tableRows hcontent hoptional stop x c
  searchRound name opening x y h := Search.advanced h
  search := Search.leaves
  reads n stop c d h :=
    (h.exit fun _ hn hf => (Entry.expression stop).exits hn hf c).2.2
  unlimited hlimit stop c e c' hrun := not_tooDeep_of_unlimited hlimit hrun
  stops stop c := by
    refine (followsTo_expression s stop c).weaken ?_
    rintro node c' ⟨w, done, -, -, -, hstop⟩
    exact hstop

end MathMarkup.Parser
