import MathMarkup.Proofs.Parser.Exit

/-!
# Scopes during a run

A parser that gives a result leaves the open scopes and the environment as it found them; one that
fails leaves the scopes it found below those that are still open. During a run no more scopes are
open than the limit on nesting allows, and as each expression that is read inside a run has a scope
of its own, so many expressions at most are being read at once (`scopes_of_run`).

What happens during a run is not seen in its outcome. It is seen from the parsers inside a scope,
which are a parameter of all others: scopes are opened only on the way to them. `watched` are
parsers that break off where an expression is to be read, and a run comes to such a point if
breaking off there is what makes it fail (`Reads`).
-/

namespace MathMarkup.Parser

variable {α : Type} {s : Setup} {n : Nat} {c d : Cursor}

deriving instance DecidableEq for Cursor

/-! ## Watched parsers -/

/-- The parsers inside a scope that fail where `watch` says so when an expression is to be read. -/
def watched (s : Setup) (watch : Cursor → Option ParseError) : Nat → Nested
  | 0 => none
  | n + 1 => some {
      content := fun stop => do
        match watch (← get) with
        | some e => throw e
        | none => expressionWith s (watched s watch n) stop
      optional := fun c => optionalArgument s (watched s watch n) c }

/-- Parsers that are never broken off are those of any run. -/
theorem watched_none (s : Setup) (n : Nat) : watched s (fun _ => none) n = inside s n := by
  induction n with
  | zero => rfl
  | succ n ih =>
    unfold watched inside
    rw [ih]
    rfl

theorem follows_watched (s : Setup) (watch : Cursor → Option ParseError) (n : Nat) :
    (watched s watch n).Follows s := by
  induction n with
  | zero => nofun
  | succ n ih =>
    intro inside hi
    cases hi
    refine ⟨fun stop c => Outcome.get_bind ?_, follows_optionalArgument ih⟩
    cases watch c with
    | none => exact followsTo_expressionWith ih stop c
    | some e => trivial

/-- Watched parsers break off as others do, if they are not broken off with the error that the
nesting is too deep. -/
theorem halts_watched (s : Setup) {watch : Cursor → Option ParseError}
    (hwatch : ∀ c e, watch c = some e → ∀ limit, e.cause ≠ .tooDeep limit) (n : Nat) :
    (watched s watch n).Halts n := by
  induction n with
  | zero => exact .none
  | succ n ih =>
    have hfollows := follows_watched s watch n
    refine .some ⟨fun stop c => Outcome.get_bind ?_, fun c =>
      (exits_optionalArgument ih hfollows (.refl c)).halts⟩
    cases hw : watch c with
    | none => exact (exits_expressionWith ih hfollows (.refl c) stop).halts
    | some e =>
      exact ⟨Nat.le_refl _, ⟨[], rfl, Nat.zero_le n⟩, fun limit htoo =>
        absurd htoo (hwatch c e hw limit)⟩

theorem halts_inside (s : Setup) (n : Nat) : (inside s n).Halts n := by
  rw [← watched_none]
  refine halts_watched s (fun c e h => ?_) n
  cases h

/-! ## Expressions that a run reads -/

/-- Breaks off at one cursor. -/
def breakAt (d : Cursor) (e : ParseError) : Cursor → Option ParseError := fun c =>
  if c = d then some e else none

/-- The run of a parser that may open `n` scopes comes from one cursor to the other, where an
expression is to be read inside a scope: to break off there is to break off the run, whatever the
error. -/
def Reads (s : Setup) (n : Nat) (p : Nested → ParseM α) (c d : Cursor) : Prop :=
  ∀ e, (p (watched s (breakAt d e) n)).run c = .error e d

/-- What a run reads inside a scope is deeper and further on than its start. -/
theorem Reads.exit {p : Nested → ParseM α} (h : Reads s n p c d)
    (hp : ∀ nested, nested.Halts n → nested.Follows s → Exits n c (p nested) c) :
    (∃ opened, d.scopes = opened ++ c.scopes ∧ opened.length ≤ n) ∧
      c.scopes.length < d.scopes.length ∧ d.rest.length < c.rest.length := by
  -- An error that no parser makes on its own tells breaking off from failing.
  let e : ParseError := ⟨.unexpectedEnd, [.scalar '.'], none⟩
  have hforeign : Foreign e := ⟨rfl, List.cons_ne_nil _ _⟩
  have hwatch : ∀ c' e', breakAt d e c' = some e' → ∀ limit, e'.cause ≠ .tooDeep limit := by
    intro c' e' hbreak
    unfold breakAt at hbreak
    split at hbreak
    · cases hbreak
      exact nofun
    · cases hbreak
  have hexit := outcome_error (hp _ (halts_watched s hwatch n) (follows_watched s _ n)) (h e)
  exact ⟨hexit.opened, hexit.foreign hforeign⟩

/-! ## Runs -/

/-- The parsers from which a run may start. -/
inductive Entry where
  | expression (stop : Stop)
  | atom
  | group
  | bracketContent
  | command
  | environment

namespace Entry

/-- The parser with the given parsers inside a scope. -/
def parser (s : Setup) (nested : Nested) : Entry → ParseM Node
  | .expression stop => expressionWith s nested stop
  | .atom => Parser.atom s nested
  | .group => Parser.group s nested
  | .bracketContent => Parser.bracketContent s nested
  | .command => Parser.command s nested
  | .environment => Parser.environment s nested

/-- The parser within the limit on nesting. -/
def run (s : Setup) (entry : Entry) : ParseM Node :=
  withAllowance s fun nested => entry.parser s nested

theorem gives {nested : Nested} (hf : nested.Follows s) (entry : Entry) (c : Cursor) :
    Gives (entry.parser s nested) c fun _ c' => ∃ w, Took w c c' := by
  cases entry with
  | expression stop =>
    refine (followsTo_expressionWith hf stop c).weaken ?_
    rintro _ c' ⟨w, _, hw, -⟩
    exact ⟨w, hw⟩
  | atom =>
    cases hc : c.rest with
    | nil =>
      unfold parser
      rw [atom_eq]
      refine Outcome.peek_bind (fun _ => trivial) fun t rest hc' => ?_
      rw [hc] at hc'
      cases hc'
    | cons t rest =>
      refine (gives_atom hf hc).weaken ?_
      rintro _ c' ⟨w, hw, -⟩
      exact ⟨t :: w, hw⟩
  | group => exact (follows_group hf c).weaken fun _ _ ⟨w, hw, _⟩ => ⟨w, hw⟩
  | bracketContent => exact (follows_bracketContent hf c).weaken fun _ _ ⟨w, hw, _⟩ => ⟨w, hw⟩
  | command => exact (follows_command hf c).weaken fun _ _ ⟨w, hw, _⟩ => ⟨w, hw⟩
  | environment => exact (follows_environment hf c).weaken fun _ _ ⟨w, hw, _⟩ => ⟨w, hw⟩

theorem exits {nested : Nested} (hn : nested.Halts n) (hf : nested.Follows s) (entry : Entry)
    (c : Cursor) : Exits n c (entry.parser s nested) c := by
  cases entry with
  | expression stop => exact exits_expressionWith hn hf (.refl c) stop
  | atom => exact exits_atom hn hf (.refl c)
  | group => exact exits_group hn hf (.refl c)
  | bracketContent => exact exits_bracketContent hn hf (.refl c)
  | command => exact exits_command hn hf (.refl c)
  | environment => exact exits_environment hn hf (.refl c)

theorem exits_run (s : Setup) (entry : Entry) (c : Cursor) :
    Exits (allowance s c) c (entry.run s) c :=
  Outcome.get_bind (entry.exits (halts_inside s _) (follows_inside s _) c)

end Entry

/-- Expressions that are being read at once: each but the first is read inside the one before it,
and the first inside the run of an entry. -/
inductive Stacked (s : Setup) : Entry → Cursor → List Cursor → Prop where
  | nil {entry : Entry} {c : Cursor} : Stacked s entry c []
  | cons {entry : Entry} {c d : Cursor} {more : List Cursor} (stop : Stop) :
    Reads s (allowance s c) (fun nested => entry.parser s nested) c d →
      Stacked s (.expression stop) d more → Stacked s entry c (d :: more)

/-- What a run reads inside a scope has more scopes open, and not too many. -/
theorem Reads.scopes {limit : Nat} {entry : Entry}
    (hlimit : s.options.maxNestingDepth.number.ceiling? = some limit)
    (hdepth : c.scopes.length ≤ limit)
    (h : Reads s (allowance s c) (fun nested => entry.parser s nested) c d) :
    c.scopes <:+ d.scopes ∧ c.scopes.length < d.scopes.length ∧ d.scopes.length ≤ limit := by
  obtain ⟨⟨opened, hopened, hlen⟩, hless, -⟩ := h.exit fun _ hn hf => entry.exits hn hf c
  rw [allowance_of_ceiling hlimit] at hlen
  refine ⟨⟨opened, hopened.symm⟩, hless, ?_⟩
  rw [hopened, List.length_append]
  omega

/-- Each of the expressions that are being read at once has a scope of its own. -/
theorem Stacked.length_le {limit : Nat} {entry : Entry} {stack : List Cursor}
    (hlimit : s.options.maxNestingDepth.number.ceiling? = some limit)
    (h : Stacked s entry c stack) (hdepth : c.scopes.length ≤ limit) :
    c.scopes.length + stack.length ≤ limit := by
  induction h with
  | nil => simpa using hdepth
  | cons stop hreads _ ih =>
    obtain ⟨-, hless, hle⟩ := hreads.scopes hlimit hdepth
    have hmore := ih hle
    rw [List.length_cons]
    omega

/-- A run from a cursor in a list of tokens. If it gives a result, the scopes and the environment
are as before, and the position has moved on within the tokens; if it fails, the scopes are still
there.
Where the limit on nesting is not exceeded at the start, it is not at the failure, nor where an
expression is read inside a scope; that scope is a new one, so that with the expression of the start
at most as many are being read at once as scopes may still be opened, and one more. -/
theorem scopes_of_run (s : Setup) (limit : Nat)
    (hlimit : s.options.maxNestingDepth.number.ceiling? = some limit) (tokens : List Token)
    (entry : Entry) (c : Cursor) (hposition : c.position ≤ tokens.length)
    (hrest : c.rest = tokens.drop c.position) :
    (∀ node c', (entry.run s).run c = .ok node c' →
      c'.scopes = c.scopes ∧ c'.environment = c.environment ∧ c.position ≤ c'.position ∧
        c'.position ≤ tokens.length ∧ c'.rest = tokens.drop c'.position) ∧
    (∀ e c', (entry.run s).run c = .error e c' → c.scopes <:+ c'.scopes) ∧
    (c.scopes.length ≤ limit →
      (∀ e c', (entry.run s).run c = .error e c' → c'.scopes.length ≤ limit) ∧
      (∀ d, Reads s (allowance s c) (fun nested => entry.parser s nested) c d →
        c.scopes <:+ d.scopes ∧ c.scopes.length < d.scopes.length ∧ d.scopes.length ≤ limit) ∧
      ∀ stack, Stacked s entry c stack → stack.length + 1 ≤ limit + 1 - c.scopes.length) := by
  refine ⟨fun node c' hrun => ?_, fun e c' hrun => ?_, fun hdepth => ⟨fun e c' hrun => ?_,
    fun d hreads => hreads.scopes hlimit hdepth, fun stack hstack => ?_⟩⟩
  · obtain ⟨w, hw⟩ := outcome_ok (Outcome.get_bind (entry.gives (follows_inside s _) c)) hrun
    have hlen := hw.length_le
    rw [hrest, List.length_drop] at hlen
    refine ⟨hw.scopes, hw.environment, ?_, ?_, ?_⟩
    · rw [hw.position]
      omega
    · rw [hw.position]
      omega
    · have hsplit := hw.rest
      rw [hrest] at hsplit
      rw [hw.position, ← List.drop_drop, hsplit, List.drop_left]
  · obtain ⟨opened, hopened, -⟩ := (outcome_error (entry.exits_run s c) hrun).opened
    exact ⟨opened, hopened.symm⟩
  · obtain ⟨opened, hopened, hlen⟩ := (outcome_error (entry.exits_run s c) hrun).opened
    rw [allowance_of_ceiling hlimit] at hlen
    rw [hopened, List.length_append]
    omega
  · have hstacked := hstack.length_le hlimit hdepth
    omega

/-- Two groups, one inside the other, where two scopes may be opened. The expression in the inner
one is read inside that in the outer one, and that inside the whole expression: the bound is
reached. -/
theorem scopes_of_run_groups :
    let s : Setup := ⟨⟨[], [], []⟩, { maxNestingDepth := .ofNat 1 }, "\x7b\x7bx\x7d\x7d"⟩
    let tokens := Token.tokenize "\x7b\x7bx\x7d\x7d"
    let start : Cursor := { rest := tokens }
    let brace (place : Place) : Scope := ⟨.brace, "\x7b", ⟨.brace, "\x7b", place⟩⟩
    let outer : Cursor := ⟨1, tokens.drop 1, [brace ⟨0, 1, 1⟩], none, []⟩
    let inner : Cursor := ⟨2, tokens.drop 2, [brace ⟨1, 1, 2⟩, brace ⟨0, 1, 1⟩], none, []⟩
    s.options.maxNestingDepth.number.ceiling? = some 2 ∧ start.position ≤ tokens.length ∧
      start.rest = tokens.drop start.position ∧ start.scopes.length ≤ 2 ∧
      Stacked s (.expression noStop) start [outer, inner] ∧
      [outer, inner].length + 1 ≤ 2 + 1 - start.scopes.length := by
  intro s tokens start brace outer inner
  have houter : Reads s (allowance s start)
      (fun nested => (Entry.expression noStop).parser s nested) start outer := fun e => rfl
  have hinner : Reads s (allowance s outer)
      (fun nested => (Entry.expression stopAtBrace).parser s nested) outer inner := fun e => rfl
  have hstacked : Stacked s (.expression noStop) start [outer, inner] :=
    .cons stopAtBrace houter (.cons stopAtBrace hinner .nil)
  obtain ⟨-, -, hbounds⟩ := scopes_of_run s 2 rfl tokens (.expression noStop) start
    (Nat.zero_le _) rfl
  exact ⟨rfl, Nat.zero_le _, rfl, Nat.zero_le _, hstacked,
    (hbounds (Nat.zero_le _)).2.2 _ hstacked⟩

end MathMarkup.Parser
