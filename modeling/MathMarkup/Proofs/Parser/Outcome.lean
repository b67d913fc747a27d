import MathMarkup.Proofs.Parser.Reading

/-!
# Outcomes of parsers

What is said about a run of a parser is said of its outcome: `post` of the result and the cursor
behind it, `fail` of the error and the cursor at which it arose. A parser put together from steps is
taken apart from the front: `Outcome.bind` asks for a fact about the first step and for one about
the rest from wherever the first step may lead. The steps that only look at the cursor or move it
have equations.
-/

namespace MathMarkup.Parser

variable {α β : Type}

/-- A parser at a cursor gives a result with `post`, or fails with `fail`. -/
def Outcome (p : ParseM α) (c : Cursor) (post : α → Cursor → Prop)
    (fail : ParseError → Cursor → Prop) : Prop :=
  match p.run c with
  | .ok a c' => post a c'
  | .error e c' => fail e c'

/-- A parser at a cursor gives a result with `post` if it gives one at all. -/
abbrev Gives (p : ParseM α) (c : Cursor) (post : α → Cursor → Prop) : Prop :=
  Outcome p c post fun _ _ => True

variable {c : Cursor} {post : α → Cursor → Prop} {fail : ParseError → Cursor → Prop}

theorem outcome_ok {p : ParseM α} {a : α} {c' : Cursor} (h : Outcome p c post fail)
    (hr : p.run c = .ok a c') : post a c' := by
  unfold Outcome at h
  rw [hr] at h
  exact h

theorem outcome_error {p : ParseM α} {e : ParseError} {c' : Cursor} (h : Outcome p c post fail)
    (hr : p.run c = .error e c') : fail e c' := by
  unfold Outcome at h
  rw [hr] at h
  exact h

/-- A parser that cannot fail gives a result. -/
theorem Outcome.exists_eq_ok {p : ParseM α} (h : Outcome p c post fun _ _ => False) :
    ∃ a c', p.run c = .ok a c' ∧ post a c' := by
  cases hr : p.run c with
  | ok a c' => exact ⟨a, c', rfl, outcome_ok h hr⟩
  | error e c' => exact (outcome_error h hr).elim

instance {p : ParseM α} [∀ a c', Decidable (post a c')] [∀ e c', Decidable (fail e c')] :
    Decidable (Outcome p c post fail) :=
  match hr : p.run c with
  | .ok a c' => decidable_of_iff (post a c') (by rw [Outcome, hr])
  | .error e c' => decidable_of_iff (fail e c') (by rw [Outcome, hr])

/-! ## Putting outcomes together -/

theorem Outcome.mono {p : ParseM α} {post' : α → Cursor → Prop}
    {fail' : ParseError → Cursor → Prop} (h : Outcome p c post fail)
    (hpost : ∀ a c', post a c' → post' a c') (hfail : ∀ e c', fail e c' → fail' e c') :
    Outcome p c post' fail' := by
  unfold Outcome at h ⊢
  cases hr : p.run c with
  | ok a c' => rw [hr] at h; exact hpost a c' h
  | error e c' => rw [hr] at h; exact hfail e c' h

/-- A weaker statement about the result. -/
theorem Outcome.weaken {p : ParseM α} {post' : α → Cursor → Prop} (h : Outcome p c post fail)
    (hpost : ∀ a c', post a c' → post' a c') : Outcome p c post' fail :=
  h.mono hpost fun _ _ he => he

/-- Two statements about the result. -/
theorem Outcome.and_gives {p : ParseM α} {post' : α → Cursor → Prop} (h : Outcome p c post fail)
    (h' : Gives p c post') : Outcome p c (fun a c' => post a c' ∧ post' a c') fail := by
  unfold Gives Outcome at *
  cases hr : p.run c with
  | ok a c' =>
    rw [hr] at h h'
    exact ⟨h, h'⟩
  | error e c' =>
    rw [hr] at h
    exact h

@[simp] theorem outcome_bind {post : β → Cursor → Prop} (p : ParseM α) (f : α → ParseM β) :
    Outcome (p >>= f) c post fail ↔
      Outcome p c (fun a c' => Outcome (f a) c' post fail) fail := by
  simp only [Outcome, EStateM.run_bind]
  cases p.run c <;> rfl

theorem Outcome.bind {q : α → Cursor → Prop} {post : β → Cursor → Prop} {p : ParseM α}
    {f : α → ParseM β} (h : Outcome p c q fail)
    (hf : ∀ a c', q a c' → Outcome (f a) c' post fail) : Outcome (p >>= f) c post fail :=
  (outcome_bind p f).mpr (h.weaken hf)

/-- Behind a step of which it is known how it fails and what it gives. -/
theorem Outcome.bind_gives {p : ParseM α} {f : α → ParseM β}
    (h : Outcome p c (fun _ _ => True) fail) (hp : Gives p c post)
    (hf : ∀ a c', post a c' → Outcome (f a) c' (fun _ _ => True) fail) :
    Outcome (p >>= f) c (fun _ _ => True) fail :=
  Outcome.bind (h.and_gives hp) fun a c' ha => hf a c' ha.2

/-- Behind a parser whose result is only passed on. -/
theorem Outcome.map {p : ParseM α} {f : α → β} (h : Outcome p c (fun _ _ => True) fail) :
    Outcome (p >>= fun a => pure (f a)) c (fun _ _ => True) fail :=
  Outcome.bind h fun _ _ _ => trivial

/-! ## Single steps -/

@[simp] theorem outcome_pure (a : α) : Outcome (pure a) c post fail ↔ post a c := Iff.rfl

@[simp] theorem outcome_throw (e : ParseError) : Outcome (throw e) c post fail ↔ fail e c :=
  Iff.rfl

@[simp] theorem outcome_get {post : Cursor → Cursor → Prop} :
    Outcome get c post fail ↔ post c c := Iff.rfl

@[simp] theorem outcome_modify {post : Unit → Cursor → Prop} (f : Cursor → Cursor) :
    Outcome (modify f) c post fail ↔ post () (f c) := Iff.rfl

@[simp] theorem outcome_peek {post : Option Token → Cursor → Prop} :
    Outcome peek c post fail ↔ post c.rest.head? c := Iff.rfl

@[simp] theorem outcome_ite {q : Prop} [Decidable q] (p p' : ParseM α) :
    Outcome (if q then p else p') c post fail ↔
      if q then Outcome p c post fail else Outcome p' c post fail := by
  split <;> rfl

/-- The cursor behind the next `n` tokens. -/
def Cursor.skip (c : Cursor) (n : Nat) : Cursor :=
  { c with position := c.position + n, rest := c.rest.drop n }

@[simp] theorem Cursor.rest_skip (c : Cursor) (n : Nat) : (c.skip n).rest = c.rest.drop n := rfl

@[simp] theorem Cursor.position_skip (c : Cursor) (n : Nat) :
    (c.skip n).position = c.position + n := rfl

@[simp] theorem outcome_advance {post : Unit → Cursor → Prop} (n : Nat) :
    Outcome (advance n) c post fail ↔ post () (c.skip n) := Iff.rfl

@[simp] theorem outcome_say {post : Unit → Cursor → Prop} (level : Log.Level) (part : Log.Part)
    (message : Text) :
    Outcome (say level part message) c post fail ↔
      post () { c with log := ⟨level, part, message⟩ :: c.log } := Iff.rfl

@[simp] theorem outcome_pushScope {post : Unit → Cursor → Prop} (scope : Scope) :
    Outcome (pushScope scope) c post fail ↔ post () { c with scopes := scope :: c.scopes } :=
  Iff.rfl

@[simp] theorem outcome_popScope {post : Unit → Cursor → Prop} :
    Outcome popScope c post fail ↔ post () { c with scopes := c.scopes.tail } := Iff.rfl

theorem outcome_next_nil {post : Option Token → Cursor → Prop} (hc : c.rest = []) :
    Outcome next c post fail ↔ post none c := by
  unfold next
  simp only [outcome_bind, outcome_get, hc, outcome_pure]

theorem outcome_next_cons {post : Option Token → Cursor → Prop} {t : Token} {rest : List Token}
    (hc : c.rest = t :: rest) : Outcome next c post fail ↔ post (some t) (c.skip 1) := by
  unfold next
  simp only [outcome_bind, outcome_get, hc, outcome_advance, outcome_pure]

/-- Behind a look at the cursor. -/
theorem Outcome.get_bind {f : Cursor → ParseM α} (h : Outcome (f c) c post fail) :
    Outcome (get >>= f) c post fail := h

/-- Behind tokens that are passed over. -/
theorem Outcome.advance_bind {n : Nat} {f : Unit → ParseM α}
    (h : Outcome (f ()) (c.skip n) post fail) : Outcome (advance n >>= f) c post fail := h

/-- What follows the next token is said for the end of the input and for a token. -/
theorem Outcome.next_bind {f : Option Token → ParseM α}
    (hnil : c.rest = [] → Outcome (f none) c post fail)
    (hcons : ∀ t rest, c.rest = t :: rest → Outcome (f (some t)) (c.skip 1) post fail) :
    Outcome (next >>= f) c post fail := by
  rw [outcome_bind]
  cases hc : c.rest with
  | nil => exact (outcome_next_nil hc).mpr (hnil hc)
  | cons t rest => exact (outcome_next_cons hc).mpr (hcons t rest hc)

/-- What follows a look at the next token is said for the end of the input and for a token. -/
theorem Outcome.peek_bind {f : Option Token → ParseM α}
    (hnil : c.rest = [] → Outcome (f none) c post fail)
    (hcons : ∀ t rest, c.rest = t :: rest → Outcome (f (some t)) c post fail) :
    Outcome (peek >>= f) c post fail := by
  rw [outcome_bind, outcome_peek]
  cases hc : c.rest with
  | nil => exact hnil hc
  | cons t rest => exact hcons t rest hc

/-- Tracing changes only the log. -/
theorem Outcome.trace_bind {s : Setup} {part : Log.Part} {message : Text} {f : Unit → ParseM α}
    (h : ∀ log, Outcome (f ()) { c with log := log } post fail) :
    Outcome (trace s part message >>= f) c post fail := by
  rw [Parser.trace_bind]
  split
  · exact h _
  · exact h c.log

/-- Behind the opening of a scope, if one more may be opened. -/
theorem Outcome.enter_bind {s : Setup} {nested : Nested} {scope : Scope} {f : Inside → ParseM α}
    (hnone : nested = none →
      fail (.located (.tooDeep s.options.maxNestingDepth.number) scope.token) c)
    (hsome : ∀ inside, nested = some inside →
      Outcome (f inside) { c with scopes := scope :: c.scopes } post fail) :
    Outcome (enter s nested scope >>= f) c post fail := by
  cases nested with
  | none => exact hnone rfl
  | some inside => exact hsome inside rfl

end MathMarkup.Parser
