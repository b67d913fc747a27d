import MathMarkup.Proofs.Parser.Balanced
import MathMarkup.Proofs.Parser.PairedRun

/-!
# Loops without a bound

The loops of the parsers are given a number of rounds. Here they are loops that go on until they
leave (`Leaves`), and the number of rounds that they are given is shown never to cut them off: each
round that goes on takes a token. There are three of them: the siblings of an expression, the cells
of a table, and the search for the end of an environment.
-/

namespace MathMarkup.Parser

variable {σ ρ : Type} {s : Setup} {nested : Nested} {c c' : Cursor} {t : Token} {w : List Token}

/-! ## Loops -/

/-- A loop from a state leaves with a result, behind the given number of rounds that went on. A
round goes on with another state or leaves. -/
inductive Leaves (round : σ → σ ⊕ ρ) : (rounds : Nat) → σ → ρ → Prop where
  | now {x : σ} {r : ρ} : round x = .inr r → Leaves round 0 x r
  | later {rounds : Nat} {x y : σ} {r : ρ} : round x = .inl y → Leaves round rounds y r →
    Leaves round (rounds + 1) x r

/-- The loop of a round that is a parser. A failure leaves the loop. -/
def turn (round : σ → ParseM (σ ⊕ ρ)) :
    σ × Cursor → (σ × Cursor) ⊕ EStateM.Result ParseError Cursor ρ := fun x =>
  match (round x.1).run x.2 with
  | .ok (.inl y) c => .inl (y, c)
  | .ok (.inr r) c => .inr (.ok r c)
  | .error e c => .inr (.error e c)

/-- The cursor has moved on. -/
structure Cursor.Advanced (c c' : Cursor) : Prop where
  position : c.position < c'.position
  rest : c'.rest.length < c.rest.length

theorem Took.advanced (h : Took (t :: w) c c') : c.Advanced c' where
  position := by
    rw [h.position, List.length_cons]
    omega
  rest := by
    have hlen := h.length_le
    rw [List.length_cons] at hlen
    omega

theorem Took.advanced_of_ne_nil (h : Took w c c') (hw : w ≠ []) : c.Advanced c' := by
  obtain ⟨t, w, rfl⟩ := List.exists_cons_of_ne_nil hw
  exact h.advanced

/-- What a round that goes on does to the cursor. -/
def Continues (round : σ → ParseM (σ ⊕ ρ)) : Prop :=
  ∀ x c, Gives (round x) c fun y c' => ∀ z, y = .inl z → c.Advanced c'

theorem Continues.advanced {round : σ → ParseM (σ ⊕ ρ)} (h : Continues round) {x y : σ}
    (hturn : turn round (x, c) = .inl (y, c')) : c.Advanced c' := by
  have hgives := h x c
  unfold turn at hturn
  cases hrun : (round x).run c with
  | error e d =>
    rw [hrun] at hturn
    cases hturn
  | ok z d =>
    rw [hrun] at hturn
    cases z with
    | inr r => cases hturn
    | inl z =>
      cases hturn
      exact outcome_ok hgives hrun _ rfl

/-- A loop with as many rounds as there are tokens, and one, leaves before they run out, with what
the loop without a bound leaves with. -/
theorem leaves_of_rounds {round : σ → ParseM (σ ⊕ ρ)} (loop : Nat → σ → ParseM ρ)
    (hloop : ∀ k x, loop (k + 1) x = round x >>= Sum.elim (loop k) pure)
    (hround : Continues round) {rounds : Nat} {x : σ} (hrounds : c.rest.length < rounds) :
    ∃ k ≤ c.rest.length, Leaves (turn round) k (x, c) ((loop rounds x).run c) := by
  induction rounds generalizing x c with
  | zero => omega
  | succ rounds ih =>
    rw [hloop, EStateM.run_bind]
    cases hrun : (round x).run c with
    | error e d => exact ⟨0, Nat.zero_le _, .now (by simp only [turn, hrun])⟩
    | ok z d =>
      cases z with
      | inr r => exact ⟨0, Nat.zero_le _, .now (by simp only [turn, hrun]; rfl)⟩
      | inl y =>
        have hturn : turn round (x, c) = .inl (y, d) := by simp only [turn, hrun]
        have hfewer := (hround.advanced hturn).rest
        obtain ⟨k, hk, hleaves⟩ := ih (x := y) (c := d) (by omega)
        exact ⟨k + 1, by omega, .later hturn hleaves⟩

/-! ## The siblings of an expression -/

/-- One round of an expression. -/
def siblingRound (s : Setup) (nested : Nested) (stop : Stop) (done : List Sibling) :
    ParseM (List Sibling ⊕ List Sibling) := do
  let c ← get
  match c.rest with
  | [] => return .inr done
  | t :: _ =>
    if stop c.position t then
      return .inr done
    else if (Scope.closedBy? t).isSome then
      throw (Scope.misplaced c.scopes t)
    else
      return .inl (← takeSibling s nested stop t done)

theorem siblings_succ (s : Setup) (nested : Nested) (stop : Stop) (rounds : Nat)
    (done : List Sibling) :
    siblings s nested stop (rounds + 1) done =
      siblingRound s nested stop done >>= Sum.elim (siblings s nested stop rounds) pure := by
  unfold siblings siblingRound
  rw [bind_assoc]
  congr 1
  funext c
  cases c.rest with
  | nil => rfl
  | cons t rest =>
    dsimp only
    split
    · rfl
    · split
      · rfl
      · unfold takeSibling
        cases Script.ofToken? t with
        | some script => simp only [bind_assoc, pure_bind, Sum.elim_inl]
        | none => cases limits? s.grammar t <;> simp only [bind_assoc, pure_bind, Sum.elim_inl]

theorem continues_siblingRound (hn : nested.Follows s) (stop : Stop) :
    Continues (siblingRound s nested stop) := by
  intro done c
  unfold siblingRound
  refine Outcome.get_bind ?_
  cases hc : c.rest with
  | nil => nofun
  | cons t rest =>
    dsimp only
    split
    · nofun
    · split
      · trivial
      · refine Outcome.bind (gives_takeSibling hn hc) ?_
        rintro all c' ⟨w, hw⟩ z -
        exact hw.advanced

/-- At the end of the input an expression needs no round. -/
theorem run_siblings_succ (hn : nested.Follows s) (stop : Stop) {rounds : Nat}
    (hrounds : c.rest.length ≤ rounds) (done : List Sibling) :
    (siblings s nested stop (rounds + 1) done).run c =
      (siblings s nested stop rounds done).run c := by
  induction rounds generalizing c done with
  | zero =>
    have hc : c.rest = [] := List.length_eq_zero_iff.mp (Nat.le_zero.mp hrounds)
    simp only [siblings, EStateM.run_bind, EStateM.run_get, hc]
  | succ rounds ih =>
    rw [siblings_succ, siblings_succ s nested stop rounds, EStateM.run_bind, EStateM.run_bind]
    cases hrun : (siblingRound s nested stop done).run c with
    | error e d => rfl
    | ok y d =>
      cases y with
      | inr all => rfl
      | inl all =>
        have hfewer := (outcome_ok (continues_siblingRound hn stop done c) hrun all rfl).rest
        exact ih (by omega) all

/-- The loop of an expression leaves with the siblings that it gives. -/
theorem leaves_siblings (hn : nested.Follows s) (stop : Stop) (done : List Sibling) (c : Cursor) :
    ∃ rounds ≤ c.rest.length, Leaves (turn (siblingRound s nested stop)) rounds (done, c)
      ((siblings s nested stop c.rest.length done).run c) := by
  rw [← run_siblings_succ hn stop (Nat.le_refl _)]
  exact leaves_of_rounds _ (siblings_succ s nested stop) (continues_siblingRound hn stop)
    (Nat.lt_succ_self _)

/-! ## The cells of a table -/

/-- One round of a table, with the cells of the row at hand and the finished rows. -/
def rowRound (inside : Inside) (stop : Nat) (x : List Node × List (List Node)) :
    ParseM ((List Node × List (List Node)) ⊕ List (List Node)) := do
  let cell ← inside.content (stopAtCell stop)
  let c ← get
  match c.rest with
  | [] => return .inr ((cell :: x.1).reverse :: x.2).reverse
  | t :: _ =>
    if c.position = stop then
      return .inr ((cell :: x.1).reverse :: x.2).reverse
    else
      advance 1
      if isRowSeparator t then
        let _ ← inside.optional
        return .inl ([], (cell :: x.1).reverse :: x.2)
      else
        return .inl (cell :: x.1, x.2)

theorem tableRows_succ (inside : Inside) (stop rounds : Nat) (x : List Node × List (List Node)) :
    tableRows inside stop (rounds + 1) x.1 x.2 = rowRound inside stop x >>=
      Sum.elim (fun x => tableRows inside stop rounds x.1 x.2) pure := by
  conv_lhs => unfold tableRows
  simp only [rowRound, bind_assoc]
  congr 1
  funext cell
  congr 1
  funext c
  cases c.rest with
  | nil => rfl
  | cons t rest =>
    dsimp only
    split
    · rfl
    · rw [bind_assoc]
      congr 1
      funext _
      split
      · simp only [bind_assoc, pure_bind, Sum.elim_inl]
      · rfl

theorem continues_rowRound {inside : Inside} (hi : ∀ stop, FollowsTo s stop (inside.content stop))
    (ho : Follows s .optional inside.optional) (stop : Nat) :
    Continues (rowRound inside stop) := by
  rintro ⟨cells, rows⟩ c
  unfold rowRound
  refine Outcome.bind (hi (stopAtCell stop) c) ?_
  rintro cell c1 ⟨w, done, hw, -⟩
  refine Outcome.get_bind ?_
  cases hc1 : c1.rest with
  | nil => nofun
  | cons t rest =>
    dsimp only
    split
    · nofun
    · refine Outcome.advance_bind ?_
      have hskip := hw.trans (took_next hc1)
      split
      · refine Outcome.bind (ho _) ?_
        rintro hint c2 ⟨v, hv, -⟩ z -
        exact (hskip.trans hv).advanced_of_ne_nil (by simp)
      · intro z _
        exact hskip.advanced_of_ne_nil (by simp)

/-- The loop over the cells of a table leaves with the rows that it gives. -/
theorem leaves_tableRows {inside : Inside} (hi : ∀ stop, FollowsTo s stop (inside.content stop))
    (ho : Follows s .optional inside.optional) (stop : Nat) (x : List Node × List (List Node))
    (c : Cursor) :
    ∃ rounds ≤ c.rest.length, Leaves (turn (rowRound inside stop)) rounds (x, c)
      ((tableRows inside stop (c.rest.length + 1) x.1 x.2).run c) :=
  leaves_of_rounds (fun rounds x => tableRows inside stop rounds x.1 x.2)
    (tableRows_succ inside stop) (continues_rowRound hi ho stop) (Nat.lt_succ_self _)

/-! ## The end of an environment -/

/-- A search for the end of an environment: the environments opened on the way, the position, and
the tokens from there on. -/
structure Search where
  inner : List (Text × Token)
  position : Nat
  tokens : List Token

namespace Search

/-- The search behind some tokens. -/
def skip (x : Search) (inner : List (Text × Token)) (n : Nat) : Search :=
  ⟨inner, x.position + n, x.tokens.drop n⟩

/-- One round of the search for the end of the environment `name`. It passes over a token, or over a
`\begin` or `\end` together with its name. -/
def round (name : Text) (opening : Token) (x : Search) :
    Search ⊕ Except ParseError (Nat × Token) :=
  match x.tokens with
  | [] =>
    match x.inner with
    | [] => .inr (.error (.named (.neverClosed name opening.offset) name opening))
    | (other, token) :: _ => .inr (.error (.named (.neverClosed other token.offset) other token))
  | t :: rest =>
    if t.isCommand "\\begin" || t.isCommand "\\end" then
      match scanName? rest with
      | none => .inl (x.skip x.inner 1)
      | some (other, n) =>
        if t.isCommand "\\begin" then .inl (x.skip ((other, t) :: x.inner) (1 + n))
        else
          match x.inner with
          | [] =>
            if other = name then .inr (.ok (x.position, t))
            else .inr (.error (.named (.closedBy name opening.offset other) name opening))
          | (expected, token) :: outer =>
            if other = expected then .inl (x.skip outer (1 + n))
            else .inr (.error (.named (.closedBy expected token.offset other) expected token))
    else .inl (x.skip x.inner 1)

variable {name : Text} {opening : Token} {x y : Search}

/-- A round that goes on has passed over tokens. -/
theorem advanced (h : round name opening x = .inl y) :
    x.position < y.position ∧ y.tokens.length < x.tokens.length := by
  obtain ⟨inner, position, tokens⟩ := x
  cases tokens with
  | nil => cases inner <;> cases h
  | cons t rest =>
    have passed : ∀ env n, (⟨inner, position, t :: rest⟩ : Search).skip env (1 + n) = y →
        position < y.position ∧ y.tokens.length < (t :: rest).length := by
      rintro env n rfl
      simp only [skip, List.length_drop, List.length_cons]
      omega
    simp only [round] at h
    split at h
    · split at h
      · exact passed inner 0 (Sum.inl.inj h)
      · next other n _ =>
        split at h
        · exact passed _ n (Sum.inl.inj h)
        · split at h
          · split at h <;> cases h
          · split at h
            · exact passed _ n (Sum.inl.inj h)
            · cases h
    · exact passed inner 0 (Sum.inl.inj h)

/-- The search that passes over names as a whole is the one that passes over each token. -/
theorem findEnd_skip {w : List Token} {other : Text} {n : Nat} (h : scanName? w = some (other, n))
    (env : List (Text × Token)) (position : Nat) :
    findEnd name opening env (position + n) (w.drop n) = findEnd name opening env position w := by
  obtain ⟨v, rest, rfl, rfl, hname⟩ := scanName?_eq_some_iff.mp h
  rw [List.drop_left]
  exact (EndsPass.nameGroup hname name opening env position rest).symm

/-- A round leads on to the same end. -/
theorem findEnd_round (name : Text) (opening : Token) (x : Search) :
    Sum.elim (fun y => findEnd name opening y.inner y.position y.tokens) id
      (round name opening x) = findEnd name opening x.inner x.position x.tokens := by
  obtain ⟨inner, position, tokens⟩ := x
  cases tokens with
  | nil => cases inner <;> rfl
  | cons t rest =>
    have hname : ∀ {other n}, scanName? rest = some (other, n) → ∀ env,
        findEnd name opening env (position + (1 + n)) ((t :: rest).drop (1 + n)) =
          findEnd name opening env (position + 1) rest := by
      intro other n hscan env
      rw [← findEnd_skip hscan, Nat.add_assoc, Nat.add_comm 1 n, List.drop_succ_cons]
    cases hbegin : t.isCommand "\\begin" with
    | true =>
      cases hscan : scanName? rest with
      | none => cases inner <;> simp [round, findEnd, skip, hbegin, hscan]
      | some found => cases inner <;> simp [round, findEnd, skip, hbegin, hscan, hname hscan]
    | false =>
      cases hend : t.isCommand "\\end" with
      | false => cases inner <;> simp [round, findEnd, skip, hbegin, hend]
      | true =>
        cases hscan : scanName? rest with
        | none => cases inner <;> simp [round, findEnd, skip, hbegin, hend, hscan]
        | some found =>
          cases inner with
          | nil =>
            by_cases hsame : found.1 = name <;>
              simp [round, findEnd, hbegin, hend, hscan, hsame]
          | cons expected outer =>
            by_cases hsame : found.1 = expected.1 <;>
              simp [round, findEnd, skip, hbegin, hend, hscan, hsame, hname hscan]

/-- The search leaves with the end that is found, or with the error. -/
theorem leaves (name : Text) (opening : Token) (x : Search) :
    ∃ rounds ≤ x.tokens.length, Leaves (round name opening) rounds x
      (findEnd name opening x.inner x.position x.tokens) := by
  -- On the number of tokens, of which a round may pass over several.
  induction hlen : x.tokens.length using Nat.strong_induction_on generalizing x with
  | _ len ih =>
    subst hlen
    have hsame := findEnd_round name opening x
    cases hround : round name opening x with
    | inr r =>
      rw [hround] at hsame
      exact ⟨0, Nat.zero_le _, .now (hround.trans (congrArg Sum.inr hsame))⟩
    | inl y =>
      rw [hround] at hsame
      have hfewer := (advanced hround).2
      obtain ⟨rounds, hrounds, hleaves⟩ := ih _ hfewer y rfl
      exact ⟨rounds + 1, by omega, .later hround (hsame ▸ hleaves)⟩

end Search

end MathMarkup.Parser
