import MathMarkup.Proofs.Parser.Standalone

/-!
# Expressions up to a stop

Tokens on which an expression comes to their end, though it could stop, are read as the same node in
front of a token at which it does stop. The two stops may differ beyond the tokens: an expression
asks its stop at the positions of the tokens that it comes to and nowhere else.
-/

namespace MathMarkup.Parser

variable {s : Setup} {nested : Nested} {stop stop' : Stop} {bound rounds n m : Nat}
  {v tail : List Token} {c d : Cursor} {done : List Sibling} {node : Node}
  {excused : ParseError → Prop}

/-- The stops agree at all positions below the bound. -/
def AgreeBelow (bound : Nat) (stop stop' : Stop) : Prop :=
  ∀ p t, p < bound → stop p t = stop' p t

theorem run_scriptArgument_congr (h : AgreeBelow bound stop stop')
    (hc : c.position + c.rest.length ≤ bound) (script : Script) (t : Token) :
    (scriptArgument s nested stop script t).run c =
      (scriptArgument s nested stop' script t).run c := by
  unfold scriptArgument
  simp only [EStateM.run_bind, EStateM.run_get]
  cases hrest : c.rest with
  | nil => rfl
  | cons t rest =>
    rw [hrest, List.length_cons] at hc
    dsimp only
    rw [h c.position t (by omega)]

theorem run_takeSibling_congr (h : AgreeBelow bound stop stop') {t : Token} {rest : List Token}
    (hrest : c.rest = t :: rest) (hc : c.position + c.rest.length ≤ bound) :
    (takeSibling s nested stop t done).run c = (takeSibling s nested stop' t done).run c := by
  unfold takeSibling
  cases Script.ofToken? t with
  | some script =>
    have hskip : (c.skip 1).position + (c.skip 1).rest.length ≤ bound := by
      rw [Cursor.rest_skip, Cursor.position_skip, List.length_drop]
      rw [hrest, List.length_cons] at hc ⊢
      omega
    have hargument : (scriptArgument s nested stop script t).run (c.skip 1) = _ :=
      run_scriptArgument_congr h hskip script t
    have hadvance : ∀ f : Unit → ParseM (List Sibling),
        (advance 1 >>= f).run c = (f ()).run (c.skip 1) := fun _ => rfl
    unfold takeScript
    rw [hadvance, hadvance]
    split
    · rfl
    · rw [EStateM.run_bind, EStateM.run_bind, hargument]
  | none => cases limits? s.grammar t <;> rfl

theorem run_siblings_congr (hn : nested.Follows s) (h : AgreeBelow bound stop stop')
    (hc : c.position + c.rest.length ≤ bound) :
    (siblings s nested stop rounds done).run c = (siblings s nested stop' rounds done).run c := by
  induction rounds generalizing c done with
  | zero => rfl
  | succ rounds ih =>
    rw [← bind_pure (siblings s nested stop _ _), ← bind_pure (siblings s nested stop' _ _)]
    by_cases hat : AtStop stop c
    · have hat' : AtStop stop' c := by
        intro t rest hrest
        rw [hrest, List.length_cons] at hc
        rw [← h c.position t (by omega)]
        exact hat t rest hrest
      rw [run_siblings_end hat, run_siblings_end hat']
    · obtain ⟨t, rest, hrest, hgoes⟩ := not_atStop hat
      have hgoes' : stop' c.position t = false := by
        rw [hrest, List.length_cons] at hc
        rw [← h c.position t (by omega)]
        exact hgoes
      cases hclose : (Scope.closedBy? t).isSome with
      | true =>
        rw [run_siblings_closer hrest hgoes hclose, run_siblings_closer hrest hgoes' hclose]
      | false =>
        rw [run_siblings_cons hrest hgoes hclose, run_siblings_cons hrest hgoes' hclose,
          EStateM.run_bind, EStateM.run_bind, run_takeSibling_congr h hrest hc]
        cases hrun : (takeSibling s nested stop' t done).run c with
        | error e d => rfl
        | ok all d =>
          obtain ⟨w, hw⟩ := outcome_ok (gives_takeSibling hn hrest) hrun
          have hlen := hw.length_le
          rw [List.length_cons] at hlen
          dsimp only
          rw [bind_pure, bind_pure]
          refine ih ?_
          rw [hw.position, List.length_cons]
          omega

/-- An expression is the same up to two stops that agree at all positions of its tokens. -/
theorem run_expressionWith_congr (hn : nested.Follows s) (h : AgreeBelow bound stop stop')
    (hc : c.position + c.rest.length ≤ bound) :
    (expressionWith s nested stop).run c = (expressionWith s nested stop').run c := by
  unfold expressionWith
  simp only [EStateM.run_bind, EStateM.run_get]
  rw [run_siblings_congr hn h hc]

theorem exists_siblings_of_run (hrun : (expressionWith s nested stop).run c = .ok node d) :
    ∃ all, (siblings s nested stop c.rest.length []).run c = .ok all d ∧
      node = collapseSiblings all := by
  unfold expressionWith at hrun
  simp only [EStateM.run_bind, EStateM.run_get] at hrun
  cases hall : (siblings s nested stop c.rest.length []).run c with
  | error e d' =>
    rw [hall] at hrun
    cases hrun
  | ok all d' =>
    rw [hall] at hrun
    cases hrun
    exact ⟨all, rfl, rfl⟩

/-- Gives the node at the end of so many tokens, and fails before it. -/
def endAt (length : Nat) (node : Node) : ParseM Node := do
  let d ← get
  if d.rest = [] ∧ d.position = length then return node
  else throw (.locatedAt? .unexpectedEnd none)

theorem run_endAt {length : Nat} (h : d.rest = [] ∧ d.position = length) :
    (endAt length node).run d = .ok node d := by
  unfold endAt
  rw [EStateM.run_bind, EStateM.run_get]
  dsimp only
  rw [if_pos h]
  rfl

theorem outcome_endAt {length : Nat} (h : ¬(d.rest = [] ∧ d.position = length)) :
    Outcome (endAt length node) d (fun _ _ => False) fun _ _ => True := by
  unfold endAt
  refine Outcome.get_bind ?_
  rw [if_neg h]
  trivial

/-- Tokens on which an expression comes to their end are read as the same node in front of a token
at which it stops, where it is not refused a scope. -/
theorem outcome_of_stopping (hdeep : m < n → ∀ t, excused (tooDeep s t))
    (hrun : (expressionWith s (inside s n) stop).run { rest := v } = .ok node d) (hd : d.rest = [])
    (hc : c.rest = v ++ tail)
    (hstop : ∀ p t, p < v.length → stop p t = stop' (p + c.position) t)
    (htail : ∀ t ∈ tail.head?, stop' (v.length + c.position) t = true) :
    Outcome (expressionWith s (inside s m) stop') c (fun node' c' => node' = node ∧ c'.rest = tail)
      fun e _ => excused e := by
  let P : Pairing := standalone (fun _ => True) excused Token.place v tail c
  -- The left run is given the stop of the right one. It is excused unless it comes to the end.
  have hruns : Agree P Never
      (siblings s (inside s n) (fun p => stop' (p + c.position)) v.length [] >>= fun all =>
        endAt v.length (collapseSiblings all))
      (siblings s (inside s m) stop' c.rest.length [] >>= fun all => pure (collapseSiblings all))
      { rest := v } c fun a _ b d' => b = a ∧ d'.rest = tail := by
    refine agree_siblings_bind (alike_standalone (Or.inr fun _ => trivial) (.refl s v)
      (fun _ _ => trivial) hdeep) (fun p t => Or.inl rfl) fitting_eq.carries
      (joined_standalone (by rw [map_moved_eq_self fun _ _ => rfl, hc])) .nil (Nat.le_refl _)
      (Nat.le_refl _) ?_
    intro all all' d d' more hj hall hat _
    obtain rfl := eq_of_siblingsFit hall
    by_cases hend : d.rest = [] ∧ d.position = v.length
    · have hd' : d'.rest = tail := by
        rw [hj.rest, hend.1]
        rfl
      have hat' : AtStop stop' d' := by
        intro t rest hrest
        rw [hj.position, hend.2]
        exact htail t (by rw [← hd', hrest]; rfl)
      exact (Agree.pure ⟨rfl, hd'⟩).congr (run_endAt hend) (run_siblings_end hat' _)
    · exact .of_left ((outcome_endAt hend).mono (fun _ _ h => h.elim) fun _ _ _ => trivial)
  have hfollows := follows_inside s n
  obtain ⟨w, done, hw, -⟩ := outcome_ok (followsTo_expressionWith hfollows stop _) hrun
  have hposition : d.position = v.length := by
    have hv : v = w := by simpa [hd] using hw.rest
    rw [hw.position, hv]
    exact Nat.zero_add _
  rw [run_expressionWith_congr hfollows hstop (Nat.le_of_eq (Nat.zero_add _))] at hrun
  obtain ⟨all, hall, rfl⟩ := exists_siblings_of_run hrun
  refine Outcome.get_bind (hruns.right_outcome (a := collapseSiblings all) (d := d) ?_)
  rw [EStateM.run_bind, hall]
  exact run_endAt ⟨hd, hposition⟩

end MathMarkup.Parser
