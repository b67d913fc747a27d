import MathMarkup.Proofs.Parser.Run
import MathMarkup.Proofs.TreeHeight

/-!
# How high a parsed tree is

The limit on nesting counts open scopes, and a scope adds at most six levels to the tree: a cell of
a table between delimiters is four levels below the node of the table, a script adds one, and a row
of siblings adds one. What adds levels without a scope is a script behind a run in parentheses. As
such runs may stand in each other, the limit alone does not bound the height; the folds are counted
beside it (`height_of_parse`).

Each parser gives low nodes (`Node.Low`), with six levels for each scope that it may open. Only the
result counts here, wherever the parser starts (`Yields`).
-/

namespace MathMarkup

namespace Parser

open Node

variable {α β : Type} {s : Setup} {nested : Nested} {n k : Nat}

/-! ## Results -/

/-- All that a parser gives has the property. -/
def Yields (post : α → Prop) (p : ParseM α) : Prop :=
  ∀ c, Gives p c fun a _ => post a

variable {post : β → Prop}

theorem Yields.bind {mid : α → Prop} {p : ParseM α} {f : α → ParseM β} (h : Yields mid p)
    (hf : ∀ a, mid a → Yields post (f a)) : Yields post (p >>= f) := fun c =>
  Outcome.bind (h c) fun a c' ha => hf a ha c'

theorem yields_true (p : ParseM α) : Yields (fun _ => True) p := by
  intro c
  unfold Gives Outcome
  cases p.run c <;> trivial

/-- What a step gives may not matter. -/
theorem Yields.behind {p : ParseM α} {f : α → ParseM β} (hf : ∀ a, Yields post (f a)) :
    Yields post (p >>= f) :=
  (yields_true p).bind fun a _ => hf a

theorem yields_pure {a : β} (h : post a) : Yields post (pure a) := fun _ => h

theorem yields_throw (e : ParseError) : Yields post (throw e) := fun _ => trivial

/-- A result that is only changed. -/
theorem Yields.map {mid : α → Prop} {p : ParseM α} {f : α → β} (h : Yields mid p)
    (hf : ∀ a, mid a → post (f a)) : Yields post (p >>= fun a => pure (f a)) :=
  h.bind fun a ha => yields_pure (hf a ha)

theorem Yields.mono {mid : β → Prop} {p : ParseM β} (h : Yields mid p)
    (hpost : ∀ a, mid a → post a) : Yields post p := fun c =>
  (h c).weaken fun a _ ha => hpost a ha

/-! ## Scopes -/

/-- The parsers inside a scope in which `n` more may be opened give low nodes. -/
structure Inside.Low (n : Nat) (inside : Inside) : Prop where
  content : ∀ stop, Yields (Node.Low (6 * n + 3)) (inside.content stop)

/-- The parsers inside one more scope, if there are any, give low nodes. -/
inductive Nested.Low : Nat → Nested → Prop where
  | none : Nested.Low 0 none
  | some {m : Nat} {inside : Inside} : inside.Low m → Nested.Low (m + 1) (some inside)

/-- A node that was read inside a scope, where `n` may be opened. -/
structure Enclosed (n : Nat) (node : Node) : Prop where
  pos : 1 ≤ n
  low : node.Low (6 * n - 3)

theorem Enclosed.slot {node : Node} (h : Enclosed n node) : Enclosed n node.slot where
  pos := h.pos
  low := h.low.slot (by have := h.pos; omega)

theorem yields_enter_bind (hn : nested.Low n) {scope : Scope} {f : Inside → ParseM β}
    (h : ∀ inside m, n = m + 1 → inside.Low m → Yields post (f inside)) :
    Yields post (enter s nested scope >>= f) := by
  intro c
  cases hn with
  | none => exact Outcome.enter_bind (fun _ => trivial) nofun
  | some hi =>
    refine Outcome.enter_bind nofun fun inside hinside => ?_
    cases hinside
    exact h _ _ rfl hi _

/-- The content of a scope. -/
theorem Inside.Low.enclosed {inside : Inside} {m : Nat} (h : inside.Low m) (hn : n = m + 1)
    (stop : Stop) : Yields (Enclosed n) (inside.content stop) :=
  (h.content stop).mono fun node hnode => ⟨by omega, hnode.mono (by omega)⟩

theorem yields_enclosed {opens closes : Token → Bool} {kind : Scope.Kind} {name : Text}
    {expected unclosed : ParseError.Cause} (hn : nested.Low n) :
    Yields (Enclosed n) (enclosed s nested opens closes kind name expected unclosed) := by
  refine .behind fun first => ?_
  cases first with
  | none => exact yields_throw _
  | some opening =>
    dsimp only
    split
    · refine yields_enter_bind hn fun inside m hm hi => ?_
      refine (hi.enclosed hm _).bind fun content hcontent => .behind fun closing => ?_
      cases closing with
      | none => exact yields_throw _
      | some closing => exact .behind fun _ => yields_pure hcontent
    · exact yields_throw _

theorem yields_group (hn : nested.Low n) : Yields (Enclosed n) (group s nested) := by
  rw [group_eq]
  exact yields_enclosed hn

theorem yields_bracketContent (hn : nested.Low n) :
    Yields (Enclosed n) (bracketContent s nested) := by
  rw [bracketContent_eq]
  exact yields_enclosed hn

theorem yields_optionalArgument (hn : nested.Low n) :
    Yields (fun content => ∀ node ∈ content, Enclosed n node) (optionalArgument s nested) := by
  refine .behind fun first => ?_
  cases first with
  | none => exact yields_pure nofun
  | some t =>
    dsimp only
    split
    · refine (yields_bracketContent hn).map fun content hcontent node hnode => ?_
      cases hnode
      exact hcontent
    · exact yields_pure nofun

theorem yields_argument (hn : nested.Low n) (t : Token) (index : Nat) :
    Yields (Enclosed n) (argument s nested t index) :=
  .behind fun _ => (yields_group hn).map fun _ h => h.slot

/-! ## Commands -/

theorem low_pairNode (opening closing : Option Text) {content : Node} (h : content.Low k)
    (hk : 1 ≤ k) : (pairNode opening content closing).Low (k + 1) := by
  have hfence : ∀ (d : Option Text), ∀ node ∈ (d.map fenceNode).toList, node.Low k := by
    intro d node hnode
    cases d with
    | none => cases hnode
    | some d =>
      rw [List.mem_singleton.mp hnode]
      exact (low_leaf _ _ _).mono hk
  refine low_collapse fun node hnode => ?_
  rcases List.mem_append.mp hnode with hnode | hnode
  · rcases List.mem_append.mp hnode with hnode | hnode
    · exact hfence opening node hnode
    · split at hnode
      · cases hnode
      · rw [List.mem_singleton.mp hnode]
        exact h
  · exact hfence closing node hnode

theorem yields_leftRight (hn : nested.Low n) (t : Token) :
    Yields (Node.Low (6 * n + 1)) (leftRight s nested t) := by
  refine .behind fun opening => yields_enter_bind hn fun inside m hm hi => ?_
  refine (hi.content _).bind fun content hcontent => .behind fun right => ?_
  cases right with
  | none => exact yields_throw _
  | some right =>
    refine .behind fun _ => .behind fun closing => yields_pure ?_
    exact (low_pairNode opening closing hcontent (by omega)).mono (by omega)

/-- What a reading makes of low nodes is low. -/
def Reading.Low : Reading → Prop
  | .nothing node => node.Low 1
  | .raw build => ∀ raw, (build raw).Low 1
  | .one build => ∀ k node, 1 ≤ k → node.Low k → (build node).Low (k + 1)
  | .two build => ∀ k node node', 1 ≤ k → node.Low k → node'.Low k →
    (build node node').Low (k + 2)
  | .delimiter build => ∀ d, (build d).Low 1
  | .squareRoot | .root | .leftRight | .refused _ => True

theorem low_fractionNode (displayStyle : Option Bool) {first second : Node} (h : first.Low k)
    (h' : second.Low k) : (fractionNode displayStyle first second).Low (k + 2) := by
  have hfraction : (element "mfrac" [] [first, second]).Low (k + 1) := low_two h h'
  cases displayStyle with
  | none => exact hfraction.mono (Nat.le_succ _)
  | some b => exact low_one hfraction

theorem low_reading (s : Setup) (t : Token) (m : Command) : (reading s t m).Low := by
  have hop : ∀ {k} content attributes, 1 ≤ k → (operator content attributes).Low k :=
    fun content attributes hk => (low_leaf _ _ _).mono hk
  cases m with
  | identifier value | function value | operator value | fence value | largeOperator value
  | integral value | limitFunction value => exact low_leaf _ _ _
  | space width | lineBreak => exact low_empty _ _
  | sizedSpace => exact fun _ => low_empty _ _
  | text variant | operatorName => exact fun _ => low_leaf _ _ _
  | middle | sized size => exact fun _ => low_leaf _ _ _
  | fraction displayStyle => exact fun k x y _ h h' => low_fractionNode displayStyle h h'
  | binomial =>
    intro k x y hk h h'
    have hfraction : (element "mfrac" [("linethickness", "0")] [x, y]).Low (k + 1) := low_two h h'
    refine low_element fun c hc => ?_
    simp only [List.mem_cons, List.not_mem_nil, or_false] at hc
    rcases hc with rfl | rfl | rfl
    · exact hop _ _ (by omega)
    · exact hfraction
    · exact hop _ _ (by omega)
  | modulus =>
    intro k x hk h
    refine low_element fun c hc => ?_
    simp only [List.mem_cons, List.not_mem_nil, or_false] at hc
    rcases hc with rfl | rfl | rfl | rfl
    · exact hop _ _ hk
    · exact hop _ _ hk
    · exact h
    · exact hop _ _ hk
  | style variant | enclose shape | phantom => exact fun k x _ h => low_one h
  | accent mark | underAccent mark => exact fun k x hk h => low_two h (hop _ _ hk)
  | overset => exact fun k x y _ h h' => (low_two h' h).mono (Nat.le_succ _)
  | underset => exact fun k x y _ h h' => (low_two h' h).mono (Nat.le_succ _)
  | squareRoot | root | left | limits movable | beginEnvironment | closer => trivial

theorem low_rootNode {degree : Option Node} {radicand : Node}
    (hdegree : ∀ node ∈ degree, node.Low k) (h : radicand.Low k) (hk : 1 ≤ k) :
    (Reading.rootNode degree radicand).Low (k + 1) := by
  cases degree with
  | none => exact low_one h
  | some degree => exact low_two h ((hdegree degree rfl).slot hk)

theorem yields_reading (hn : nested.Low n) (t : Token) {r : Reading} (hr : r.Low) :
    Yields (Node.Low (6 * n + 1)) (r.parser s nested t) := by
  cases r with
  | nothing node => exact yields_pure (Node.Low.mono hr (by omega))
  | raw build => exact .behind fun raw => yields_pure (Node.Low.mono (hr raw) (by omega))
  | one build =>
    refine (yields_argument hn t 1).map fun x hx => ?_
    have hpos := hx.pos
    exact (hr _ x (by omega) hx.low).mono (by omega)
  | two build =>
    refine (yields_argument hn t 1).bind fun x hx => (yields_argument hn t 2).map fun y hy => ?_
    have hpos := hx.pos
    exact (hr _ x y (by omega) hx.low hy.low).mono (by omega)
  | delimiter build => exact .behind fun d => yields_pure (Node.Low.mono (hr d) (by omega))
  | squareRoot =>
    refine (yields_optionalArgument hn).bind fun degree hdegree => ?_
    refine (yields_argument hn t 1).map fun x hx => ?_
    have hpos := hx.pos
    exact (low_rootNode (fun y hy => (hdegree y hy).low) hx.low (by omega)).mono (by omega)
  | root =>
    refine (yields_argument hn t 1).bind fun x hx => .behind fun _ => ?_
    refine (yields_argument hn t 2).map fun y hy => ?_
    exact (low_two hy.low hx.low).mono (by omega)
  | leftRight => exact yields_leftRight hn t
  | refused e => exact yields_throw e

/-! ## Environments -/

/-- Rows of low cells. -/
def RowsLow (k : Nat) (rows : List (List Node)) : Prop :=
  ∀ cells ∈ rows, ∀ cell ∈ cells, cell.Low k

theorem RowsLow.cons {rows : List (List Node)} {cells : List Node} (h : RowsLow k rows)
    (hcells : ∀ cell ∈ cells, cell.Low k) : RowsLow k (cells.reverse :: rows) :=
  List.forall_mem_cons.mpr ⟨fun cell hcell => hcells cell (List.mem_reverse.mp hcell), h⟩

theorem RowsLow.reverse {rows : List (List Node)} (h : RowsLow k rows) : RowsLow k rows.reverse :=
  fun cells hcells => h cells (List.mem_reverse.mp hcells)

theorem RowsLow.dropEmptyRow {rows : List (List Node)} (h : RowsLow k rows) :
    RowsLow k (dropEmptyRow rows) := by
  unfold Parser.dropEmptyRow
  split
  · next last row earlier heq =>
    split
    · intro cells hcells
      refine h cells ?_
      rw [← List.mem_reverse, heq]
      exact List.mem_cons_of_mem _ (List.mem_reverse.mp hcells)
    · exact h
  · exact h

theorem yields_tableRows {inside : Inside} (hi : inside.Low n) (stop : Nat) {rounds : Nat}
    {cells : List Node} {rows : List (List Node)} (hcells : ∀ cell ∈ cells, cell.Low (6 * n + 3))
    (hrows : RowsLow (6 * n + 3) rows) :
    Yields (RowsLow (6 * n + 3)) (tableRows inside stop rounds cells rows) := by
  induction rounds generalizing cells rows with
  | zero => exact yields_pure (hrows.cons hcells).reverse
  | succ rounds ih =>
    unfold tableRows
    refine (hi.content _).bind fun cell hcell => .behind fun c => ?_
    have hmore := List.forall_mem_cons.mpr ⟨hcell, hcells⟩
    have hall := hrows.cons hmore
    cases c.rest with
    | nil => exact yields_pure hall.reverse
    | cons t rest =>
      dsimp only
      split
      · exact yields_pure hall.reverse
      · refine .behind fun _ => ?_
        split
        · exact .behind fun _ => ih (List.forall_mem_nil _) hall
        · exact ih hmore hrows

theorem low_tableNode {rows : List (List Node)} (h : RowsLow k rows) (columnAlign : Text) :
    (tableNode rows columnAlign).Low (k + 3) := by
  refine low_element fun row hrow => ?_
  obtain ⟨cells, hcells, rfl⟩ := List.mem_map.mp hrow
  refine low_element fun cell hcell => ?_
  obtain ⟨content, hcontent, rfl⟩ := List.mem_map.mp hcell
  exact low_one (h cells hcells content hcontent)

theorem yields_environmentContent {inside : Inside} (hi : inside.Low n) (name : Text)
    (e : Environment) (stop : Nat) (argument : Text) :
    Yields (Node.Low (6 * n + 7)) (environmentContent inside name e stop argument) := by
  have grid : ∀ rounds, Yields (RowsLow (6 * n + 3)) (tableRows inside stop rounds [] []) :=
    fun rounds => yields_tableRows hi stop (List.forall_mem_nil _) (List.forall_mem_nil _)
  have table : ∀ {rows} align, RowsLow (6 * n + 3) rows →
      (tableNode (dropEmptyRow rows) align).Low (6 * n + 6) := fun align hrows =>
    low_tableNode hrows.dropEmptyRow align
  unfold environmentContent
  cases e.kind with
  | display | container =>
    exact (hi.content _).map fun content hcontent => (low_one hcontent).mono (by omega)
  | table | array =>
    exact .behind fun c => (grid _).map fun rows hrows => (table _ hrows).mono (Nat.le_succ _)
  | fencedTable => exact .behind fun c => (grid _).map fun rows hrows => low_one (table _ hrows)

theorem yields_environment (hn : nested.Low n) :
    Yields (Node.Low (6 * n + 1)) (environment s nested) := by
  rw [environment_eq]
  refine .behind fun first => ?_
  cases first with
  | none => exact yields_throw _
  | some opening =>
    dsimp only
    split
    · refine .behind fun name => .behind fun e => .behind fun c => ?_
      cases findEnd name opening [] c.position c.rest with
      | error error => exact yields_throw _
      | ok found =>
        refine .behind fun _ => ?_
        unfold environmentRest
        refine yields_enter_bind hn fun inside m hm hi => ?_
        refine .behind fun _ => .behind fun _ => .behind fun argument => ?_
        refine (yields_environmentContent hi name e _ argument).bind fun node hnode => ?_
        refine .behind fun _ => .behind fun _ => .behind fun _ => yields_pure ?_
        exact hnode.mono (by omega)
    · exact yields_throw _

/-! ## Atoms -/

theorem yields_command (hn : nested.Low n) :
    Yields (Node.Low (6 * n + 1)) (command s nested) := by
  rw [command_eq]
  refine .behind fun first => ?_
  cases first with
  | none => exact yields_throw _
  | some t =>
    dsimp only
    split
    · unfold commandAt
      split
      · unfold unknownCommand
        split
        · exact yields_throw _
        · exact .behind fun _ => .behind fun _ => yields_pure ((low_leaf _ _ _).mono (by omega))
      · exact yields_environment hn
      · exact .behind fun _ => yields_throw _
      · exact yields_throw _
      · next meaning _ _ _ _ =>
        exact .behind fun _ => .behind fun _ => yields_reading hn t (low_reading s t meaning)
    · exact yields_throw _

theorem low_symbolNode (g : Grammar) (value : Text) : (symbolNode g value).Low 1 := by
  unfold symbolNode
  split
  · exact low_leaf _ _ _
  · split <;> exact low_leaf _ _ _

theorem yields_atomAt (hn : nested.Low n) (t : Token) :
    Yields (Node.Low (6 * n + 1)) (atomAt s nested t) := by
  unfold atomAt
  split
  · exact yields_command hn
  · exact .behind fun _ => yields_pure ((low_symbolNode _ _).mono (by omega))
  · exact .behind fun _ => yields_pure ((low_leaf _ _ _).mono (by omega))
  · exact .behind fun _ => yields_pure ((low_leaf _ _ _).mono (by omega))
  · split
    · exact (yields_group hn).mono fun node h => h.low.mono (by omega)
    · exact .behind fun _ => yields_throw _
  · split
    · refine (yields_bracketContent hn).map fun node h => (low_one h.low).mono ?_
      have hpos := h.pos
      omega
    · exact .behind fun _ => yields_throw _
  · exact yields_throw _

theorem yields_atom (hn : nested.Low n) : Yields (Node.Low (6 * n + 1)) (atom s nested) := by
  rw [atom_eq]
  refine .behind fun first => ?_
  cases first with
  | none => exact yields_throw _
  | some t =>
    refine .behind fun _ => (yields_atomAt hn t).map fun node h => ?_
    unfold placedNode
    split
    · exact h.addAttribute _ _
    · exact h

/-! ## Siblings -/

/-- The nodes of scripts. -/
def Scripts.nodes : Scripts → List Node
  | .sub node => [node]
  | .sup node => [node]
  | .both first second => [first, second]

theorem scriptNode_eq (base : Node) (scripts : Scripts) :
    ∃ name ∈ scriptedNames, scriptNode base scripts = .element name [] (base :: scripts.nodes) := by
  unfold scriptNode
  cases takesLimits base <;> cases scripts <;> exact ⟨_, by decide, rfl⟩

theorem Scripts.mem_nodes_add? {scripts all : Scripts} {script : Script} {argument node : Node}
    (h : scripts.add? script argument = some all) (hnode : node ∈ all.nodes) :
    node = argument ∨ node ∈ scripts.nodes := by
  unfold Scripts.add? at h
  split at h
  · cases h
    exact (List.mem_cons.mp hnode).elim (fun h => .inr (h ▸ List.mem_cons_self))
      fun h => .inl (List.mem_singleton.mp h)
  · cases h
    exact List.mem_cons.mp hnode
  · cases h

theorem Scripts.nodes_single (script : Script) (argument : Node) :
    (Scripts.single script argument).nodes = [argument] := by
  cases script <;> rfl

/-- A base is low, or it is a row in parentheses that holds nodes one level higher. -/
inductive BaseLow (k : Nat) : Node → Prop where
  | low {base : Node} : base.Low k → BaseLow k base
  | row {attributes : Assoc Text Text} {inner : List Node} :
    (element "mrow" attributes inner).isParenthesised = true → (∀ c ∈ inner, c.Low (k + 1)) →
    BaseLow k (element "mrow" attributes inner)

/-- The nodes that a sibling is made of are low. -/
def Sibling.Low (k : Nat) : Sibling → Prop
  | .atom node => node.Low k
  | .scripted base scripts => BaseLow k base ∧ ∀ node ∈ scripts.nodes, node.Low k

/-- A sibling is one level above its nodes. -/
theorem Sibling.Low.node {x : Sibling} (h : x.Low k) : x.node.Low (k + 1) := by
  cases x with
  | atom node => exact Node.Low.mono h (Nat.le_succ k)
  | scripted base scripts =>
    obtain ⟨name, hname, heq⟩ := scriptNode_eq base scripts
    obtain ⟨hbase, hscripts⟩ := h
    rw [Sibling.node, heq]
    cases hbase with
    | low hbase => exact low_element (List.forall_mem_cons.mpr ⟨hbase, hscripts⟩)
    | row hrow hinner =>
      exact low_fold hname hrow hinner fun node hnode => (hscripts node hnode).mono (Nat.le_succ k)

theorem BaseLow.slot {base : Node} (h : BaseLow k base) (hk : 1 ≤ k) : BaseLow k base.slot := by
  cases h with
  | low h => exact .low (h.slot hk)
  | row hrow hinner => exact .row hrow hinner

/-- A run in parentheses ends with an opening one, counted from the latest sibling. -/
theorem isParen_of_runLength? {depth m : Nat} {siblings : List Sibling}
    (h : runLength? depth siblings = some m) :
    ∃ first, (siblings.take m).getLast? = some first ∧ isParen "(" first.node = true := by
  induction siblings generalizing depth m with
  | nil => cases h
  | cons x earlier ih =>
    have further : ∀ {depth'}, (runLength? depth' earlier).map (· + 1) = some m →
        ∃ first, ((x :: earlier).take m).getLast? = some first ∧
          isParen "(" first.node = true := by
      intro depth' h
      obtain ⟨m', hm, rfl⟩ := Option.map_eq_some_iff.mp h
      obtain ⟨first, hfirst, hparen⟩ := ih hm
      refine ⟨first, ?_, hparen⟩
      rw [List.take_succ_cons, List.getLast?_cons, hfirst]
      rfl
    unfold runLength? at h
    split at h
    · exact further h
    · split at h
      · next hopen =>
        split at h
        · cases h
          exact ⟨x, rfl, hopen⟩
        · exact further h
      · exact further h

/-- A run in parentheses makes a row in parentheses. -/
theorem isParenthesised_row {latest : Sibling} {earlier : List Sibling} {m : Nat}
    (hlatest : isParen ")" latest.node = true)
    (h : runLength? 0 (latest :: earlier) = some m) :
    (Node.row (((latest :: earlier).take m).map Sibling.node).reverse).isParenthesised = true := by
  obtain ⟨first, hfirst, hopen⟩ := isParen_of_runLength? h
  have hclose : ((latest :: earlier).take m).head? = some latest := by
    cases m with
    | zero => cases hfirst
    | succ m => rfl
  simp only [Node.row, isParenthesised, List.head?_reverse, List.getLast?_reverse,
    List.getLast?_map, List.head?_map, hfirst, hclose, Option.map_some, Option.any_some, hopen,
    hlatest, decide_true, Bool.and_self]

/-- What a script is bound to, unless the latest sibling has scripts. -/
theorem low_foldParens {siblings earlier : List Sibling} {base : Sibling}
    (h : ∀ x ∈ siblings, x.Low k) (hatom : ∀ b scripts e, siblings ≠ .scripted b scripts :: e)
    (hfold : foldParens siblings = base :: earlier) :
    BaseLow k base.node ∧ ∀ x ∈ earlier, x.Low k := by
  have same : siblings = base :: earlier → BaseLow k base.node ∧ ∀ x ∈ earlier, x.Low k := by
    rintro rfl
    obtain ⟨hbase, hearlier⟩ := List.forall_mem_cons.mp h
    cases base with
    | atom node => exact ⟨.low hbase, hearlier⟩
    | scripted b scripts => exact (hatom b scripts earlier rfl).elim
  unfold foldParens at hfold
  split at hfold
  · cases hfold
  · next latest rest =>
    split at hfold
    · next hclose =>
      split at hfold
      · next m hrun =>
        cases hfold
        refine ⟨.row (isParenthesised_row hclose hrun) fun c hc => ?_, fun x hx =>
          h x (List.mem_of_mem_drop hx)⟩
        obtain ⟨x, hx, rfl⟩ := List.mem_map.mp (List.mem_reverse.mp hc)
        exact (h x (List.mem_of_mem_take hx)).node
      · exact same hfold
    · exact same hfold

/-- Binding a script leaves all siblings low. -/
theorem low_bindScript? {siblings bound : List Sibling} {script : Script} {argument : Node}
    (h : ∀ x ∈ siblings, x.Low k) (hargument : argument.Low k) (hk : 1 ≤ k)
    (hbound : bindScript? script argument siblings = some bound) : ∀ x ∈ bound, x.Low k := by
  unfold bindScript? at hbound
  split at hbound
  · next base scripts earlier =>
    obtain ⟨all, hall, rfl⟩ := Option.map_eq_some_iff.mp hbound
    obtain ⟨hlatest, hearlier⟩ := List.forall_mem_cons.mp h
    refine List.forall_mem_cons.mpr ⟨⟨hlatest.1, fun node hnode => ?_⟩, hearlier⟩
    rcases Scripts.mem_nodes_add? hall hnode with rfl | hnode
    · exact hargument
    · exact hlatest.2 node hnode
  · next hatom =>
    split at hbound
    · next base earlier hfold =>
      cases hbound
      obtain ⟨hbase, hearlier⟩ := low_foldParens h hatom hfold
      refine List.forall_mem_cons.mpr ⟨⟨hbase.slot hk, fun node hnode => ?_⟩, hearlier⟩
      rw [Scripts.nodes_single] at hnode
      rw [List.mem_singleton.mp hnode]
      exact hargument
    · cases hbound

theorem yields_scriptArgument (hn : nested.Low n) (stop : Stop) (script : Script) (marker : Token) :
    Yields (Node.Low (6 * n + 1)) (scriptArgument s nested stop script marker) := by
  refine .behind fun c => ?_
  cases c.rest with
  | nil => exact yields_throw _
  | cons t rest =>
    dsimp only
    split
    · exact yields_throw _
    · split
      · exact (yields_group hn).map fun node h => h.slot.low.mono (by omega)
      · exact yields_atom hn

/-- What all siblings have that a round of an expression leaves, if those before it have it and the
node that the round reads has `r`. -/
structure Kept (r : Node → Prop) (q : List Sibling → Prop) : Prop where
  atom : ∀ {done node}, q done → r node → q (.atom node :: done)
  script : ∀ {done bound script node}, q done → r node → bindScript? script node done = some bound →
    q bound
  limits : ∀ {done} movable, q done → q (placeLimits movable done)

variable {r : Node → Prop} {q : List Sibling → Prop}

/-- What each round keeps is kept by an expression. -/
theorem Kept.yields_siblings (hq : Kept r q) (stop : Stop) (hatom : Yields r (Parser.atom s nested))
    (hscript : ∀ script marker, Yields r (scriptArgument s nested stop script marker))
    {rounds : Nat}
    {done : List Sibling} (h : q done) : Yields q (siblings s nested stop rounds done) := by
  have htakeScript : ∀ script marker {done}, q done →
      Yields q (takeScript s nested stop script marker done) := by
    intro script marker done h
    refine .behind fun _ => ?_
    split
    · exact yields_throw _
    · refine (hscript script marker).bind fun argument hargument => ?_
      split
      · next bound hbound => exact yields_pure (hq.script h hargument hbound)
      · exact yields_throw _
  have htakeLimits : ∀ movable t {done}, q done → Yields q (takeLimits movable t done) := by
    intro movable t done h c
    obtain ⟨log, hrun⟩ := run_takeLimits movable t done c
    unfold Gives Outcome
    rw [hrun]
    exact hq.limits movable h
  induction rounds generalizing done with
  | zero => exact yields_pure h
  | succ rounds ih =>
    unfold siblings
    refine .behind fun c => ?_
    cases c.rest with
    | nil => exact yields_pure h
    | cons t rest =>
      dsimp only
      split
      · exact yields_pure h
      · split
        · exact yields_throw _
        · split
          · exact (htakeScript _ t h).bind fun bound hbound => ih hbound
          · exact (htakeLimits _ t h).bind fun done' hdone => ih hdone
          · exact hatom.bind fun node hnode => ih (hq.atom h hnode)

theorem kept_low (hk : 1 ≤ k) : Kept (Node.Low k) fun done => ∀ x ∈ done, x.Low k where
  atom h hnode := List.forall_mem_cons.mpr ⟨hnode, h⟩
  script h hnode hbound := low_bindScript? h hnode hk hbound
  limits movable h := by
    unfold placeLimits
    split
    · obtain ⟨hlatest, hearlier⟩ := List.forall_mem_cons.mp h
      split
      · exact List.forall_mem_cons.mpr ⟨Node.Low.setAttribute hlatest _ _, hearlier⟩
      · exact h
    · exact h

/-- Each round of an expression adds low siblings. -/
theorem yields_siblings (hn : nested.Low n) (stop : Stop) {rounds : Nat} {done : List Sibling}
    (h : ∀ x ∈ done, x.Low (6 * n + 1)) :
    Yields (fun done' => ∀ x ∈ done', x.Low (6 * n + 1)) (siblings s nested stop rounds done) :=
  (kept_low (by omega)).yields_siblings stop (yields_atom hn) (yields_scriptArgument hn stop) h

/-! ## Expressions -/

/-- An expression is one level above its siblings. -/
theorem yields_expressionWith (hn : nested.Low n) (stop : Stop) :
    Yields (Node.Low (6 * n + 3)) (expressionWith s nested stop) := by
  refine .behind fun c => (yields_siblings hn stop (List.forall_mem_nil _)).map fun done h => ?_
  refine low_collapse fun node hnode => ?_
  obtain ⟨x, hx, rfl⟩ := List.mem_map.mp (List.mem_reverse.mp hnode)
  exact (h x hx).node

theorem low_inside (s : Setup) (n : Nat) : (inside s n).Low n := by
  induction n with
  | zero => exact .none
  | succ n ih => exact .some ⟨yields_expressionWith ih⟩

end Parser

/-! ## Parses -/

/-- A parsed tree has six levels for each scope that the limit on nesting allows, three more, and
two for each fold. So it has at most eight for each scope and eight more, unless there are more
folds than scopes and two. -/
theorem height_of_parse (grammar : Grammar) (options : Options) (source : Text) (node : Node)
    (limit : Nat) (hlimit : options.maxNestingDepth.number.ceiling? = some limit)
    (h : (parse grammar options source).value = .ok node) :
    node.height ≤ 6 * limit + 3 + 2 * node.folds ∧
      (node.folds ≤ limit + 2 → node.height ≤ 8 * (limit + 1)) := by
  have hgives : Parser.Gives (Parser.expression ⟨grammar, options, source⟩ Parser.noStop)
      { rest := Token.tokenize source } fun node _ => node.Low (6 * limit + 3) := by
    refine Parser.Outcome.get_bind ?_
    rw [Parser.allowance_of_ceiling hlimit]
    exact Parser.yields_expressionWith (Parser.low_inside _ _) _ _
  have hlow : node.Low (6 * limit + 3) := by
    rw [Parser.value_parse] at h
    split at h
    · next n c hrun =>
      cases h
      exact Parser.outcome_ok hgives hrun
    · cases h
  unfold Node.Low at hlow
  omega

/-- Eight runs in parentheses, each inside the next one, behind which a script stands: where a
single scope may be opened and none is, the tree is higher than eight levels for that scope and
eight more. -/
theorem height_of_parse_folds :
    let grammar : Grammar := ⟨[], [], [("(", "("), (")", ")")]⟩
    let options : Options := { maxNestingDepth := .ofNat 0 }
    options.maxNestingDepth.number.ceiling? = some 1 ∧
      ∃ node, (parse grammar options "((((((((a)^b)^b)^b)^b)^b)^b)^b)^b").value = .ok node ∧
        node.folds = 8 ∧ 8 * (1 + 1) < node.height ∧ node.height ≤ 6 * 1 + 3 + 2 * 8 := by
  intro grammar options
  have hrun : (parse grammar options "((((((((a)^b)^b)^b)^b)^b)^b)^b)^b").value.toOption.any
      (fun node => decide (node.folds = 8 ∧ 8 * (1 + 1) < node.height)) = true := by
    decide +kernel
  cases hparse : (parse grammar options "((((((((a)^b)^b)^b)^b)^b)^b)^b)^b").value with
  | error e =>
    rw [hparse] at hrun
    cases hrun
  | ok node =>
    rw [hparse] at hrun
    obtain ⟨hfolds, hhigh⟩ := of_decide_eq_true hrun
    have hbound := (height_of_parse grammar options _ node 1 rfl hparse).1
    rw [hfolds] at hbound
    exact ⟨rfl, node, rfl, hfolds, hhigh, hbound⟩

end MathMarkup
