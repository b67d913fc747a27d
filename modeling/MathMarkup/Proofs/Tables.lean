import MathMarkup.Proofs.Parser.Stopping
import MathMarkup.Proofs.Scoping

/-!
# Tables

The content of a table is cut at the `&` and `\\` that no group, pair of delimiters or environment
inside it takes for itself. Where the pieces are read up to such a separator on their own, the table
has one row for each row of pieces and one cell for each piece, with the node that the piece has on
its own (`environment_of_cells`); a last row of one empty cell, as a `\\` at the end leaves it
behind, is left out.

The loop over the cells takes one piece in each round, so that the induction goes along the pieces
(`CutsInto`), with one case for each way in which a piece ends.
-/

namespace MathMarkup.Parser

/-- The stop at a token that separates cells or rows. -/
def stopAtSeparator : Stop := fun _ t => isCellSeparator t || isRowSeparator t

/-- A piece of a table, with the node that it is read as. -/
structure Cell where
  tokens : List Token
  node : Node

/-- On its own the piece is read up to its end, though the expression could stop at a separator, and
gives the node. -/
def Cell.Reads (s : Setup) (x : Cell) : Prop :=
  ∃ d, (expression s stopAtSeparator).run { rest := x.tokens } = .ok x.node d ∧ d.rest = []

/-- Where `k` scopes may be opened, the piece is not refused one. -/
def Cell.OpensAtMost (s : Setup) (k : Nat) (x : Cell) : Prop :=
  ∀ e d, (expressionWith s (inside s k) stopAtSeparator).run { rest := x.tokens } = .error e d →
    ∀ t, e ≠ tooDeep s t

/-- The tokens are those of a first row of pieces and of further rows. A row separator is followed
by no bracket, which would open a hint on spacing. -/
inductive CutsInto : List Token → List Cell → List (List Cell) → Prop where
  | last (x : Cell) : CutsInto x.tokens [x] []
  | cell (x : Cell) {t : Token} {v : List Token} {row : List Cell} {more : List (List Cell)} :
    isCellSeparator t = true → CutsInto v row more →
      CutsInto (x.tokens ++ t :: v) (x :: row) more
  | row (x : Cell) {t : Token} {v : List Token} {row : List Cell} {more : List (List Cell)} :
    isRowSeparator t = true → (∀ u ∈ v.head?, u.isOpenBracket = false) → CutsInto v row more →
      CutsInto (x.tokens ++ t :: v) [x] (row :: more)

/-- The rows of a table without a last one that consists of the empty text alone. The first row
stays. -/
def keptRows (rows : List (List Node)) : List (List Node) :=
  if 2 ≤ rows.length ∧ rows.getLast? = some [.text []] then rows.dropLast else rows

variable {s : Setup} {i : Inside} {m stop rounds : Nat} {w tail : List Token} {c : Cursor}
  {row : List Cell} {more : List (List Cell)} {excused : ParseError → Prop}

theorem isEmpty_iff_eq (n : Node) : n.isEmpty = true ↔ n = .text [] := by
  cases n with
  | text content => simp [Node.isEmpty]
  | element name attributes children => simp [Node.isEmpty]

theorem dropEmptyRow_eq (rows : List (List Node)) : dropEmptyRow rows = keptRows rows := by
  obtain ⟨latest, rfl⟩ : ∃ latest, rows = latest.reverse := ⟨rows.reverse, by simp⟩
  unfold dropEmptyRow keptRows
  rw [List.reverse_reverse, List.length_reverse, List.getLast?_reverse, List.dropLast_reverse]
  split
  · next last row earlier =>
    by_cases hlast : last.isEmpty = true
    · have heq := (isEmpty_iff_eq last).mp hlast
      simp [heq]
    · have hne : last ≠ .text [] := fun h => hlast ((isEmpty_iff_eq last).mpr h)
      simp [hlast, hne]
  · next hshape =>
    rw [if_neg]
    rintro ⟨hlength, hhead⟩
    match latest with
    | _ :: _ :: _ =>
      cases hhead
      exact hshape _ _ _ rfl

/-- In a table that ends at `stop` the piece is read as its node, wherever a separator or that end
stands behind it. -/
def Cell.ReadsIn (s : Setup) (m stop : Nat) (excused : ParseError → Prop) (x : Cell) : Prop :=
  ∀ (c : Cursor) (tail : List Token), c.rest = x.tokens ++ tail →
    c.position + x.tokens.length ≤ stop →
    (∀ t ∈ tail.head?, stopAtCell stop (c.position + x.tokens.length) t = true) →
      Outcome (expressionWith s (inside s m) (stopAtCell stop)) c
        (fun n c' => n = x.node ∧ Took x.tokens c c') fun e _ => excused e

/-- The piece is read where it stands as on its own, but for the scopes that it may be refused. -/
theorem Cell.readsIn_of_run {x : Cell} {k : Nat} {d : Cursor}
    (hrun : (expressionWith s (inside s k) stopAtSeparator).run { rest := x.tokens } = .ok x.node d)
    (hd : d.rest = []) (hdeep : m < k → ∀ t, excused (tooDeep s t)) :
    x.ReadsIn s m stop excused := by
  intro c tail hc hle htail
  have hstop : ∀ p t, p < x.tokens.length →
      stopAtSeparator p t = stopAtCell stop (p + c.position) t := by
    intro p t hp
    have hne : p + c.position ≠ stop := by omega
    simp [stopAtSeparator, stopAtCell, hne]
  have hout := outcome_of_stopping hdeep hrun hd hc hstop fun t ht => by
    rw [Nat.add_comm]
    exact htail t ht
  have hgives : Gives (expressionWith s (inside s m) (stopAtCell stop)) c
      fun _ c' => ∃ w, Took w c c' := by
    refine (followsTo_expressionWith (follows_inside s m) _ c).weaken ?_
    rintro _ c' ⟨w, _, hw, -⟩
    exact ⟨w, hw⟩
  refine (hout.and_gives hgives).weaken ?_
  rintro n c' ⟨⟨rfl, hrest⟩, w, hw⟩
  have hsplit := hw.rest
  rw [hc, hrest] at hsplit
  obtain rfl := List.append_cancel_right hsplit
  exact ⟨rfl, hw⟩

theorem Cell.Reads.readsIn {x : Cell} (h : x.Reads s)
    (hdeep : m < allowance s { rest := x.tokens } → ∀ t, excused (tooDeep s t)) :
    x.ReadsIn s m stop excused := by
  obtain ⟨d, hrun, hd⟩ := h
  unfold expression at hrun
  rw [run_withAllowance] at hrun
  exact readsIn_of_run hrun hd hdeep

/-- Where it is not refused a scope, the piece is read as on its own. -/
theorem Cell.Reads.readsIn_of_opensAtMost {x : Cell} (h : x.Reads s) (hopens : x.OpensAtMost s m) :
    x.ReadsIn s m stop fun _ => False := by
  obtain ⟨d, hrun, hd⟩ := h
  unfold expression at hrun
  rw [run_withAllowance] at hrun
  have hout : Outcome (expressionWith s (inside s m) stopAtSeparator) { rest := x.tokens }
      (fun n c' => n = x.node ∧ c'.rest = []) fun e _ => ∃ t, e = tooDeep s t :=
    outcome_of_stopping (fun _ t => ⟨t, rfl⟩) hrun hd (List.append_nil _).symm
      (fun _ _ _ => rfl) fun _ h => nomatch h
  cases hlimited : (expressionWith s (inside s m) stopAtSeparator).run { rest := x.tokens } with
  | ok n d' =>
    obtain ⟨rfl, hd'⟩ := outcome_ok hout hlimited
    exact readsIn_of_run hlimited hd' fun h => absurd h (Nat.lt_irrefl m)
  | error e d' =>
    obtain ⟨t, ht⟩ := outcome_error hout hlimited
    exact absurd ht (hopens e d' hlimited t)

/-- Where no bracket follows there is no optional argument. -/
theorem outcome_optionalArgument_none {nested : Nested}
    (h : ∀ u ∈ c.rest.head?, u.isOpenBracket = false) :
    Outcome (optionalArgument s nested) c (fun hint c' => hint = none ∧ c' = c)
      fun _ _ => False := by
  unfold optionalArgument
  refine Outcome.peek_bind (fun _ => ⟨rfl, rfl⟩) fun t rest hc => ?_
  have ht : t.isOpenBracket = false := h t (by rw [hc]; rfl)
  simp only [ht, Bool.false_eq_true, if_false]
  exact ⟨rfl, rfl⟩

/-- The parsers inside a scope in which `m` scopes may be opened. -/
abbrev insideOf (s : Setup) (m : Nat) : Inside where
  content := fun stop => expressionWith s (inside s m) stop
  optional := fun c => optionalArgument s (inside s m) c

/-- A round of the loop over the pieces of a table that does not end it. -/
theorem outcome_tableRows_succ {x : Cell} {t : Token} {rest : List Token} {cells : List Node}
    {rows : List (List Node)} {post : List (List Node) → Cursor → Prop}
    (hx : x.ReadsIn s m stop excused) (hc : c.rest = x.tokens ++ t :: rest)
    (hlt : c.position + x.tokens.length < stop)
    (hsep : (isCellSeparator t || isRowSeparator t) = true)
    (h : ∀ c', Took (x.tokens ++ [t]) c c' → Outcome
      (if isRowSeparator t then do
          let _ ← (insideOf s m).optional
          tableRows (insideOf s m) stop rounds [] ((x.node :: cells).reverse :: rows)
        else tableRows (insideOf s m) stop rounds (x.node :: cells) rows) c' post
      fun e _ => excused e) :
    Outcome (tableRows (insideOf s m) stop (rounds + 1) cells rows) c post
      fun e _ => excused e := by
  have hstops : ∀ u ∈ (t :: rest).head?,
      stopAtCell stop (c.position + x.tokens.length) u = true := by
    rintro _ ⟨⟩
    rw [Bool.or_eq_true] at hsep
    simp [stopAtCell, Nat.ne_of_lt hlt, hsep]
  unfold tableRows
  refine Outcome.bind (hx c _ hc (Nat.le_of_lt hlt) hstops) ?_
  rintro _ d ⟨rfl, hw⟩
  have hd : d.rest = t :: rest := hw.rest_eq hc
  have hne : d.position ≠ stop := by
    rw [hw.position]
    exact Nat.ne_of_lt hlt
  refine Outcome.get_bind ?_
  rw [hd]
  dsimp only
  rw [if_neg hne]
  exact Outcome.advance_bind (h _ (hw.trans (took_next hd)))

/-- The loop over the pieces of a table. -/
theorem outcome_tableRows (hcut : CutsInto w row more)
    (hreads : ∀ x ∈ (row :: more).flatten, x.ReadsIn s m stop excused)
    (htail : ∀ t ∈ tail.head?, t.isOpenBracket = false) (hc : c.rest = w ++ tail)
    (hstop : c.position + w.length = stop) (hrounds : w.length < rounds) (cells : List Node)
    (rows : List (List Node)) :
    Outcome (tableRows (insideOf s m) stop rounds cells rows) c (fun all c' =>
        all = rows.reverse ++ (cells.reverse ++ row.map Cell.node) ::
          more.map (List.map Cell.node) ∧ Took w c c')
      fun e _ => excused e := by
  induction hcut generalizing c rounds cells rows with
  | last x =>
    obtain _ | rounds := rounds
    · omega
    have hcell := hreads x (by simp) c tail hc (Nat.le_of_eq hstop) fun t _ => by
      simp [stopAtCell, hstop]
    unfold tableRows
    refine Outcome.bind hcell ?_
    rintro _ c' ⟨rfl, hw⟩
    refine Outcome.get_bind ?_
    split
    · exact ⟨by simp, hw⟩
    · rw [if_pos (hw.position.trans hstop)]
      exact ⟨by simp, hw⟩
  | @cell x t v row more hsep _ ih =>
    obtain _ | rounds := rounds
    · omega
    simp only [List.length_append, List.length_cons] at hstop hrounds
    have hrow : isRowSeparator t = false := by
      simp [isRowSeparator, Token.isCommand, Token.is, (Token.is_iff.mp hsep).1]
    refine outcome_tableRows_succ (hreads x (by simp)) (by simpa using hc) (by omega)
      (by rw [hsep, Bool.true_or]) fun d hd => ?_
    rw [hrow, if_neg Bool.false_ne_true]
    have hposition := hd.position
    simp only [List.length_append, List.length_singleton] at hposition
    refine (ih (fun y hy => hreads y (by simp at hy ⊢; tauto)) (hd.rest_eq (by simpa using hc))
      (by omega) (by omega) (x.node :: cells) rows).weaken ?_
    rintro all c' ⟨rfl, hw⟩
    refine ⟨by simp, ?_⟩
    simpa using hd.trans hw
  | @row x t v row more hsep hbracket _ ih =>
    obtain _ | rounds := rounds
    · omega
    simp only [List.length_append, List.length_cons] at hstop hrounds
    refine outcome_tableRows_succ (hreads x (by simp)) (by simpa using hc) (by omega)
      (by rw [hsep, Bool.or_true]) fun d hd => ?_
    rw [if_pos hsep]
    have hrest : d.rest = v ++ tail := hd.rest_eq (by simpa using hc)
    have hposition := hd.position
    simp only [List.length_append, List.length_singleton] at hposition
    have hhint : ∀ u ∈ d.rest.head?, u.isOpenBracket = false := by
      intro u hu
      rw [hrest, List.head?_append] at hu
      cases hv : v.head? with
      | none => exact htail u (by simpa [hv] using hu)
      | some y => exact hbracket u (by simpa [hv] using hu)
    refine Outcome.bind ((outcome_optionalArgument_none hhint).mono (fun _ _ h => h)
      fun _ _ h => h.elim) ?_
    rintro _ _ ⟨-, rfl⟩
    refine (ih (fun y hy => hreads y (by simp at hy ⊢; tauto)) hrest (by omega) (by omega) []
      ((x.node :: cells).reverse :: rows)).weaken ?_
    rintro all c' ⟨rfl, hw⟩
    refine ⟨by simp, ?_⟩
    simpa using hd.trans hw

/-! ## Environments -/

variable {nested : Nested} {name : Text} {b x : Token} {n n' body : List Token} {e : Environment}

theorem outcome_takeName (hn : NameGroup n name) (t : Token) (hc : c.rest = n ++ tail) :
    Outcome (takeName t) c (fun name' c' => name' = name ∧ Took n c c') fun _ _ => False := by
  have hscan : scanName? c.rest = some (name, n.length) := by
    rw [hc]
    exact hn.scanName? tail
  refine (outcome_takeName_of_scanName? hscan t).weaken ?_
  rintro _ _ ⟨rfl, rfl⟩
  exact ⟨rfl, took_skip hc⟩

theorem outcome_takeEnd (hn : NameGroup n name) (hc : c.rest = x :: (n ++ tail))
    (hstop : c.position = stop) :
    Outcome (takeEnd name stop) c (fun _ c' => Took (x :: n) c c') fun _ _ => False := by
  subst hstop
  refine (outcome_takeEnd_of_scanName? hc (hn.scanName? tail)).weaken ?_
  rintro _ _ rfl
  rw [Nat.add_comm]
  exact took_skip hc

/-- A table between its name and its end. -/
theorem outcome_environmentRest_table (hkind : e.kind = .table)
    (hargument : e.takesArgument = false) (hcut : CutsInto body row more)
    (hreads : ∀ x ∈ (row :: more).flatten, x.ReadsIn s m stop excused) (hn : NameGroup n name)
    (hx : x.isOpenBracket = false) (hc : c.rest = body ++ x :: (n ++ tail))
    (hstop : c.position + body.length = stop) :
    Outcome (environmentRest s (some (insideOf s m)) name b e stop) c (fun node c' =>
        node = tableNode (keptRows ((row :: more).map (List.map Cell.node))) e.columnAlign ∧
          Took (body ++ x :: n) c c')
      fun e _ => excused e := by
  have hbracket : ∀ t ∈ (x :: (n ++ tail)).head?, t.isOpenBracket = false := by
    rintro _ ⟨⟩
    exact hx
  have hlength : body.length < c.rest.length + 1 := by
    rw [hc, List.length_append]
    omega
  -- The table is read in the scope of the environment.
  have hrows := outcome_tableRows (c := { c with
    scopes := ⟨.environment, name, b⟩ :: c.scopes, environment := some name })
    hcut hreads hbracket hc hstop hlength [] []
  unfold environmentRest
  refine Outcome.enter_bind (fun h => nomatch h) fun inside hi => ?_
  cases hi
  refine Outcome.get_bind ?_
  simp only [outcome_bind, outcome_modify, environmentArgument?, hargument, Bool.false_eq_true,
    if_false, outcome_pure]
  unfold environmentContent
  rw [hkind]
  refine Outcome.get_bind (Outcome.bind hrows ?_)
  rintro all c1 ⟨rfl, hw⟩
  simp only [outcome_pure, outcome_popScope]
  have hscope := hw.inScope
  refine (outcome_takeEnd hn (hscope.rest_eq hc) (hscope.position.trans hstop)).mono ?_
    fun _ _ h => h.elim
  intro _ c' hend
  refine ⟨by simp [dropEmptyRow_eq], ?_⟩
  simpa using hscope.trans hend

/-- An environment that is known, up to its name. Its end is found, and the rest is read. -/
theorem outcome_environment {rest : List Token} {closing : Token} {post : Node → Cursor → Prop}
    {fail : ParseError → Cursor → Prop} (henv : s.grammar.environments.get? name = some e)
    (hb : b.isCommand "\\begin" = true) (hn : NameGroup n name) (hc : c.rest = b :: (n ++ rest))
    (hfind : findEnd name b [] (c.position + 1 + n.length) rest = .ok (stop, closing))
    (h : ∀ d, Took (b :: n) c d → Outcome (environmentRest s nested name b e stop) d post fail) :
    Outcome (environment s nested) c post fail := by
  rw [environment_eq]
  refine Outcome.next_bind (fun hnil => ?_) fun opening behind hopening => ?_
  · rw [hc] at hnil
    cases hnil
  rw [hc] at hopening
  cases hopening
  simp only [hb, if_true]
  have hskip := took_next hc
  refine Outcome.bind ((outcome_takeName hn b (hskip.rest_eq hc)).mono (fun _ _ h => h)
    fun _ _ h => h.elim) ?_
  rintro _ c1 ⟨rfl, hw⟩
  have hopen : Took (b :: n) c c1 := hskip.trans hw
  have hposition : c1.position = c.position + 1 + n.length := by
    rw [hopen.position, List.length_cons, Nat.add_assoc, Nat.add_comm 1]
  unfold environmentNamed
  rw [henv]
  simp only [pure_bind]
  refine Outcome.get_bind ?_
  rw [hopen.rest_eq hc, hposition, hfind]
  exact Outcome.trace_bind fun log =>
    h { c1 with log := log } ⟨hopen.rest, hopen.position, hopen.scopes, hopen.environment⟩

theorem CutsInto.length_le (hcut : CutsInto w row more) {y : Cell}
    (hy : y ∈ (row :: more).flatten) : y.tokens.length ≤ w.length := by
  induction hcut with
  | last x =>
    obtain rfl : y = x := by simpa using hy
    exact Nat.le_refl _
  | cell x _ _ ih =>
    rw [List.length_append, List.length_cons]
    rw [List.flatten_cons, List.cons_append, List.mem_cons] at hy
    rcases hy with rfl | hy
    · omega
    · have hle := ih hy
      omega
  | row x _ _ _ ih =>
    rw [List.length_append, List.length_cons]
    rw [List.flatten_cons, List.singleton_append, List.mem_cons] at hy
    rcases hy with rfl | hy
    · omega
    · have hle := ih hy
      omega

/-- A table in which each piece is read as its node, where at least one scope may be opened. -/
theorem outcome_environment_table {c : Cursor} (henv : s.grammar.environments.get? name = some e)
    (hkind : e.kind = .table) (hargument : e.takesArgument = false)
    (hb : b.isCommand "\\begin" = true) (hn : NameGroup n name) (hn' : NameGroup n' name)
    (hcut : CutsInto body row more) (hc : c.rest = b :: (n ++ (body ++ x :: (n' ++ tail))))
    (hfind : findEnd name b [] (c.position + 1 + n.length) (body ++ x :: (n' ++ tail)) =
      .ok (c.position + 1 + n.length + body.length, x))
    (hreads : ∀ y ∈ (row :: more).flatten,
      y.ReadsIn s m (c.position + 1 + n.length + body.length) excused) :
    Outcome (environment s (inside s (m + 1))) c (fun node c' =>
        node = tableNode (keptRows ((row :: more).map (List.map Cell.node))) e.columnAlign ∧
          Took (b :: (n ++ (body ++ x :: n'))) c c')
      fun error _ => excused error := by
  have hx : x.isOpenBracket = false := by
    obtain ⟨-, -, -, -, hend, -⟩ := findEnd_eq_ok hfind
    simp [Token.isOpenBracket, Token.isBracket, Token.is, (Token.is_iff.mp hend).1]
  refine outcome_environment henv hb hn hc hfind fun d hd => ?_
  have hposition : d.position + body.length = c.position + 1 + n.length + body.length := by
    rw [hd.position, List.length_cons]
    omega
  refine (outcome_environmentRest_table hkind hargument hcut hreads hn' hx (hd.rest_eq hc)
    hposition).weaken ?_
  rintro node c' ⟨rfl, htook⟩
  refine ⟨rfl, ?_⟩
  simpa using hd.trans htook

/-- A table is cut exactly at its own separators. Its tokens are its name, pieces between cell and
row separators, and the end that belongs to it; each piece is read on its own up to its end, and
none that follows a row separator begins with a bracket. Then the environment is a table with one
row for each row of pieces and one cell for each piece, which holds its node alone; of two or more
rows a last one of one empty cell is left out. Only the limit on nesting can prevent this, and it
does not if it leaves room for the table and for each of its pieces. -/
theorem environment_of_cells (s : Setup) (name : Text) (e : Environment) (c : Cursor) (b x : Token)
    (n n' body tail : List Token) (row : List Cell) (more : List (List Cell))
    (henv : s.grammar.environments.get? name = some e) (hkind : e.kind = .table)
    (hargument : e.takesArgument = false) (hb : b.isCommand "\\begin" = true)
    (hn : NameGroup n name) (hn' : NameGroup n' name) (hcut : CutsInto body row more)
    (hreads : ∀ y ∈ (row :: more).flatten, y.Reads s)
    (hc : c.rest = b :: (n ++ (body ++ x :: (n' ++ tail))))
    (hfind : findEnd name b [] (c.position + 1 + n.length) (body ++ x :: (n' ++ tail)) =
      .ok (c.position + 1 + n.length + body.length, x)) :
    let table : Node := .element "mtable"
      (if e.columnAlign.isEmpty then [] else [("columnalign", e.columnAlign)])
      ((keptRows ((row :: more).map (List.map Cell.node))).map fun cells =>
        .element "mtr" [] (cells.map fun node => .element "mtd" [] [node]))
    Outcome (Entry.environment.run s) c
      (fun node c' => node = table ∧ Took (b :: (n ++ (body ++ x :: n'))) c c')
      (fun error _ => ∃ t, error = tooDeep s t) ∧
    ((∀ limit, s.options.maxNestingDepth.number.ceiling? = some limit →
        c.scopes.length < limit ∧ ∀ y ∈ (row :: more).flatten,
          y.OpensAtMost s (limit - c.scopes.length - 1)) →
      Outcome (Entry.environment.run s) c
        (fun node c' => node = table ∧ Took (b :: (n ++ (body ++ x :: n'))) c c')
        fun _ _ => False) := by
  intro table
  have hlength : body.length + 1 < c.rest.length := by
    rw [hc]
    simp only [List.length_cons, List.length_append]
    omega
  have table_of {excused : ParseError → Prop} {m : Nat} (hm : allowance s c = m + 1)
      (hin : ∀ y ∈ (row :: more).flatten,
        y.ReadsIn s m (c.position + 1 + n.length + body.length) excused) :
      Outcome (Entry.environment.run s) c
        (fun node c' => node = table ∧ Took (b :: (n ++ (body ++ x :: n'))) c c')
        fun error _ => excused error := by
    refine Outcome.get_bind ?_
    rw [hm]
    exact outcome_environment_table henv hkind hargument hb hn hn' hcut hc hfind hin
  constructor
  · cases hm : allowance s c with
    | zero =>
      refine Outcome.get_bind ?_
      rw [hm]
      exact outcome_environment henv hb hn hc hfind fun d _ =>
        Outcome.enter_bind (fun _ => ⟨b, rfl⟩) fun _ h => by cases h
    | succ m =>
      exact table_of hm fun y hy => (hreads y hy).readsIn fun _ t => ⟨t, rfl⟩
  · intro hroom
    cases hlimit : s.options.maxNestingDepth.number.ceiling? with
    | some limit =>
      obtain ⟨hdepth, hopens⟩ := hroom limit hlimit
      have hm : allowance s c = limit - c.scopes.length - 1 + 1 := by
        rw [allowance_of_ceiling hlimit]
        omega
      exact table_of hm fun y hy => (hreads y hy).readsIn_of_opensAtMost (hopens y hy)
    | none =>
      -- Without a limit as many scopes may be opened as there are tokens.
      have hallowance : ∀ d : Cursor, allowance s d = d.rest.length := by
        intro d
        unfold allowance
        rw [hlimit]
      have hm : allowance s c = c.rest.length - 1 + 1 := by
        rw [hallowance]
        omega
      refine table_of hm fun y hy => (hreads y hy).readsIn fun hless => ?_
      have hle := hcut.length_le hy
      rw [hallowance] at hless
      dsimp only at hless
      omega

/-- A matrix of two rows, whose first cell holds an `&` of its own. The second cell is empty and
stays; the row behind the last separator is dropped. Two scopes may be opened, and are. -/
theorem environment_of_cells_matrix :
    let s : Setup := ⟨(Grammar.ofSymbols ⟨fun _ => []⟩).value, { maxNestingDepth := .ofNat 1 }, []⟩
    let letters : List Token := [⟨.symbol, "m", {}⟩, ⟨.symbol, "a", {}⟩, ⟨.symbol, "t", {}⟩,
      ⟨.symbol, "r", {}⟩, ⟨.symbol, "i", {}⟩, ⟨.symbol, "x", {}⟩]
    let name : List Token := ⟨.brace, "\x7b", {}⟩ :: (letters ++ [⟨.brace, "\x7d", {}⟩])
    let pair : List Token := [⟨.command, "\\left", {}⟩, ⟨.symbol, "(", {}⟩, ⟨.symbol, "&", {}⟩,
      ⟨.command, "\\right", {}⟩, ⟨.symbol, ")", {}⟩]
    let body : List Token := pair ++ ⟨.symbol, "&", {}⟩ :: ([] ++ ⟨.command, "\\\\", {}⟩ ::
      ([⟨.symbol, "x", {}⟩] ++ ⟨.command, "\\\\", {}⟩ :: []))
    let w := ⟨.command, "\\begin", {}⟩ :: (name ++ (body ++ ⟨.command, "\\end", {}⟩ :: name))
    ∃ c', (Entry.environment.run s).run { rest := w } =
        .ok (.element "mtable" [("columnalign", "center")]
          [.element "mtr" [] [
              .element "mtd" [] [.row [fenceNode "(", .textElement "&" [], fenceNode ")"]],
              .element "mtd" [] [.text []]],
            .element "mtr" [] [.element "mtd" [] [.identifier "x"]]]) c' ∧
      Took w { rest := w } c' := by
  intro s letters name pair body w
  have hname : NameGroup name "matrix" :=
    ⟨_, letters, _, rfl, rfl, List.cons_ne_nil _ _, by decide, rfl, rfl⟩
  let row : List Cell := [⟨pair, .row [fenceNode "(", .textElement "&" [], fenceNode ")"]⟩,
    ⟨[], .text []⟩]
  let more : List (List Cell) := [[⟨[⟨.symbol, "x", {}⟩], .identifier "x"⟩], [⟨[], .text []⟩]]
  have hcut : CutsInto body row more :=
    .cell ⟨_, _⟩ (by decide) (.row ⟨[], .text []⟩ (by decide) (by decide)
      (.row ⟨_, .identifier "x"⟩ (by decide) (by decide) (.last ⟨[], .text []⟩)))
  have hs : s =
      ⟨⟨Command.structural, Environment.table, []⟩, { maxNestingDepth := .ofNat 1 }, []⟩ :=
    congrArg (Setup.mk · _ _) Grammar.ofSymbols_nil
  have hreads : ∀ y ∈ (row :: more).flatten, y.Reads s := by
    have hruns : ∀ y ∈ (row :: more).flatten, Outcome (expression s stopAtSeparator)
        { rest := y.tokens } (fun node d => node = y.node ∧ d.rest = []) fun _ _ => False := by
      rw [hs]
      decide +kernel
    intro y hy
    obtain ⟨_, d, hrun, rfl, hd⟩ := (hruns y hy).exists_eq_ok
    exact ⟨d, hrun, hd⟩
  have hopens : ∀ y ∈ (row :: more).flatten, y.OpensAtMost s 1 := by
    have hruns : ∀ y ∈ (row :: more).flatten, Outcome
        (expressionWith s (inside s 1) stopAtSeparator) { rest := y.tokens } (fun _ _ => True)
        fun _ _ => False := by
      rw [hs]
      decide +kernel
    intro y hy e d hrun
    exact (outcome_error (hruns y hy) hrun).elim
  have hfind : findEnd "matrix" ⟨.command, "\\begin", {}⟩ [] (0 + 1 + 8)
      (body ++ ⟨.command, "\\end", {}⟩ :: (name ++ [])) =
        .ok (0 + 1 + 8 + 9, ⟨.command, "\\end", {}⟩) := by
    decide
  have hlimit : s.options.maxNestingDepth.number.ceiling? = some 2 := by decide
  obtain ⟨-, hroom⟩ := environment_of_cells s "matrix" (Environment.tableOf "center") { rest := w }
    ⟨.command, "\\begin", {}⟩ ⟨.command, "\\end", {}⟩ name name body [] row more
    (by decide) rfl rfl (by decide) hname hname hcut hreads rfl hfind
  have hdepth : ∀ limit, s.options.maxNestingDepth.number.ceiling? = some limit →
      0 < limit ∧ ∀ y ∈ (row :: more).flatten, y.OpensAtMost s (limit - 0 - 1) := by
    intro limit h
    obtain rfl : 2 = limit := Option.some.inj (hlimit.symm.trans h)
    exact ⟨Nat.two_pos, hopens⟩
  -- what is run is of no concern any more
  clear_value s
  obtain ⟨node, c', hrun, hnode, htook⟩ := (hroom hdepth).exists_eq_ok
  refine ⟨c', ?_, htook⟩
  rw [hrun, hnode]
  congr 1

end MathMarkup.Parser
