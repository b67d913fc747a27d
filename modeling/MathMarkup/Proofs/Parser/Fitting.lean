import Mathlib.Data.List.Forall2
import Mathlib.Data.Option.Basic
import MathMarkup.Proofs.Parser.Outline
import MathMarkup.Proofs.Parser.Pairing

/-!
# Nodes that fit

The nodes of two runs that are compared fit if they are related by the relation of the comparison.
`Fitting` lists what is asked of this relation: elements with fitting children fit, and fitting
nodes are the same to the questions that the parser asks of a node. All else that the parser makes
of nodes is put together from elements, so that it keeps nodes fitting: scripts, runs in
parentheses, tables, and what the commands make of their arguments.
-/

namespace MathMarkup.Parser

/-- Attributes that do not say where a node starts. -/
def Unplaced (attributes : Assoc Text Text) : Prop :=
  attributes.get? (Text.ofString "data-offset") = none

theorem unplaced_nil : Unplaced [] := rfl

/-- What is asked of a relation of nodes. The attribute that says where a node starts is not set by
the commands, and is left to the setups. -/
structure Fitting (node : Node → Node → Prop) : Prop where
  text : ∀ content, node (.text content) (.text content)
  element : ∀ name {attributes : Assoc Text Text} {children children' : List Node},
    Unplaced attributes → List.Forall₂ node children children' →
      node (.element name attributes children) (.element name attributes children')
  isEmpty : ∀ {n n'}, node n n' → n'.isEmpty = n.isEmpty
  hasName : ∀ {n n'}, node n n' → n'.hasName "mo" = n.hasName "mo"
  takesLimits : ∀ {n n'}, node n n' → Parser.takesLimits n' = Parser.takesLimits n
  isParen : ∀ {n n'}, node n n' → ∀ paren : Text, (∀ c ∈ paren, c.isSpace = false) →
    Parser.isParen paren n' = Parser.isParen paren n
  setLimits : ∀ {n n'}, node n n' → ∀ value,
    node (n.setAttribute "movablelimits" value) (n'.setAttribute "movablelimits" value)

variable {node : Node → Node → Prop} {n n' m m' : Node}

namespace Fitting

/-! ## Elements -/

theorem elementOne (h : Fitting node) (name : Text) {attributes : Assoc Text Text}
    (ha : Unplaced attributes) (hn : node n n') :
    node (.element name attributes [n]) (.element name attributes [n']) :=
  h.element name ha (.cons hn .nil)

theorem elementTwo (h : Fitting node) (name : Text) {attributes : Assoc Text Text}
    (ha : Unplaced attributes) (hn : node n n') (hm : node m m') :
    node (.element name attributes [n, m]) (.element name attributes [n', m']) :=
  h.element name ha (.cons hn (.cons hm .nil))

theorem empty (h : Fitting node) (name : Text) {attributes : Assoc Text Text}
    (ha : Unplaced attributes) :
    node (.element name attributes []) (.element name attributes []) :=
  h.element name ha .nil

theorem leaf (h : Fitting node) (name content : Text) {attributes : Assoc Text Text}
    (ha : Unplaced attributes) :
    node (.leaf name content attributes) (.leaf name content attributes) :=
  h.elementOne name ha (h.text content)

theorem operator (h : Fitting node) (content : Text) {attributes : Assoc Text Text}
    (ha : Unplaced attributes) :
    node (.operator content attributes) (.operator content attributes) :=
  h.leaf "mo" content ha

theorem row (h : Fitting node) {children children' : List Node}
    (hc : List.Forall₂ node children children') : node (.row children) (.row children') :=
  h.element "mrow" rfl hc

theorem collapse (h : Fitting node) {children children' : List Node}
    (hc : List.Forall₂ node children children') :
    node (.collapse children) (.collapse children') := by
  cases hc with
  | nil => exact h.text []
  | cons hfirst hmore =>
    cases hmore with
    | nil => exact hfirst
    | cons hsecond hrest => exact h.row (.cons hfirst (.cons hsecond hrest))

theorem slot (h : Fitting node) (hn : node n n') : node n.slot n'.slot := by
  unfold Node.slot
  rw [h.isEmpty hn]
  split
  · exact h.row .nil
  · exact hn

end Fitting

/-! ## Scripts -/

/-- Scripts of one kind with fitting nodes. -/
inductive ScriptsFit (node : Node → Node → Prop) : Scripts → Scripts → Prop where
  | sub {n n' : Node} : node n n' → ScriptsFit node (.sub n) (.sub n')
  | sup {n n' : Node} : node n n' → ScriptsFit node (.sup n) (.sup n')
  | both {n n' m m' : Node} : node n n' → node m m' → ScriptsFit node (.both n m) (.both n' m')

/-- Siblings of one kind with fitting nodes. -/
inductive SiblingFits (node : Node → Node → Prop) : Sibling → Sibling → Prop where
  | atom {n n' : Node} : node n n' → SiblingFits node (.atom n) (.atom n')
  | scripted {n n' : Node} {scripts scripts' : Scripts} : node n n' →
    ScriptsFit node scripts scripts' →
      SiblingFits node (.scripted n scripts) (.scripted n' scripts')

/-- Siblings that fit one by one. -/
abbrev SiblingsFit (node : Node → Node → Prop) : List Sibling → List Sibling → Prop :=
  List.Forall₂ (SiblingFits node)

namespace Fitting

variable {done done' : List Sibling}

theorem single (script : Script) (hn : node n n') :
    ScriptsFit node (.single script n) (.single script n') := by
  cases script with
  | superscript => exact .sup hn
  | subscript => exact .sub hn

theorem add? {scripts scripts' : Scripts} (hscripts : ScriptsFit node scripts scripts')
    (script : Script) (hn : node n n') :
    Option.Rel (ScriptsFit node) (scripts.add? script n) (scripts'.add? script n') := by
  cases hscripts with
  | sub hm =>
    cases script with
    | superscript => exact .some (.both hm hn)
    | subscript => exact .none
  | sup hm =>
    cases script with
    | superscript => exact .none
    | subscript => exact .some (.both hn hm)
  | both => cases script <;> exact .none

theorem scriptNode (h : Fitting node) {scripts scripts' : Scripts} (hn : node n n')
    (hscripts : ScriptsFit node scripts scripts') :
    node (Parser.scriptNode n scripts) (Parser.scriptNode n' scripts') := by
  unfold Parser.scriptNode
  rw [h.takesLimits hn]
  cases hscripts with
  | sub hm => exact h.elementTwo _ rfl hn hm
  | sup hm => exact h.elementTwo _ rfl hn hm
  | both hm hm' => exact h.element _ rfl (.cons hn (.cons hm (.cons hm' .nil)))

theorem siblingNode (h : Fitting node) {x x' : Sibling} (hx : SiblingFits node x x') :
    node x.node x'.node := by
  cases hx with
  | atom hn => exact hn
  | scripted hn hscripts => exact h.scriptNode hn hscripts

theorem siblingNodes (h : Fitting node) (hd : SiblingsFit node done done') :
    List.Forall₂ node (done.map Sibling.node) (done'.map Sibling.node) := by
  rw [List.forall₂_map_left_iff, List.forall₂_map_right_iff]
  exact hd.imp fun _ _ => h.siblingNode

theorem runLength? (h : Fitting node) (hd : SiblingsFit node done done') (depth : Nat) :
    Parser.runLength? depth done' = Parser.runLength? depth done := by
  induction hd generalizing depth with
  | nil => rfl
  | cons hx _ ih =>
    have hparen := h.isParen (h.siblingNode hx)
    simp only [Parser.runLength?, hparen "(" (by decide), hparen ")" (by decide), ih]

theorem foldParens (h : Fitting node) (hd : SiblingsFit node done done') :
    SiblingsFit node (Parser.foldParens done) (Parser.foldParens done') := by
  have hall := hd
  cases hd with
  | nil => exact .nil
  | cons hx hd =>
    unfold Parser.foldParens
    dsimp only
    rw [h.isParen (h.siblingNode hx) _ (by decide), h.runLength? hall]
    split
    · split
      · next k _ =>
        have htaken := (List.forall₂_take k hall)
        have hnodes := List.forall₂_reverse_iff.mpr (h.siblingNodes htaken)
        exact .cons (.atom (h.row hnodes)) (List.forall₂_drop k hall)
      · exact hall
    · exact hall

/-- A script is bound to fitting siblings, or to neither. -/
theorem bindScript? (h : Fitting node) (script : Script) (hn : node n n')
    (hd : SiblingsFit node done done') :
    Option.Rel (SiblingsFit node) (Parser.bindScript? script n done)
      (Parser.bindScript? script n' done') := by
  cases hd with
  | nil => exact .none
  | cons hx hd =>
    cases hx with
    | atom hm =>
      have hfold := h.foldParens (.cons (.atom hm) hd)
      unfold Parser.bindScript?
      dsimp only
      generalize Parser.foldParens (.atom _ :: _) = folded at hfold ⊢
      generalize Parser.foldParens (.atom _ :: _) = folded' at hfold ⊢
      cases hfold with
      | nil => exact .none
      | cons hbase hearlier =>
        exact .some (.cons (.scripted (h.slot (h.siblingNode hbase)) (single script hn)) hearlier)
    | scripted hm hscripts =>
      have hall := add? hscripts script hn
      unfold Parser.bindScript?
      dsimp only
      generalize Scripts.add? _ script n = all at hall ⊢
      generalize Scripts.add? _ script n' = all' at hall ⊢
      cases hall with
      | none => exact .none
      | some hall => exact .some (.cons (.scripted hm hall) hd)

theorem placeLimits (h : Fitting node) (movable : Bool) (hd : SiblingsFit node done done') :
    SiblingsFit node (Parser.placeLimits movable done) (Parser.placeLimits movable done') := by
  cases hd with
  | nil => exact .nil
  | cons hx hd =>
    cases hx with
    | atom hn =>
      unfold Parser.placeLimits
      dsimp only
      rw [h.hasName hn]
      split
      · exact .cons (.atom (h.setLimits hn _)) hd
      · exact .cons (.atom hn) hd
    | scripted hn hscripts => exact .cons (.scripted hn hscripts) hd

theorem collapseSiblings (h : Fitting node) (hd : SiblingsFit node done done') :
    node (Parser.collapseSiblings done) (Parser.collapseSiblings done') :=
  h.collapse (List.forall₂_reverse_iff.mpr (h.siblingNodes hd))

/-! ## Tables -/

variable {rows rows' : List (List Node)}

theorem dropEmptyRow (h : Fitting node) (hr : List.Forall₂ (List.Forall₂ node) rows rows') :
    List.Forall₂ (List.Forall₂ node) (Parser.dropEmptyRow rows) (Parser.dropEmptyRow rows') := by
  have hreverse := List.forall₂_reverse_iff.mpr hr
  unfold Parser.dropEmptyRow
  generalize rows.reverse = later at hreverse ⊢
  generalize rows'.reverse = later' at hreverse ⊢
  -- The last row is dropped only if it is a single cell and there is a row before it.
  cases hreverse with
  | nil => exact hr
  | cons hlast hmore =>
    cases hlast with
    | nil => exact hr
    | cons hcell hcells =>
      cases hcells with
      | cons => exact hr
      | nil =>
        cases hmore with
        | nil => exact hr
        | cons hrow hearlier =>
          dsimp only
          rw [h.isEmpty hcell]
          split
          · exact List.forall₂_reverse_iff.mpr (.cons hrow hearlier)
          · exact hr

theorem tableNode (h : Fitting node) (hr : List.Forall₂ (List.Forall₂ node) rows rows')
    (columnAlign : Text) :
    node (Parser.tableNode rows columnAlign) (Parser.tableNode rows' columnAlign) := by
  refine h.element "mtable" ?_ ?_
  · split <;> rfl
  · rw [List.forall₂_map_left_iff, List.forall₂_map_right_iff]
    refine hr.imp fun cells cells' hcells => h.element "mtr" unplaced_nil ?_
    rw [List.forall₂_map_left_iff, List.forall₂_map_right_iff]
    exact hcells.imp fun cell cell' hcell => h.elementOne "mtd" unplaced_nil hcell

theorem flowNode (h : Fitting node) (name : Text) (e : Environment) (hn : node n n') :
    node (Parser.flowNode name e n) (Parser.flowNode name e n') := by
  unfold Parser.flowNode
  cases e.kind <;> exact h.elementOne _ rfl hn

/-- Of the argument only the columns that it lists count. -/
theorem gridNode (h : Fitting node) (e : Environment) {argument argument' : Text}
    (ha : Environment.columnAlignment argument' = Environment.columnAlignment argument)
    (hr : List.Forall₂ (List.Forall₂ node) rows rows') :
    node (Parser.gridNode e argument rows) (Parser.gridNode e argument' rows') := by
  have hrows := h.dropEmptyRow hr
  unfold Parser.gridNode
  rw [ha]
  cases e.kind with
  | fencedTable => exact h.elementOne "mfenced" rfl (h.tableNode hrows _)
  | _ => exact h.tableNode hrows _

/-! ## Delimiters and roots -/

theorem fences (h : Fitting node) (d : Option Text) :
    List.Forall₂ node (d.map fenceNode).toList (d.map fenceNode).toList := by
  cases d with
  | none => exact .nil
  | some d => exact .cons (h.operator d rfl) .nil

theorem pairNode (h : Fitting node) (opening closing : Option Text) (hn : node n n') :
    node (Parser.pairNode opening n closing) (Parser.pairNode opening n' closing) := by
  unfold Parser.pairNode
  have hcontent : List.Forall₂ node (if n.isEmpty then [] else [n])
      (if n'.isEmpty then [] else [n']) := by
    rw [h.isEmpty hn]
    split
    · exact .nil
    · exact .cons hn .nil
  exact h.collapse (List.rel_append (List.rel_append (h.fences opening) hcontent)
    (h.fences closing))

theorem rootNode (h : Fitting node) {degree degree' : Option Node}
    (hd : Option.Rel node degree degree') (hn : node n n') :
    node (Reading.rootNode degree n) (Reading.rootNode degree' n') := by
  cases hd with
  | none => exact h.elementOne "msqrt" rfl hn
  | some hm => exact h.elementTwo "mroot" rfl hn (h.slot hm)

theorem symbolNode (h : Fitting node) (g : Grammar) (value : Text) :
    node (Parser.symbolNode g value) (Parser.symbolNode g value) := by
  unfold Parser.symbolNode
  split
  · exact h.operator _ rfl
  · split
    · exact h.leaf "mi" value rfl
    · exact h.leaf "mtext" value rfl

end Fitting

/-! ## Setups and readings -/

/-- Two setups under which the runs that are compared go alike. They may differ in tracing, in the
text that raw groups stand for, in the source around what is read, and in what is refused as long as
that is excused. -/
structure Relates (P : Pairing) (s s' : Setup) : Prop where
  closed : P.Closed
  fitting : Fitting P.node
  grammar : s'.grammar = s.grammar
  /-- The source texts of a group fit. -/
  raw : ∀ {opening closing rest n}, opening :: rest <:+ P.tokens → opening.isOpenBrace = true →
    closingBrace? 0 rest = some (closing, n) →
      P.raw (s.source.between (opening.offset + 1) closing.offset)
        (s'.source.between ((P.move opening).offset + 1) (P.move closing).offset)
  /-- Where a command makes something of raw texts, those that fit are equal. -/
  commandText : ∀ {t raw raw'}, t ∈ P.tokens → readsRaw s.grammar t = true → P.raw raw raw' →
    raw' = raw
  /-- Raw texts that fit list the same columns. -/
  columns : ∀ {raw raw'}, P.raw raw raw' →
    Environment.columnAlignment raw' = Environment.columnAlignment raw
  unknownCommand : ∀ {t}, t ∈ P.tokens → t.kind = .command →
    s.grammar.commands.get? t.value = none → rejectsUnknown s' = rejectsUnknown s ∨
      rejectsUnknown s = true ∧ P.left (.located (.unknownCommand t.value) t)
  unknownEnvironment : ∀ {name t group rest}, t :: (group ++ rest) <:+ P.tokens →
    t.isCommand "\\begin" = true → NameGroup group name →
    s.grammar.environments.get? name = none →
      s'.options.strictMode.isTruthy = s.options.strictMode.isTruthy ∨
        s.options.strictMode.isTruthy = true ∧ P.left (.named (.unknownEnvironment name) name t)
  textNode : ∀ variant raw, P.node (textNode variant (textOfRaw s raw))
    (textNode variant (textOfRaw s' raw))
  placedNode : ∀ {t n n'}, t ∈ P.tokens → P.node n n' →
    P.node (placedNode s t n) (placedNode s' (P.move t) n')

/-- Readings of one kind that make fitting nodes. -/
inductive ReadingFits (P : Pairing) : Reading → Reading → Prop where
  | nothing {n n' : Node} : P.node n n' → ReadingFits P (.nothing n) (.nothing n')
  | raw {build build' : Text → Node} :
    (∀ {raw raw'}, P.raw raw raw' → P.node (build raw) (build' raw')) →
      ReadingFits P (.raw build) (.raw build')
  | one {build build' : Node → Node} : (∀ {n n'}, P.node n n' → P.node (build n) (build' n')) →
    ReadingFits P (.one build) (.one build')
  | two {build build' : Node → Node → Node} :
    (∀ {n n' m m'}, P.node n n' → P.node m m' → P.node (build n m) (build' n' m')) →
      ReadingFits P (.two build) (.two build')
  | delimiter {build build' : Option Text → Node} : (∀ d, P.node (build d) (build' d)) →
    ReadingFits P (.delimiter build) (.delimiter build')
  | squareRoot : ReadingFits P .squareRoot .squareRoot
  | root : ReadingFits P .root .root
  | leftRight : ReadingFits P .leftRight .leftRight
  | refused {e e' : ParseError} : P.Matches e e' → ReadingFits P (.refused e) (.refused e')

theorem Fitting.fractionNode (h : Fitting node) (displayStyle : Option Bool) (hn : node n n')
    (hm : node m m') :
    node (Parser.fractionNode displayStyle n m) (Parser.fractionNode displayStyle n' m') := by
  have hfraction := h.elementTwo "mfrac" unplaced_nil hn hm
  cases displayStyle with
  | none => exact hfraction
  | some b => exact h.elementOne "mstyle" rfl hfraction

/-- The readings of a command fit under setups that go alike. -/
theorem Relates.reading {P : Pairing} {s s' : Setup} (h : Relates P s s') {t : Token}
    (ht : t ∈ P.tokens) (hcommand : t.kind = .command) {m : Command}
    (hm : s.grammar.commands.get? t.value = some m) :
    ReadingFits P (reading s t m) (Parser.reading s' (P.move t) m) := by
  have hfit := h.fitting
  have hopen : P.node (.operator "(" []) (.operator "(" []) := hfit.operator "(" rfl
  have hclose : P.node (.operator ")" []) (.operator ")" []) := hfit.operator ")" rfl
  have haccent : ∀ mark, P.node (accentNode t mark) (accentNode (P.move t) mark) := fun mark =>
    hfit.operator mark rfl
  have hraw : (∃ build, Parser.reading s t m = .raw build) →
      ∀ {build build' : Text → Node}, (∀ raw, P.node (build raw) (build' raw)) →
        ReadingFits P (.raw build) (.raw build') := fun hreads build build' hbuild =>
    .raw fun {raw raw'} hfits => by
      rw [h.commandText ht ((readsRaw_of_reading hcommand hm).mpr hreads) hfits]
      exact hbuild raw
  cases m with
  | identifier value | function value => exact .nothing (hfit.leaf "mi" value rfl)
  | operator value | fence value | largeOperator value | integral value | limitFunction value =>
    exact .nothing (hfit.operator value rfl)
  | space width | lineBreak => exact .nothing (hfit.empty "mspace" rfl)
  | sizedSpace => exact hraw ⟨_, rfl⟩ fun width => hfit.empty "mspace" rfl
  | fraction displayStyle => exact .two fun hn hm => hfit.fractionNode displayStyle hn hm
  | binomial =>
    exact .two fun hn hm =>
      hfit.row (.cons hopen (.cons (hfit.elementTwo "mfrac" rfl hn hm) (.cons hclose .nil)))
  | squareRoot => exact .squareRoot
  | root => exact .root
  | style variant => exact .one fun hn => hfit.elementOne "mstyle" rfl hn
  | text variant => exact hraw ⟨_, rfl⟩ fun raw => h.textNode variant raw
  | operatorName => exact hraw ⟨_, rfl⟩ fun name => hfit.leaf "mi" _ rfl
  | accent mark => exact .one fun hn => hfit.elementTwo "mover" rfl hn (haccent mark)
  | underAccent mark => exact .one fun hn => hfit.elementTwo "munder" rfl hn (haccent mark)
  | overset => exact .two fun hn hm => hfit.elementTwo "mover" rfl hm hn
  | underset => exact .two fun hn hm => hfit.elementTwo "munder" rfl hm hn
  | enclose shape => exact .one fun hn => hfit.elementOne "menclose" rfl hn
  | phantom => exact .one fun hn => hfit.elementOne "mphantom" rfl hn
  | modulus =>
    exact .one fun hn => hfit.row (.cons hopen (.cons (hfit.operator "mod" rfl)
      (.cons hn (.cons hclose .nil))))
  | left => exact .leftRight
  | middle | sized size => exact .delimiter fun d => hfit.operator _ rfl
  | limits movable =>
    exact .refused (.move (fun t => .located (.misplacedLimits t.value) t) t rfl rfl)
  | beginEnvironment | closer =>
    exact .refused (.move (fun t => .located (.unexpectedValue t.value) t) t rfl rfl)

end MathMarkup.Parser
