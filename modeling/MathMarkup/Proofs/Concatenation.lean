import MathMarkup.Proofs.Command
import MathMarkup.Proofs.Parser.Continuing
import MathMarkup.Proofs.Token

/-!
# Sources one after the other

Tokens that parse on their own also parse behind other such tokens. With the default symbols the
siblings are then those of the first tokens followed by those of the others, unless something of the
others reaches back: a command on the placement of limits at their start, or a script on a run in
parentheses that the first ones open.
-/

namespace MathMarkup

/-! ## What the default symbols show -/

/-- Only a parenthesis is shown as a parenthesis. -/
structure Grammar.Parenless (g : Grammar) : Prop where
  payload : ∀ {name c}, g.commands.get? name = some c → c.payload ≠ Text.ofString "("
  operator : ∀ {value}, g.operators.get? value = some (Text.ofString "(") →
    value = Text.ofString "("

/-- Of the default symbols only a plain parenthesis stands for itself. -/
theorem Symbol.Table.parenless_default (category : Category) :
    ∀ e ∈ Table.default.mapping category, e.2 = Text.ofString "(" →
      category = .symbolOperators ∧ e.1 = Text.ofString "(" := by
  have htexts : ∀ entries : List (String × String), (∀ x ∈ entries, x.2 = "(" →
      category = .symbolOperators ∧ x.1 = "(") → ∀ e ∈ Category.texts entries,
        e.2 = Text.ofString "(" → category = .symbolOperators ∧ e.1 = Text.ofString "(" := by
    intro entries h e he hvalue
    obtain ⟨x, hx, rfl⟩ := List.mem_map.mp he
    obtain ⟨hcategory, hname⟩ := h x hx (Text.ofString_inj.mp hvalue)
    exact ⟨hcategory, congrArg Text.ofString hname⟩
  cases category <;> exact htexts _ (by decide +kernel)

theorem Command.payload_structural : ∀ e ∈ structural, e.2.payload ≠ Text.ofString "(" := by
  decide

theorem Grammar.operators_ofSymbols (symbols : Symbol.Table) :
    (ofSymbols symbols).value.operators = symbols.mapping .symbolOperators := rfl

theorem Grammar.parenless_default : (ofSymbols .default).value.Parenless where
  payload {name c} h := by
    rw [commands_ofSymbols] at h
    rcases Command.exists_of_get?_table h with ht | ⟨category, value, hm, hsymbol⟩
    · exact Command.payload_structural _ (Assoc.mem_of_get? ht)
    · rw [Command.payload_ofSymbol? hsymbol]
      exact fun hvalue => Command.ofSymbol?_isSome_iff.mp (Option.isSome_of_eq_some hsymbol)
        (Symbol.Table.parenless_default category _ hm hvalue).1
  operator {value} h := by
    rw [operators_ofSymbols] at h
    exact (Symbol.Table.parenless_default _ _ (Assoc.mem_of_get? h) rfl).2

namespace Parser

/-! ## Nodes that open no parenthesis -/

variable {s : Setup} {n : Node} {done : List Sibling}

theorem notOpening_text (content : Text) : NotOpening (.text content) := rfl

theorem notOpening_element {name : Text} (hname : name ≠ Text.ofString "mo")
    (attributes : Assoc Text Text) (children : List Node) :
    NotOpening (.element name attributes children) := by
  simp [NotOpening, isParen, Node.hasName, hname]

theorem notOpening_operator {value : Text} (hvalue : value ≠ Text.ofString "(")
    (attributes : Assoc Text Text) : NotOpening (.operator value attributes) := by
  simp [NotOpening, isParen, Node.operator, Node.leaf, Node.innerText, Node.innerTexts, hvalue]

theorem notOpening_setAttribute (key value : Text) (h : NotOpening n) :
    NotOpening (n.setAttribute key value) := by
  cases n <;> exact h

theorem notOpening_addAttribute (key value : Text) (h : NotOpening n) :
    NotOpening (n.addAttribute key value) := by
  cases n <;> exact h

theorem notOpening_collapse {children : List Node} (h : ∀ c ∈ children, NotOpening c) :
    NotOpening (.collapse children) := by
  match children with
  | [] => exact notOpening_text []
  | [child] => exact h child List.mem_cons_self
  | _ :: _ :: _ => exact notOpening_element (by decide) _ _

theorem notOpening_scriptNode (base : Node) (scripts : Scripts) :
    NotOpening (scriptNode base scripts) := by
  unfold scriptNode
  cases scripts <;> refine notOpening_element ?_ _ _ <;> split <;> decide

theorem notOpening_collapseSiblings (h : NoneOpening done) :
    NotOpening (collapseSiblings done) := by
  refine notOpening_collapse fun c hc => ?_
  obtain ⟨x, hx, rfl⟩ := List.mem_map.mp (List.mem_reverse.mp hc)
  exact h x hx

theorem notOpening_placedNode (t : Token) (h : NotOpening n) : NotOpening (placedNode s t n) := by
  unfold placedNode
  split
  · exact notOpening_addAttribute _ _ h
  · exact h

/-- The shown text of a delimiter is no opening parenthesis. -/
def Unopened (d : Option Text) : Prop :=
  d ≠ some (Text.ofString "(")

theorem notOpening_pairNode {opening closing : Option Text} (ho : Unopened opening)
    (hn : NotOpening n) (hc : Unopened closing) : NotOpening (pairNode opening n closing) := by
  have hfence : ∀ {d : Option Text}, Unopened d → ∀ m ∈ (d.map fenceNode).toList, NotOpening m := by
    rintro (_ | v) hd m hm
    · cases hm
    · rw [List.mem_singleton.mp hm]
      exact notOpening_operator (fun h => hd (congrArg some h)) _
  refine notOpening_collapse fun m hm => ?_
  rcases List.mem_append.mp hm with hm | hm
  · rcases List.mem_append.mp hm with hm | hm
    · exact hfence ho m hm
    · split at hm
      · cases hm
      · rw [List.mem_singleton.mp hm]
        exact hn
  · exact hfence hc m hm

/-! ## Siblings that open no parenthesis -/

theorem noneOpening_foldParens (h : NoneOpening done) : NoneOpening (foldParens done) := by
  unfold foldParens
  split
  · exact h
  · split
    · split
      · intro x hx
        rcases List.mem_cons.mp hx with rfl | hx
        · exact notOpening_element (by decide) _ _
        · exact h x (List.mem_of_mem_drop hx)
      · exact h
    · exact h

theorem noneOpening_bindScript? {script : Script} {bound : List Sibling} (h : NoneOpening done)
    (hbound : bindScript? script n done = some bound) : NoneOpening bound := by
  unfold bindScript? at hbound
  split at hbound
  · obtain ⟨all, -, rfl⟩ := Option.map_eq_some_iff.mp hbound
    exact List.forall_mem_cons.mpr
      ⟨notOpening_scriptNode _ all, (List.forall_mem_cons.mp h).2⟩
  · split at hbound
    · next hfold =>
      cases hbound
      have hearlier := noneOpening_foldParens h
      rw [hfold] at hearlier
      exact List.forall_mem_cons.mpr
        ⟨notOpening_scriptNode _ _, (List.forall_mem_cons.mp hearlier).2⟩
    · cases hbound

theorem noneOpening_placeLimits (movable : Bool) (h : NoneOpening done) :
    NoneOpening (placeLimits movable done) := by
  unfold placeLimits
  split
  · obtain ⟨hlatest, hearlier⟩ := List.forall_mem_cons.mp h
    split
    · exact List.forall_mem_cons.mpr ⟨notOpening_setAttribute _ _ hlatest, hearlier⟩
    · exact h
  · exact h

/-! ## Tokens without parentheses -/

/-- No symbol among the tokens, and no bracket, is an opening parenthesis. -/
def Parenless (w : List Token) : Prop :=
  ∀ t ∈ w, t.kind = .symbol ∨ t.kind = .bracket → t.value ≠ Text.ofString "("

theorem unopened_delimiter? {g : Grammar} (hg : g.Parenless) {t : Token} {d : Option Text}
    (ht : t.kind = .symbol ∨ t.kind = .bracket → t.value ≠ Text.ofString "(")
    (hd : delimiter? g t = some d) : Unopened d := by
  unfold delimiter? at hd
  split at hd
  · next hk =>
    split_ifs at hd <;> cases hd
    · exact nofun
    · exact (by decide : some (Text.ofString "⟨") ≠ some (Text.ofString "("))
    · exact (by decide : some (Text.ofString "⟩") ≠ some (Text.ofString "("))
    · exact fun h => ht (Or.inl hk) (Option.some.inj h)
  · next hk =>
    cases hd
    exact fun h => ht (Or.inr hk) (Option.some.inj h)
  · split at hd
    · next value hget =>
      cases hd
      exact fun h => hg.payload hget (Option.some.inj h)
    · cases hd
  · cases hd

theorem notOpening_symbolNode {g : Grammar} (hg : g.Parenless) {value : Text}
    (hvalue : value ≠ Text.ofString "(") : NotOpening (symbolNode g value) := by
  unfold symbolNode
  split
  · next shown hget =>
    refine notOpening_operator ?_ _
    rintro rfl
    exact hvalue (hg.operator hget)
  · split <;> exact notOpening_element (by decide) _ _

/-- The nodes that a reading makes are no opening parentheses. -/
def Reading.OpensNothing : Reading → Prop
  | .nothing n => NotOpening n
  | .raw build => ∀ raw, NotOpening (build raw)
  | .one build => ∀ n, NotOpening (build n)
  | .two build => ∀ n m, NotOpening (build n m)
  | .delimiter build => ∀ d, Unopened d → NotOpening (build d)
  | .squareRoot | .root | .leftRight | .refused _ => True

theorem opensNothing_reading (t : Token) {c : Command} (hc : c.payload ≠ Text.ofString "(") :
    (reading s t c).OpensNothing := by
  have hdelimiter : ∀ (attributes : Assoc Text Text) (d : Option Text), Unopened d →
      NotOpening (.operator (d.getD []) attributes) := by
    rintro attributes (_ | v) hd
    · exact notOpening_operator (by decide) _
    · exact notOpening_operator (fun h => hd (congrArg some h)) _
  cases c with
  | operator | fence | largeOperator | integral | limitFunction =>
    exact notOpening_operator hc _
  | fraction displayStyle =>
    intro n m
    cases displayStyle <;> exact notOpening_element (by decide) _ _
  | middle | sized => exact hdelimiter _
  | squareRoot | root | left | limits | beginEnvironment | closer => trivial
  | identifier | function | space | lineBreak => exact notOpening_element (by decide) _ _
  | text | sizedSpace | operatorName => exact fun _ => notOpening_element (by decide) _ _
  | style | accent | underAccent | enclose | phantom | modulus =>
    exact fun _ => notOpening_element (by decide) _ _
  | binomial | overset | underset => exact fun _ _ => notOpening_element (by decide) _ _

/-- What is read opens no parenthesis. -/
def Form.OpensNothing : Form → Prop
  | .siblings done => NoneOpening done
  | .group n | .brackets n | .atom n | .placed n | .body _ _ _ n => NotOpening n
  | .optional _ | .rows _ _ | .script _ => True

/-- Where no parenthesis is among the tokens none is among the nodes. -/
theorem Derives.opensNothing (hg : s.grammar.Parenless) {w : List Token} {form : Form}
    (h : Derives s w form) (hw : Parenless w) : form.OpensNothing := by
  have opens : ∀ {t : Token} {c : Command} {r : Reading},
      s.grammar.commands.get? t.value = some c → reading s t c = r → r.OpensNothing :=
    fun hget hr => hr ▸ opensNothing_reading _ (hg.payload hget)
  induction h with
  | nothing => exact nofun
  | next _ _ ihu ihw =>
    obtain ⟨hu, hw⟩ := List.forall_mem_append.mp hw
    exact List.forall_mem_cons.mpr ⟨ihw hw, ihu hu⟩
  | script _ _ _ hbind ihu _ =>
    exact noneOpening_bindScript? (ihu (List.forall_mem_append.mp hw).1) hbind
  | limits _ _ ih => exact noneOpening_placeLimits _ (ih (List.forall_mem_append.mp hw).1)
  | group _ _ _ ih | brackets _ _ _ ih =>
    exact notOpening_collapseSiblings
      (ih (List.forall_mem_append.mp (List.forall_mem_cons.mp hw).2).1)
  | absent | present | firstCell | nextCell | nextRow | group_script | atom_script => trivial
  | @symbol t hk =>
    exact notOpening_symbolNode hg ((List.forall_mem_cons.mp hw).1 (Or.inl hk))
  | number | text | bracketed | unknown | root => exact notOpening_element (by decide) _ _
  | braced _ ih => exact ih hw
  | plain _ hget hr => exact opens hget hr
  | raw _ hget hr _ => exact opens hget hr _
  | one _ hget hr _ _ => exact opens hget hr _
  | two _ hget hr _ _ _ _ => exact opens hget hr _ _
  | delimiter _ hget hr hd =>
    obtain ⟨-, hw⟩ := List.forall_mem_cons.mp hw
    exact opens hget hr _ (unopened_delimiter? hg (List.forall_mem_cons.mp hw).1 hd)
  | @squareRoot _ _ _ _ degree _ _ _ _ _ _ _ _ =>
    cases degree <;> exact notOpening_element (by decide) _ _
  | leftRight _ _ _ hd _ _ hd' ih =>
    obtain ⟨-, hw⟩ := List.forall_mem_cons.mp hw
    obtain ⟨hopening, hw⟩ := List.forall_mem_cons.mp hw
    obtain ⟨hw, hright⟩ := List.forall_mem_append.mp hw
    obtain ⟨hclosing, -⟩ := List.forall_mem_cons.mp (List.forall_mem_cons.mp hright).2
    exact notOpening_pairNode (unopened_delimiter? hg hopening hd)
      (notOpening_collapseSiblings (ih hw)) (unopened_delimiter? hg hclosing hd')
  | @flow _ _ _ e _ _ _ _ =>
    simp only [Form.OpensNothing, flowNode]
    split <;> exact notOpening_element (by decide) _ _
  | @grid _ _ _ e _ _ _ _ _ =>
    simp only [Form.OpensNothing, gridNode]
    split <;> exact notOpening_element (by decide) _ _
  | environment _ _ _ _ _ _ ih =>
    obtain ⟨-, hw⟩ := List.forall_mem_append.mp (List.forall_mem_cons.mp hw).2
    obtain ⟨-, hw⟩ := List.forall_mem_append.mp hw
    exact ih (List.forall_mem_append.mp hw).1
  | placed _ ih => exact notOpening_placedNode _ (ih hw)

/-! ## Siblings of tokens -/

/-- The siblings that the tokens are read as, latest first. -/
def readDone (s : Setup) (tokens : List Token) : Except ParseError (List Sibling) :=
  match (siblings s (inside s (allowance s { rest := tokens })) noStop tokens.length []).run
      { rest := tokens } with
  | .ok done _ => .ok done
  | .error e _ => .error e

/-- The nodes that the tokens are read as, in order, before they are made one. -/
def readSiblings (s : Setup) (tokens : List Token) : Except ParseError (List Node) :=
  (readDone s tokens).map fun done => (done.map Sibling.node).reverse

variable {tokens u v : List Token} {all : List Sibling}

/-- What tokens are read as is made of their siblings. -/
theorem readTokens_eq_map_collapse (s : Setup) (tokens : List Token) :
    readTokens s tokens = (readSiblings s tokens).map Node.collapse := by
  unfold readTokens readSiblings readDone
  rw [run_expression, EStateM.run_bind]
  dsimp only
  cases (siblings s (inside s (allowance s { rest := tokens })) noStop tokens.length []).run
    { rest := tokens } <;> rfl

theorem parsesAlone_iff : ParsesAlone s tokens ↔ ∃ all, readDone s tokens = .ok all := by
  unfold ParsesAlone
  rw [readTokens_eq_map_collapse]
  unfold readSiblings
  cases readDone s tokens with
  | ok all => exact ⟨fun _ => ⟨all, rfl⟩, fun _ => ⟨_, rfl⟩⟩
  | error e => exact ⟨nofun, nofun⟩

theorem run_of_readDone (h : readDone s tokens = .ok all) :
    ∃ d, (siblings s (inside s (allowance s { rest := tokens })) noStop tokens.length []).run
      { rest := tokens } = .ok all d := by
  unfold readDone at h
  split at h
  · next d hrun =>
    cases h
    exact ⟨d, hrun⟩
  · cases h

theorem derives_of_readDone (h : readDone s tokens = .ok all) :
    Derives s tokens (.siblings all) := by
  obtain ⟨d, hrun⟩ := run_of_readDone h
  have hgives := gives_siblings (follows_inside s (allowance s { rest := tokens })) noStop
    (Nat.le_refl _) (.refl { rest := tokens }) .nothing
  obtain ⟨w, hw, hd, hat⟩ := outcome_ok hgives hrun
  have hsplit := hw.rest
  rw [hat.rest_eq_nil, List.append_nil] at hsplit
  have htokens : tokens = w := hsplit
  rwa [htokens]

/-- How many scopes so many tokens may open. -/
def roomFor (options : Options) (count : Nat) : Nat :=
  match options.maxNestingDepth.number.ceiling? with
  | some limit => limit
  | none => count

/-- More tokens have room for at least as many scopes. -/
theorem roomFor_mono (options : Options) {i j : Nat} (h : i ≤ j) :
    roomFor options i ≤ roomFor options j := by
  unfold roomFor
  split
  · exact Nat.le_refl _
  · exact h

theorem allowance_eq_roomFor (s : Setup) (w : List Token) :
    allowance s { rest := w } = roomFor s.options w.length := rfl

theorem allowance_mono (s : Setup) {u v : List Token} (h : u.length ≤ v.length) :
    allowance s { rest := u } ≤ allowance s { rest := v } :=
  roomFor_mono s.options h

/-- Tokens that parse on their own give their siblings one after the other. -/
theorem readDone_append {base : List Sibling} (hu : readDone s u = .ok base)
    (hv : readDone s v = .ok all) :
    ∃ all', readDone s (u ++ v) = .ok all' ∧
      (NoneOpening base → (∀ t ∈ v.head?, limits? s.grammar t = none) → all' = all ++ base) := by
  obtain ⟨d, hu⟩ := run_of_readDone hu
  obtain ⟨d', hv⟩ := run_of_readDone hv
  have hv' : ∀ base c rounds, c.rest = v → v.length ≤ rounds →
      Outcome (siblings s (inside s (allowance s { rest := u ++ v })) noStop rounds base) c
        (fun all' _ => NoneOpening base → (∀ t ∈ v.head?, limits? s.grammar t = none) →
          all' = all ++ base) fun _ _ => False := fun base c rounds hc hrounds =>
    outcome_continued (allowance_mono s (List.sublist_append_right u v).length_le) hv hc hrounds
  have hout := outcome_siblings_append
    (allowance_mono s (List.sublist_append_left u v).length_le) hu hv'
  obtain ⟨all', c, hrun, hall⟩ := hout.exists_eq_ok
  refine ⟨all', ?_, hall⟩
  unfold readDone
  rw [hrun]

theorem parenless_of_tokenize {source : Text} (h : ∀ t ∈ u, t ∈ Token.tokenize source)
    (hparen : ∀ t ∈ u, t.isSymbol "(" = false) : Parenless u := by
  intro t ht hkind hvalue
  rcases hkind with hkind | hkind
  · have hsymbol : t.isSymbol "(" = true := Token.is_iff.mpr ⟨hkind, hvalue⟩
    rw [hparen t ht] at hsymbol
    cases hsymbol
  · rcases Token.isBracket_of_mem_tokenize (h t ht) hkind with hbracket | hbracket <;>
    · have hother := (Token.is_iff.mp hbracket).2
      rw [hvalue] at hother
      exact absurd hother (by decide)

/-- Tokens that parse on their own parse behind others that do. With the default symbols the nodes
are those of the first tokens and then those of the others, if the first tokens, which are some of
the source, have no opening parenthesis and the others do not begin with a command on the placement
of limits. -/
theorem readSiblings_append (hu : ParsesAlone s u) (hv : ParsesAlone s v) :
    ParsesAlone s (u ++ v) ∧
      (s.grammar = (Grammar.ofSymbols .default).value →
        (∀ t ∈ u, t ∈ Token.tokenize s.source) → (∀ t ∈ u, t.isSymbol "(" = false) →
        (∀ t ∈ v.head?, isLimits t = false) →
          ∃ first second, readSiblings s u = .ok first ∧ readSiblings s v = .ok second ∧
            readSiblings s (u ++ v) = .ok (first ++ second)) := by
  obtain ⟨base, hbase⟩ := parsesAlone_iff.mp hu
  obtain ⟨all, hall⟩ := parsesAlone_iff.mp hv
  obtain ⟨all', hall', happend⟩ := readDone_append hbase hall
  refine ⟨parsesAlone_iff.mpr ⟨all', hall'⟩, fun hgrammar hsource hparen hlimits => ?_⟩
  have hnone : NoneOpening base := (derives_of_readDone hbase).opensNothing
    (hgrammar ▸ Grammar.parenless_default) (parenless_of_tokenize hsource hparen)
  have hplain : ∀ t ∈ v.head?, limits? s.grammar t = none := by
    intro t ht
    have hregular : s.grammar.Regular := hgrammar ▸ Grammar.regular_ofSymbols .default
    cases hplaces : limits? s.grammar t with
    | none => rfl
    | some movable => exact absurd (isLimits_of_limits? hregular hplaces) (by simp [hlimits t ht])
  obtain rfl := happend hnone hplain
  refine ⟨(base.map Sibling.node).reverse, (all.map Sibling.node).reverse, ?_, ?_, ?_⟩
  · rw [readSiblings, hbase]
    rfl
  · rw [readSiblings, hall]
    rfl
  · rw [readSiblings, hall']
    simp [Except.map]

/-- A parenthesis that the others close is none that the first tokens open. -/
theorem readSiblings_append_closing :
    ParsesAlone ⟨(Grammar.ofSymbols .default).value, {}, "x_1)^2"⟩
      ((Token.tokenize "x_1)^2").take 3) ∧
    ParsesAlone ⟨(Grammar.ofSymbols .default).value, {}, "x_1)^2"⟩
      ((Token.tokenize "x_1)^2").drop 3) ∧
    readSiblings ⟨(Grammar.ofSymbols .default).value, {}, "x_1)^2"⟩ (Token.tokenize "x_1)^2") =
      .ok [.element "msub" [] [.identifier "x", .number "1"],
        .element "msup" [] [.operator ")" [], .number "2"]] := by
  have hfirst : readSiblings ⟨(Grammar.ofSymbols .default).value, {}, "x_1)^2"⟩
      ((Token.tokenize "x_1)^2").take 3) =
      .ok [.element "msub" [] [.identifier "x", .number "1"]] := by
    decide +kernel
  have hsecond : readSiblings ⟨(Grammar.ofSymbols .default).value, {}, "x_1)^2"⟩
      ((Token.tokenize "x_1)^2").drop 3) =
      .ok [.element "msup" [] [.operator ")" [], .number "2"]] := by
    decide +kernel
  have hu : ParsesAlone ⟨(Grammar.ofSymbols .default).value, {}, "x_1)^2"⟩
      ((Token.tokenize "x_1)^2").take 3) :=
    ⟨_, by rw [readTokens_eq_map_collapse, hfirst]; rfl⟩
  have hv : ParsesAlone ⟨(Grammar.ofSymbols .default).value, {}, "x_1)^2"⟩
      ((Token.tokenize "x_1)^2").drop 3) :=
    ⟨_, by rw [readTokens_eq_map_collapse, hsecond]; rfl⟩
  obtain ⟨first, second, h1, h2, h3⟩ := (readSiblings_append hu hv).2 rfl
    (fun t ht => List.mem_of_mem_take ht) (by decide) (by decide)
  rw [hfirst] at h1
  rw [hsecond] at h2
  cases h1
  cases h2
  rw [List.take_append_drop] at h3
  exact ⟨hu, hv, h3⟩

end Parser

end MathMarkup
