import MathMarkup.Proofs.Height
import MathMarkup.Proofs.Location
import MathMarkup.Proofs.Parser.Outline
import MathMarkup.Proofs.Token
import MathMarkup.Proofs.Tree

/-!
# Every leaf is kept once

Children are rearranged while a formula is read: a script is bound to a base that was finished
before, a run in parentheses is folded into a row, the arguments of a root change places, an empty
content and an empty last row are dropped. None of this loses a number or a command that is not
known, and none doubles one.

The leaves of a kind are counted, in a tree (`Node.tally`) and among the tokens (`worth`). Each rule
of the grammar keeps the count (`Derives.tally`), whichever leaves are counted. Trees and tokens
agree on all such counts, so that they have the same leaves (`parse_leaves`).

What is read and not shown has to be left out (`AllShown`): raw groups, the arguments of
environments, `\of`, and the brackets behind the end of a row.
-/

namespace MathMarkup

namespace Node

/-! ## Counts of elements -/

/-- The text contents of the elements with the given name, in document order. -/
def contents (name : Text) (n : Node) : List Text :=
  (n.nodes.filter (hasName name)).map innerText

/-- The names of the elements that may be counted: numbers and texts. -/
def countedNames : List Text :=
  ["mn", "mtext"].map Text.ofString

/-- What is counted, by its name and text content, is a number or a text. -/
def CountsLeaves (p : Text → Text → Bool) : Prop :=
  ∀ name content, p name content = true → name ∈ countedNames

/-- Whether a node is counted. -/
def isCounted (p : Text → Text → Bool) : Node → Bool
  | .text _ => false
  | .element name _ children => p name (innerTexts children)

/-- How many nodes of a tree are counted. -/
def tally (p : Text → Text → Bool) (n : Node) : Nat :=
  n.nodes.countP (isCounted p)

/-- How many nodes of several trees are counted. -/
def tallyAll (p : Text → Text → Bool) (children : List Node) : Nat :=
  (children.map (tally p)).sum

variable {p : Text → Text → Bool} {n : Node} {name content : Text}
  {attributes : Assoc Text Text} {children : List Node}

@[simp] theorem tallyAll_nil : tallyAll p [] = 0 := rfl

@[simp] theorem tallyAll_cons : tallyAll p (n :: children) = n.tally p + tallyAll p children := by
  simp [tallyAll]

@[simp] theorem tallyAll_append {others : List Node} :
    tallyAll p (children ++ others) = tallyAll p children + tallyAll p others := by
  simp [tallyAll]

@[simp] theorem tallyAll_reverse : tallyAll p children.reverse = tallyAll p children := by
  simp [tallyAll, List.sum_reverse]

@[simp] theorem tally_text : (text content).tally p = 0 := rfl

theorem countP_nodesOfAll : (nodesOfAll children).countP (isCounted p) = tallyAll p children := by
  induction children with
  | nil => rfl
  | cons c rest ih => rw [nodesOfAll, List.countP_append, ih, tallyAll_cons, tally]

theorem tally_element : (element name attributes children).tally p =
    tallyAll p children + if p name (innerTexts children) then 1 else 0 := by
  rw [tally, nodes, List.countP_cons, countP_nodesOfAll]
  rfl

theorem tally_leaf : (leaf name content attributes).tally p = if p name content then 1 else 0 := by
  simp [leaf, tally_element, innerTexts, innerText]

/-- Elements that are not counted have the leaves of their children. -/
theorem tally_around (hp : CountsLeaves p) (hname : name ∉ countedNames) :
    (element name attributes children).tally p = tallyAll p children := by
  have hno : p name (innerTexts children) = false :=
    Bool.eq_false_iff.mpr fun h => hname (hp _ _ h)
  simp [tally_element, hno]

theorem tally_wrapped (hp : CountsLeaves p) (hname : name ∉ countedNames) :
    (element name attributes [n]).tally p = n.tally p := by
  rw [tally_around hp hname, tallyAll_cons, tallyAll_nil, Nat.add_zero]

theorem tally_row (hp : CountsLeaves p) : (row children).tally p = tallyAll p children :=
  tally_around hp (by decide)

theorem tally_identifier (hp : CountsLeaves p) : (identifier content).tally p = 0 :=
  tally_around hp (by decide)

theorem tally_operator (hp : CountsLeaves p) : (operator content attributes).tally p = 0 :=
  tally_around hp (by decide)

theorem tally_of_isEmpty (h : n.isEmpty = true) : n.tally p = 0 := by
  cases n with
  | text content => rfl
  | element name attributes children => cases h

theorem tally_slot (hp : CountsLeaves p) : n.slot.tally p = n.tally p := by
  unfold slot
  split
  · next h =>
    rw [tally_of_isEmpty h]
    exact tally_row hp
  · rfl

theorem tally_collapse (hp : CountsLeaves p) :
    (collapse children).tally p = tallyAll p children := by
  unfold collapse
  split
  · rfl
  · simp
  · exact tally_row hp

@[simp] theorem tally_setAttribute (key value : Text) :
    (n.setAttribute key value).tally p = n.tally p := by
  cases n <;> simp [setAttribute, tally_element]

@[simp] theorem tally_addAttribute (key value : Text) :
    (n.addAttribute key value).tally p = n.tally p := by
  cases n <;> simp [addAttribute, tally_element]

theorem countP_contents (q : Text → Bool) (name : Text) (n : Node) :
    (n.contents name).countP q =
      n.tally fun other content => decide (other = name) && q content := by
  rw [contents, List.countP_map, List.countP_filter, tally]
  refine List.countP_congr fun m _ => ?_
  cases m with
  | text content => simp [isCounted, hasName]
  | element other attributes children => simp [isCounted, hasName, innerText, and_comm]

end Node

namespace Parser

open Node

variable {p : Text → Text → Bool} {g : Grammar} {s : Setup}

/-! ## Siblings -/

/-- How many leaves of the siblings are counted. -/
def siblingsTally (p : Text → Text → Bool) (done : List Sibling) : Nat :=
  tallyAll p (done.map Sibling.node)

@[simp] theorem siblingsTally_cons (x : Sibling) (done : List Sibling) :
    siblingsTally p (x :: done) = x.node.tally p + siblingsTally p done := by
  simp [siblingsTally]

theorem siblingsTally_append (done others : List Sibling) :
    siblingsTally p (done ++ others) = siblingsTally p done + siblingsTally p others := by
  simp [siblingsTally]

theorem tally_scriptNode (hp : CountsLeaves p) (base : Node) (scripts : Scripts) :
    (scriptNode base scripts).tally p = base.tally p + tallyAll p scripts.nodes := by
  have huncounted : ∀ name ∈ scriptedNames, name ∉ countedNames := by decide
  obtain ⟨name, hname, heq⟩ := scriptNode_eq base scripts
  rw [heq, tally_around hp (huncounted name hname), tallyAll_cons]

theorem tallyAll_nodes_add? {scripts all : Scripts} {script : Script} {argument : Node}
    (h : scripts.add? script argument = some all) :
    tallyAll p all.nodes = tallyAll p scripts.nodes + argument.tally p := by
  unfold Scripts.add? at h
  split at h
  · cases h
    simp [Scripts.nodes]
  · cases h
    simp [Scripts.nodes, Nat.add_comm]
  · cases h

/-- A fold puts siblings into a row. -/
theorem siblingsTally_foldParens (hp : CountsLeaves p) (done : List Sibling) :
    siblingsTally p (foldParens done) = siblingsTally p done := by
  unfold foldParens
  split
  · rfl
  · next latest earlier =>
    split
    · split
      · next n _ =>
        have hrow : (Sibling.atom (.row (((latest :: earlier).take n).map Sibling.node).reverse)
            ).node.tally p = siblingsTally p ((latest :: earlier).take n) := by
          rw [Sibling.node, tally_row hp, tallyAll_reverse, siblingsTally]
        rw [siblingsTally_cons, hrow, ← siblingsTally_append, List.take_append_drop]
      · rfl
    · rfl

theorem siblingsTally_bindScript? (hp : CountsLeaves p) {script : Script} {argument : Node}
    {done bound : List Sibling} (h : bindScript? script argument done = some bound) :
    siblingsTally p bound = siblingsTally p done + argument.tally p := by
  unfold bindScript? at h
  split at h
  · next base scripts earlier =>
    obtain ⟨all, hall, rfl⟩ := Option.map_eq_some_iff.mp h
    simp only [siblingsTally_cons, Sibling.node, tally_scriptNode hp, tallyAll_nodes_add? hall]
    omega
  · have hfold := siblingsTally_foldParens hp done
    split at h
    · next base earlier heq =>
      cases h
      rw [heq, siblingsTally_cons] at hfold
      have hbound : (Sibling.scripted base.node.slot (.single script argument)).node.tally p =
          base.node.tally p + argument.tally p := by
        rw [Sibling.node, tally_scriptNode hp, tally_slot hp, Scripts.nodes_single, tallyAll_cons,
          tallyAll_nil, Nat.add_zero]
      rw [siblingsTally_cons, hbound]
      omega
    · cases h

theorem siblingsTally_placeLimits (movable : Bool) (done : List Sibling) :
    siblingsTally p (placeLimits movable done) = siblingsTally p done := by
  unfold placeLimits
  split
  · split <;> simp [Sibling.node]
  · rfl

theorem tally_collapseSiblings (hp : CountsLeaves p) (done : List Sibling) :
    (collapseSiblings done).tally p = siblingsTally p done := by
  rw [collapseSiblings, tally_collapse hp, tallyAll_reverse, siblingsTally]

theorem tally_symbolNode (hp : CountsLeaves p) {value : Text} (h : p "mtext" value = false) :
    (symbolNode g value).tally p = 0 := by
  unfold symbolNode
  split
  · exact tally_operator hp
  · split
    · exact tally_identifier hp
    · simp [textElement, tally_leaf, h]

/-! ## Tables and pairs -/

/-- How many leaves of the cells in rows are counted. -/
def rowsTally (p : Text → Text → Bool) (rows : List (List Node)) : Nat :=
  (rows.map (tallyAll p)).sum

@[simp] theorem rowsTally_cons (cells : List Node) (rows : List (List Node)) :
    rowsTally p (cells :: rows) = tallyAll p cells + rowsTally p rows := by
  simp [rowsTally]

@[simp] theorem rowsTally_reverse (rows : List (List Node)) :
    rowsTally p rows.reverse = rowsTally p rows := by
  simp [rowsTally, List.sum_reverse]

/-- The row that is dropped is an empty cell. -/
theorem rowsTally_dropEmptyRow (rows : List (List Node)) :
    rowsTally p (dropEmptyRow rows) = rowsTally p rows := by
  unfold dropEmptyRow
  split
  · next last row earlier heq =>
    split
    · next hlast =>
      rw [← rowsTally_reverse rows, heq, rowsTally_reverse, rowsTally_cons [last]]
      simp [tally_of_isEmpty hlast]
    · rfl
  · rfl

theorem tally_tableNode (hp : CountsLeaves p) (rows : List (List Node)) (columnAlign : Text) :
    (tableNode rows columnAlign).tally p = rowsTally p rows := by
  have hcell : ∀ cell, (element "mtd" [] [cell]).tally p = cell.tally p :=
    fun cell => tally_wrapped hp (by decide)
  have hrow : ∀ cells, (element "mtr" [] (cells.map fun cell => element "mtd" [] [cell])).tally p =
      tallyAll p cells := fun cells => by
    rw [tally_around hp (by decide), tallyAll, List.map_map]
    exact congrArg List.sum (List.map_congr_left fun cell _ => hcell cell)
  rw [tableNode, tally_around hp (by decide), tallyAll, List.map_map]
  exact congrArg List.sum (List.map_congr_left fun cells _ => hrow cells)

theorem tally_gridNode (hp : CountsLeaves p) (e : Environment) (argument : Text)
    (rows : List (List Node)) : (gridNode e argument rows).tally p = rowsTally p rows := by
  have htable := fun columnAlign =>
    (tally_tableNode hp (dropEmptyRow rows) columnAlign).trans (rowsTally_dropEmptyRow rows)
  unfold gridNode
  split
  · exact (tally_wrapped hp (by decide)).trans (htable _)
  · exact htable _
  · exact htable _

theorem tally_flowNode (hp : CountsLeaves p) (name : Text) (e : Environment) (content : Node) :
    (flowNode name e content).tally p = content.tally p := by
  unfold flowNode
  split <;> exact tally_wrapped hp (by decide)

theorem tally_pairNode (hp : CountsLeaves p) (opening closing : Option Text) (content : Node) :
    (pairNode opening content closing).tally p = content.tally p := by
  have hfence : ∀ d : Option Text, tallyAll p (d.map fenceNode).toList = 0 := by
    rintro (_ | d)
    · rfl
    · simp [fenceNode, tally_operator hp]
  rw [pairNode, tally_collapse hp, tallyAll_append, tallyAll_append, hfence, hfence]
  split
  · next h => simp [tally_of_isEmpty h]
  · simp

theorem tally_rootNode (hp : CountsLeaves p) (degree : Option Node) (radicand : Node) :
    (Reading.rootNode degree radicand).tally p =
      tallyAll p degree.toList + radicand.tally p := by
  cases degree with
  | none => exact (tally_wrapped hp (by decide)).trans (Nat.zero_add _).symm
  | some n =>
    refine (tally_around hp (by decide)).trans ?_
    simp [tally_slot hp, Nat.add_comm]

/-! ## Readings -/

/-- What a reading makes has the leaves of the nodes that it is made of. -/
def Reading.KeepsTally (p : Text → Text → Bool) : Reading → Prop
  | .nothing node => node.tally p = 0
  | .one build => ∀ n, (build n).tally p = n.tally p
  | .two build => ∀ n m, (build n m).tally p = n.tally p + m.tally p
  | .delimiter build => ∀ d, (build d).tally p = 0
  | .raw _ | .squareRoot | .root | .leftRight | .refused _ => True

theorem keepsTally_reading (hp : CountsLeaves p) (t : Token) (c : Command) :
    (reading s t c).KeepsTally p := by
  have around : ∀ {name : Text} {attributes : Assoc Text Text} {children : List Node},
      name ∉ countedNames →
      (element name attributes children).tally p = tallyAll p children := tally_around hp
  cases c with
  | identifier value | function value => exact tally_identifier hp
  | operator value | fence value | largeOperator value | integral value | limitFunction value =>
    exact tally_operator hp
  | space width | lineBreak => exact around (by decide)
  | fraction displayStyle =>
    intro n m
    cases displayStyle <;> simp [fractionNode, around, countedNames]
  | binomial =>
    intro n m
    simp [tally_row hp, tally_operator hp, around, countedNames]
  | modulus =>
    intro n
    simp [tally_row hp, tally_operator hp]
  | style | enclose | phantom =>
    intro n
    simp [around, countedNames]
  | accent mark | underAccent mark =>
    intro n
    simp [accentNode, tally_operator hp, around, countedNames]
  | overset | underset =>
    intro n m
    simp [around, countedNames, Nat.add_comm]
  | middle | sized size => exact fun d => tally_operator hp
  | sizedSpace | squareRoot | root | text | operatorName | left | limits | beginEnvironment
  | closer => trivial

/-! ## Tokens -/

/-- Whether the leaf is counted that a token stands for by itself: a number, or the text of a
command that is not known. -/
def countsToken (g : Grammar) (p : Text → Text → Bool) (t : Token) : Bool :=
  match t.kind with
  | .number => p "mn" t.value
  | .command => (g.commands.get? t.value).isNone && p "mtext" t.value
  | _ => false

/-- How many leaves are counted that tokens stand for. -/
def worth (g : Grammar) (p : Text → Text → Bool) (w : List Token) : Nat :=
  w.countP (countsToken g p)

variable {t : Token} {v w tokens : List Token}

@[simp] theorem worth_nil : worth g p [] = 0 := rfl

@[simp] theorem worth_append : worth g p (v ++ w) = worth g p v + worth g p w :=
  List.countP_append

theorem worth_cons : worth g p (t :: w) = worth g p w + if countsToken g p t then 1 else 0 :=
  List.countP_cons

theorem worth_cons_of_not (h : countsToken g p t = false) : worth g p (t :: w) = worth g p w := by
  simp [worth_cons, h]

/-- Delimiters that are not counted. -/
theorem worth_enclosed {t' : Token} (h : countsToken g p t = false)
    (h' : countsToken g p t' = false) : worth g p (t :: (w ++ [t'])) = worth g p w := by
  rw [worth_cons_of_not h, worth_append, worth_cons_of_not h', worth_nil, Nat.add_zero]

theorem worth_eq_zero (h : ∀ t ∈ w, countsToken g p t = false) : worth g p w = 0 := by
  simpa [worth, List.countP_eq_zero] using h

theorem countsToken_of_get? (h : t.kind = .command) {c : Command}
    (hc : g.commands.get? t.value = some c) : countsToken g p t = false := by
  simp [countsToken, h, hc]

theorem countsToken_of_is {kind : Token.Kind} {value : Text} (h : t.is kind value = true)
    (hkind : kind ≠ .number ∧ kind ≠ .command) : countsToken g p t = false := by
  obtain ⟨hk, -⟩ := Token.is_iff.mp h
  unfold countsToken
  rw [hk]
  cases kind <;> simp at hkind ⊢

theorem countsToken_of_structural (hg : g.Regular) {name : Text} (h : t.isCommand name = true)
    {c : Command} (hc : Command.structural.get? name = some c) : countsToken g p t = false := by
  obtain ⟨hk, rfl⟩ := Token.is_iff.mp h
  exact countsToken_of_get? hk (hg.get?_structural hc)

theorem countsToken_of_delimiter? {d : Option Text} (h : delimiter? g t = some d) :
    countsToken g p t = false := by
  unfold delimiter? at h
  unfold countsToken
  cases hk : t.kind <;> simp only [hk] at h ⊢
  case command =>
    split at h
    · next hget => simp [hget]
    · cases h
  case number => cases h

theorem countsToken_of_ofToken? {script : Script} (h : Script.ofToken? t = some script) :
    countsToken g p t = false := by
  simp [countsToken, (Script.value_of_ofToken? h).1]

theorem countsToken_of_isNamePiece (h : isNamePiece t = true) : countsToken g p t = false := by
  have hk : t.kind = .symbol := by
    simp only [isNamePiece, Bool.and_eq_true, decide_eq_true_eq] at h
    exact h.1
  simp [countsToken, hk]

theorem worth_nameGroup {name : Text} (h : NameGroup w name) : worth g p w = 0 := by
  refine worth_eq_zero fun t ht => ?_
  rcases h.mem ht with ht | ht | ht
  · exact countsToken_of_is ht (by decide)
  · exact countsToken_of_isNamePiece ht
  · exact countsToken_of_is ht (by decide)

theorem countsToken_of_limits? {movable : Bool} (h : limits? g t = some movable) :
    countsToken g p t = false := by
  unfold limits? at h
  split at h
  · next hk =>
    split at h
    · next hget => exact countsToken_of_get? hk hget
    · cases h
  · cases h

/-! ## Tokens that are all shown -/

/-- Nothing among the tokens is read that is not shown as it is: no raw group, no argument of an
environment, no `\of`, and no brackets behind the end of a row. -/
structure AllShown (g : Grammar) (tokens : List Token) : Prop where
  raw : ∀ t ∈ tokens, readsRaw g t = false
  of : ∀ t ∈ tokens, t.isCommand "\\of" = false
  argument : ∀ name t, Begins tokens name t → (environmentOf g name).takesArgument = false
  hint : ∀ t b, [t, b] <:+: tokens → isRowSeparator t = true → b.isOpenBracket = false

/-- The first of the tokens is shown, and so is what it reads behind it. -/
def ShowsHead (g : Grammar) : List Token → Prop
  | [] => True
  | t :: rest => readsRaw g t = false ∧ t.isCommand "\\of" = false ∧
    (t.isCommand "\\begin" = true →
      ∀ found ∈ scanName? rest, (environmentOf g found.1).takesArgument = false) ∧
    (isRowSeparator t = true → ∀ b ∈ rest.head?, b.isOpenBracket = false)

instance (g : Grammar) : DecidablePred (ShowsHead g)
  | [] => inferInstanceAs (Decidable True)
  | _ :: _ => inferInstanceAs (Decidable (_ ∧ _))

/-- Tokens are all shown if each is, as the first of those that are left. -/
theorem allShown_iff : AllShown g tokens ↔ ∀ w ∈ tokens.tails, ShowsHead g w := by
  simp only [List.mem_tails]
  constructor
  · intro h w hw
    cases w with
    | nil => trivial
    | cons t rest =>
      have ht : t ∈ tokens := hw.subset List.mem_cons_self
      refine ⟨h.raw t ht, h.of t ht, fun hbegin found hfound => ?_, fun hrow b hb => ?_⟩
      · exact h.argument _ t (begins_of_scanName? hw hbegin hfound)
      · obtain ⟨more, rfl⟩ := List.head?_eq_some_iff.mp hb
        exact h.hint t b (List.IsInfix.trans ⟨[], more, rfl⟩ hw.isInfix) hrow
  · intro h
    have head : ∀ t ∈ tokens, ∃ rest, ShowsHead g (t :: rest) := fun t ht => by
      obtain ⟨before, rest, rfl⟩ := List.append_of_mem ht
      exact ⟨rest, h _ (List.suffix_append _ _)⟩
    refine ⟨fun t ht => (head t ht).elim fun _ h => h.1,
      fun t ht => (head t ht).elim fun _ h => h.2.1, ?_, ?_⟩
    · rintro name t ⟨hbegin, before, n, after, rfl, hname⟩
      exact (h (t :: (n ++ after)) (List.suffix_append _ _)).2.2.1 hbegin _ (hname.scanName? after)
    · rintro t b ⟨before, after, rfl⟩ hrow
      exact (h (t :: b :: after) ⟨before, by simp⟩).2.2.2 hrow b rfl

instance (g : Grammar) (tokens : List Token) : Decidable (AllShown g tokens) :=
  decidable_of_iff _ allShown_iff.symm

/-- All tokens are shown, none is a text, and no symbol would be counted as one. -/
structure Countable (g : Grammar) (p : Text → Text → Bool) (tokens : List Token) : Prop extends
    AllShown g tokens where
  text : ∀ t ∈ tokens, t.kind ≠ .text
  symbol : ∀ t ∈ tokens, t.kind = .symbol → p "mtext" t.value = false

theorem Countable.mono (h : Countable g p tokens) (hw : w <:+: tokens) : Countable g p w where
  raw t ht := h.raw t (hw.subset ht)
  of t ht := h.of t (hw.subset ht)
  argument name t ht := h.argument name t (ht.mono hw)
  hint t b ht := h.hint t b (ht.trans hw)
  text t ht := h.text t (hw.subset ht)
  symbol t ht := h.symbol t (hw.subset ht)

theorem Countable.left (h : Countable g p (v ++ w)) : Countable g p v :=
  h.mono (List.prefix_append _ _).isInfix

theorem Countable.right (h : Countable g p (v ++ w)) : Countable g p w :=
  h.mono (List.suffix_append _ _).isInfix

theorem Countable.tail (h : Countable g p (t :: w)) : Countable g p w :=
  h.mono (List.suffix_cons _ _).isInfix

/-- Behind the end of a row there are no brackets. -/
theorem Countable.eq_nil_of_optional {hint : Option Node} (h : Countable g p (t :: (v ++ w)))
    (ht : isRowSeparator t = true) (hv : Derives s v (.optional hint)) : v = [] := by
  cases hv with
  | absent => rfl
  | present hv =>
    cases hv with
    | @brackets inner opening closing done ho _ _ =>
      have hno := h.hint t opening ⟨[], inner ++ [closing] ++ w, by simp⟩ ht
      rw [ho] at hno
      cases hno

/-- Between two arguments there is no `\of`. -/
theorem Countable.eq_nil_of_word (h : Countable g p v)
    (hv : v = [] ∨ ∃ of, v = [of] ∧ of.isCommand "\\of" = true) : v = [] := by
  rcases hv with hv | ⟨of, rfl, hof⟩
  · exact hv
  · have hno := h.of of List.mem_cons_self
    rw [hof] at hno
    cases hno

/-! ## All rules -/

/-- How many leaves of a form are counted. -/
def Form.tally (p : Text → Text → Bool) : Form → Nat
  | .siblings done => siblingsTally p done
  | .group n | .brackets n | .atom n | .placed n | .script n | .body _ _ _ n => n.tally p
  | .optional n => tallyAll p n.toList
  | .rows cells earlier => rowsTally p (cells :: earlier)

/-- The leaves of what is read are those that its tokens stand for. -/
theorem Derives.tally {form : Form} (hp : CountsLeaves p) (hg : s.grammar.Regular)
    (h : Derives s w form) (hw : Countable s.grammar p w) :
    form.tally p = worth s.grammar p w := by
  have keeps : ∀ {t : Token} {c : Command} {r : Reading}, reading s t c = r → r.KeepsTally p :=
    fun hr => hr ▸ keepsTally_reading hp _ _
  induction h with
  | nothing => rfl
  | next _ _ ihu ihw =>
    have hu := ihu hw.left
    have hn := ihw hw.right
    simp only [Form.tally, siblingsTally_cons, Sibling.node, worth_append] at hu hn ⊢
    omega
  | script _ ht _ hb ihu ihw =>
    rw [worth_append, worth_cons_of_not (countsToken_of_ofToken? ht), ← ihu hw.left,
      ← ihw hw.right.tail]
    exact siblingsTally_bindScript? hp hb
  | limits _ ht ih =>
    rw [worth_append, worth_cons_of_not (countsToken_of_limits? ht), worth_nil, Nat.add_zero,
      ← ih hw.left]
    exact siblingsTally_placeLimits _ _
  | group ho _ hc ih =>
    rw [worth_enclosed (countsToken_of_is ho (by decide)) (countsToken_of_is hc (by decide)),
      ← ih hw.tail.left]
    exact tally_collapseSiblings hp _
  | brackets ho _ hc ih =>
    rw [worth_enclosed (countsToken_of_is ho (by decide)) (countsToken_of_is hc (by decide)),
      ← ih hw.tail.left]
    exact tally_collapseSiblings hp _
  | absent => rfl
  | present _ ih =>
    rw [← ih hw]
    simp [Form.tally]
  | symbol ht =>
    have hsymbol := hw.symbol _ List.mem_cons_self ht
    rw [worth_cons_of_not (by simp [countsToken, ht])]
    exact tally_symbolNode hp hsymbol
  | number ht => simp [Form.tally, Node.number, tally_leaf, worth_cons, countsToken, ht]
  | text ht => exact absurd ht (hw.text _ List.mem_cons_self)
  | braced _ ih => exact ih hw
  | bracketed _ ih =>
    rw [← ih hw]
    exact tally_wrapped hp (by decide)
  | unknown ht hget =>
    simp [Form.tally, textElement, tally_leaf, worth_cons, countsToken, ht, hget]
  | plain ht hget hr =>
    rw [worth_cons_of_not (countsToken_of_get? ht hget)]
    exact keeps hr
  | raw ht hget hr _ =>
    have hraw := hw.raw _ List.mem_cons_self
    rw [(readsRaw_of_reading ht hget).mpr ⟨_, hr⟩] at hraw
    cases hraw
  | one ht hget hr _ ih =>
    rw [worth_cons_of_not (countsToken_of_get? ht hget), ← ih hw.tail]
    exact (keeps hr _).trans (tally_slot hp)
  | two ht hget hr _ _ ihv ihw =>
    rw [worth_cons_of_not (countsToken_of_get? ht hget), worth_append, ← ihv hw.tail.left,
      ← ihw hw.tail.right]
    exact (keeps hr _ _).trans (by rw [tally_slot hp, tally_slot hp]; rfl)
  | delimiter ht hget hr hd =>
    rw [worth_cons_of_not (countsToken_of_get? ht hget),
      worth_cons_of_not (countsToken_of_delimiter? hd)]
    exact keeps hr _
  | squareRoot ht hget _ _ _ ihv ihw =>
    rw [worth_cons_of_not (countsToken_of_get? ht hget), worth_append, ← ihv hw.tail.left,
      ← ihw hw.tail.right]
    exact (tally_rootNode hp _ _).trans (by rw [tally_slot hp]; rfl)
  | root ht hget _ _ hof _ ihu ihw =>
    obtain rfl := hw.tail.right.left.eq_nil_of_word hof
    rw [worth_cons_of_not (countsToken_of_get? ht hget), worth_append, ← ihu hw.tail.left,
      List.nil_append, ← ihw hw.tail.right]
    refine (tally_around hp (by decide)).trans ?_
    simp [Form.tally, tally_slot hp, Nat.add_comm]
  | leftRight ht hget _ hd _ hright hd' ih =>
    have hright' := countsToken_of_structural (p := p) hg hright (c := .closer) (by decide)
    rw [worth_cons_of_not (countsToken_of_get? ht hget),
      worth_cons_of_not (countsToken_of_delimiter? hd), worth_append, worth_cons_of_not hright',
      worth_cons_of_not (countsToken_of_delimiter? hd'), worth_nil, Nat.add_zero,
      ← ih hw.tail.tail.left]
    exact (tally_pairNode hp _ _ _).trans (tally_collapseSiblings hp _)
  | firstCell _ ih =>
    rw [← ih hw]
    simp [Form.tally, tally_collapseSiblings hp, rowsTally]
  | nextCell _ ht _ ihu ihw =>
    rw [worth_append, worth_cons_of_not (countsToken_of_is ht (by decide)), ← ihu hw.left,
      ← ihw hw.right.tail]
    simp only [Form.tally, rowsTally_cons, tallyAll_cons, tally_collapseSiblings hp]
    omega
  | nextRow _ ht hv _ ihu _ ihw =>
    have hrow := countsToken_of_structural (p := p) hg ht (c := .lineBreak) (by decide)
    obtain rfl := hw.right.eq_nil_of_optional ht hv
    rw [worth_append, worth_cons_of_not hrow, List.nil_append, ← ihu hw.left,
      ← ihw hw.right.tail]
    simp only [Form.tally, rowsTally_cons, tallyAll_cons, tallyAll_nil, tallyAll_reverse,
      tally_collapseSiblings hp]
    omega
  | flow _ _ ih =>
    rw [← ih hw]
    exact (tally_flowNode hp _ _ _).trans (tally_collapseSiblings hp _)
  | grid _ _ ih =>
    rw [← ih hw]
    refine (tally_gridNode hp _ _ _).trans ?_
    rw [rowsTally_reverse, rowsTally_cons, tallyAll_reverse]
    exact (rowsTally_cons _ _).symm
  | @environment t t' v v' a w name argument n hb hname ha _ he hname' ih =>
    -- Of the tokens of an environment only those of its content stand for leaves.
    have hbegins := countsToken_of_structural (p := p) hg hb (c := .beginEnvironment) (by decide)
    have hends := countsToken_of_structural (p := p) hg he (c := .closer) (by decide)
    have hargument := hw.argument name t ⟨hb, [], v, _, rfl, hname⟩
    simp only [ArgumentGroup, hargument] at ha
    obtain ⟨rfl, -⟩ := ha
    rw [worth_cons_of_not hbegins, worth_append, worth_nameGroup hname, List.nil_append,
      worth_append, worth_cons_of_not hends, worth_nameGroup hname', Nat.zero_add, Nat.add_zero,
      ← ih hw.tail.right.right.left]
    rfl
  | placed _ ih =>
    rw [← ih hw]
    unfold placedNode
    split
    · exact tally_addAttribute _ _
    · rfl
  | group_script _ ih =>
    rw [← ih hw]
    exact tally_slot hp
  | atom_script _ _ ih => exact ih hw

/-! ## Sources -/

/-- The leaves of the tree of a source, counted in any way that does not count its symbols. -/
theorem tally_of_parse (hp : CountsLeaves p) (hg : g.Regular) {options : Options} {source : Text}
    {node : Node} (h : (parse g options source).value = .ok node)
    (hshown : AllShown g (Token.tokenize source))
    (hsymbol : ∀ t ∈ Token.tokenize source, t.kind = .symbol → p "mtext" t.value = false) :
    node.tally p = worth g p (Token.tokenize source) := by
  obtain ⟨done, hd, rfl⟩ := derives_of_parse h
  rw [tally_collapseSiblings hp]
  exact hd.tally hp hg ⟨hshown, fun t ht => Token.kind_ne_text_of_mem_tokenize ht, hsymbol⟩

/-- The elements of one name with certain texts are the tokens that stand for such leaves. -/
theorem contents_perm_of_parse (hg : g.Regular) {options : Options} {source : Text} {node : Node}
    (h : (parse g options source).value = .ok node) (hshown : AllShown g (Token.tokenize source))
    {name : Text} (hname : name ∈ countedNames) (r : Text → Bool)
    (hsymbol : name = "mtext" → ∀ t ∈ Token.tokenize source, t.kind = .symbol → r t.value = false)
    {pick : Token → Bool} (hpick : ∀ q : Text → Bool, ∀ t ∈ Token.tokenize source,
      countsToken g (fun other content => decide (other = name) && (q content && r content)) t =
        (q t.value && pick t)) :
    ((node.contents name).filter r).Perm
      (((Token.tokenize source).filter pick).map Token.value) := by
  refine List.perm_iff_count.mpr fun x => ?_
  have hp : CountsLeaves fun other content =>
      decide (other = name) && (content == x && r content) := by
    intro other content hcounted
    rw [Bool.and_eq_true, decide_eq_true_eq] at hcounted
    exact hcounted.1 ▸ hname
  have htally := tally_of_parse hp hg h hshown fun t ht hk => by
    by_cases htext : name = "mtext"
    · simp [hsymbol htext t ht hk]
    · simp [Ne.symm htext]
  calc ((node.contents name).filter r).count x
    _ = (node.contents name).countP fun content => content == x && r content :=
      List.countP_filter
    _ = worth g _ (Token.tokenize source) := (countP_contents _ name node).trans htally
    _ = (Token.tokenize source).countP fun t => t.value == x && pick t :=
      List.countP_congr fun t ht => by rw [hpick (· == x) t ht]
    _ = (((Token.tokenize source).filter pick).map Token.value).count x := by
      rw [List.count, List.countP_map, List.countP_filter]
      rfl

end Parser

/-- Nothing is lost and nothing is doubled. The numbers of a tree are those of the source, and its
texts that start with a backslash are the commands of the source that are not known. Only the order
may be another one. -/
theorem parse_leaves (symbols : Symbol.Table) {options : Options} {source : Text} {node : Node}
    (h : (parse (Grammar.ofSymbols symbols).value options source).value = .ok node)
    (hshown : Parser.AllShown (Grammar.ofSymbols symbols).value (Token.tokenize source)) :
    (node.contents "mn").Perm
        (((Token.tokenize source).filter (·.kind = .number)).map Token.value) ∧
      ((node.contents "mtext").filter (Text.startsWith · "\\")).Perm
        (((Token.tokenize source).filter fun t => t.kind = .command &&
          ((Grammar.ofSymbols symbols).value.commands.get? t.value).isNone).map Token.value) := by
  have hg := Grammar.regular_ofSymbols symbols
  generalize (Grammar.ofSymbols symbols).value = g at h hshown hg ⊢
  constructor
  · have hpick : ∀ q : Text → Bool, ∀ t ∈ Token.tokenize source,
        Parser.countsToken g (fun other content => decide (other = "mn") && (q content && true)) t =
          (q t.value && decide (t.kind = .number)) := by
      intro q t _
      cases hk : t.kind <;> simp [Parser.countsToken, hk]
    have hnumbers := Parser.contents_perm_of_parse hg h hshown (by decide) (fun _ => true)
      (fun hname => absurd hname (by decide)) hpick
    rwa [List.filter_true] at hnumbers
  · refine Parser.contents_perm_of_parse hg h hshown (by decide) _ (fun _ t ht hk => ?_)
      fun q t ht => ?_
    · rw [← Bool.not_eq_true, Token.startsWith_backslash_iff ht, hk]
      decide
    · cases hk : t.kind
      case command =>
        have hstarts := (Token.startsWith_backslash_iff ht).mpr hk
        simp [Parser.countsToken, hk, hstarts, Bool.and_comm]
      all_goals simp [Parser.countsToken, hk]

/-- A degree stands before its radicand in the source and behind it in the tree. -/
theorem parse_leaves_squareRoot :
    ∃ node, (parse (Grammar.ofSymbols ⟨fun _ => []⟩).value {} "\\sqrt[1]\x7b2\\foo\x7d").value =
        .ok node ∧
      Parser.AllShown (Grammar.ofSymbols ⟨fun _ => []⟩).value
        (Token.tokenize "\\sqrt[1]\x7b2\\foo\x7d") ∧
      (node.contents "mn").Perm ["1", "2"] ∧
      ((node.contents "mtext").filter (Text.startsWith · "\\")).Perm ["\\foo"] := by
  have hparse : (parse (Grammar.ofSymbols ⟨fun _ => []⟩).value {}
      "\\sqrt[1]\x7b2\\foo\x7d").value =
      .ok (.element "mroot" [] [.row [.number "2", .textElement "\\foo" []], .number "1"]) := by
    rw [Grammar.ofSymbols_nil]
    decide +kernel
  have hshown : Parser.AllShown (Grammar.ofSymbols ⟨fun _ => []⟩).value
      (Token.tokenize "\\sqrt[1]\x7b2\\foo\x7d") := by
    rw [Grammar.ofSymbols_nil]
    decide +kernel
  have hvalues : ((Token.tokenize "\\sqrt[1]\x7b2\\foo\x7d").filter (·.kind = .number)).map
      Token.value = ["1", "2"] := by
    decide
  have hunknown : ((Token.tokenize "\\sqrt[1]\x7b2\\foo\x7d").filter fun t => t.kind = .command &&
      ((Grammar.ofSymbols ⟨fun _ => []⟩).value.commands.get? t.value).isNone).map
        Token.value = ["\\foo"] := by
    rw [Grammar.ofSymbols_nil]
    decide
  obtain ⟨hnumbers, htexts⟩ := parse_leaves ⟨fun _ => []⟩ hparse hshown
  rw [hvalues] at hnumbers
  rw [hunknown] at htexts
  exact ⟨_, hparse, hshown, hnumbers, htexts⟩

end MathMarkup
