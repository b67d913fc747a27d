import MathMarkup.Parser.Expression
import MathMarkup.Proofs.Assoc
import MathMarkup.Proofs.Material
import MathMarkup.Proofs.Parser.Reading
import MathMarkup.Proofs.Tree

/-!
# The trees that a parse builds

`Built` lists the shapes of nodes in a parsed tree, one rule for each: leaves, rows, wrappers,
pairs, scripts and tables. Texts and attribute values are made of code points with a property `p`.
All places of an element that takes a fixed number of children are filled by elements, with one
exception: the argument of a script may be the empty text if `bare` holds.

The rest of the module shows that whatever a parse makes out of built nodes is built.
-/

namespace MathMarkup.Parser

/-- The names of the attributes in a parsed tree. -/
def attributeNames : List Text :=
  ["stretchy", "largeop", "movablelimits", "width", "linebreak", "displaystyle", "linethickness",
   "mathvariant", "accent", "accentunder", "notation", "fence", "minsize", "maxsize", "open",
   "close", "columnalign", "class", "data-offset"].map Text.ofString

/-- The elements that hold a text. -/
def leafNames : List Text :=
  ["mi", "mn", "mo", "mtext"].map Text.ofString

/-- The elements around a single node. -/
def wrapperNames : List Text :=
  ["mstyle", "menclose", "mphantom", "msqrt", "mfenced", "mtd"].map Text.ofString

/-- The elements of two nodes that commands make. -/
def commandPairNames : List Text :=
  ["mfrac", "mover", "munder", "mroot"].map Text.ofString

/-- The elements of a base with one script. -/
def scriptNames (limits : Bool) : List Text :=
  if limits then ["munder", "mover"].map Text.ofString else ["msub", "msup"].map Text.ofString

/-- Attributes with known names, each of them once, and values over the code points at hand. -/
structure AttributesOver (p : CodePoint → Prop) (attributes : Assoc Text Text) : Prop where
  distinct : (attributes.map Prod.fst).Nodup
  known : ∀ a ∈ attributes, a.1 ∈ attributeNames
  values : ∀ a ∈ attributes, a.2.Over p

/-- The nodes of parsed trees. -/
inductive Built (p : CodePoint → Prop) (bare : Prop) : Node → Prop where
  | nothing : Built p bare (.text [])
  | leaf {name content : Text} {attributes : Assoc Text Text} :
    name ∈ leafNames → AttributesOver p attributes → content.Over p →
      Built p bare (.element name attributes [.text content])
  | space {attributes : Assoc Text Text} :
    AttributesOver p attributes → Built p bare (.element "mspace" attributes [])
  | row {attributes : Assoc Text Text} {children : List Node} :
    AttributesOver p attributes → (∀ c ∈ children, Built p bare c) →
      Built p bare (.element "mrow" attributes children)
  | wrapper {name : Text} {attributes : Assoc Text Text} {child : Node} :
    name ∈ wrapperNames → AttributesOver p attributes → Built p bare child →
      Built p bare (.element name attributes [child])
  | pair {name : Text} {attributes : Assoc Text Text} {first second : Node} :
    name ∈ commandPairNames → AttributesOver p attributes →
      Built p bare first → first.isElement = true →
      Built p bare second → second.isElement = true →
      Built p bare (.element name attributes [first, second])
  | script {name : Text} {attributes : Assoc Text Text} {base argument : Node} :
    name ∈ scriptNames (takesLimits base) → AttributesOver p attributes →
      Built p bare base → base.isElement = true →
      Built p bare argument → (argument.isElement = true ∨ bare) →
      Built p bare (.element name attributes [base, argument])
  | scripts {attributes : Assoc Text Text} {base sub sup : Node} :
    AttributesOver p attributes → Built p bare base → base.isElement = true →
      Built p bare sub → (sub.isElement = true ∨ bare) →
      Built p bare sup → (sup.isElement = true ∨ bare) →
      Built p bare (.element (if takesLimits base then "munderover" else "msubsup") attributes
        [base, sub, sup])
  | tableRow {attributes : Assoc Text Text} {cells : List Node} :
    AttributesOver p attributes → cells ≠ [] → (∀ c ∈ cells, Built p bare c) →
      Built p bare (.element "mtr" attributes cells)
  | table {attributes : Assoc Text Text} {rows : List Node} :
    AttributesOver p attributes → rows ≠ [] → (∀ r ∈ rows, Built p bare r) →
      Built p bare (.element "mtable" attributes rows)

variable {p : CodePoint → Prop} {bare : Prop}

/-! ## Attributes -/

theorem attributesOver_nil : AttributesOver p [] where
  distinct := List.nodup_nil
  known := by simp
  values := by simp

theorem attributesOver_one {key value : Text} (hk : key ∈ attributeNames) (hv : value.Over p) :
    AttributesOver p [(key, value)] where
  distinct := by simp
  known := by simpa using hk
  values := by simpa using hv

theorem attributesOver_two {key value key' value' : Text} (hne : key ≠ key')
    (hk : key ∈ attributeNames) (hv : value.Over p) (hk' : key' ∈ attributeNames)
    (hv' : value'.Over p) : AttributesOver p [(key, value), (key', value')] where
  distinct := by simpa using hne
  known := by simp [hk, hk']
  values := by simp [hv, hv']

section Words

variable {key word key' word' : String}

/-- An attribute whose value is a plain word. -/
theorem attributesOver_word (hp : ∀ c, Text.IsPlain c → p (.scalar c))
    (hk : Text.ofString key ∈ attributeNames) (hw : word.toList.all (Text.IsPlain ·) = true) :
    AttributesOver p [(Text.ofString key, Text.ofString word)] :=
  attributesOver_one hk (Text.over_ofString hp hw)

theorem attributesOver_words (hp : ∀ c, Text.IsPlain c → p (.scalar c))
    (hne : Text.ofString key ≠ Text.ofString key') (hk : Text.ofString key ∈ attributeNames)
    (hw : word.toList.all (Text.IsPlain ·) = true) (hk' : Text.ofString key' ∈ attributeNames)
    (hw' : word'.toList.all (Text.IsPlain ·) = true) :
    AttributesOver p [(Text.ofString key, Text.ofString word),
      (Text.ofString key', Text.ofString word')] :=
  attributesOver_two hne hk (Text.over_ofString hp hw) hk' (Text.over_ofString hp hw')

end Words

theorem AttributesOver.insert {attributes : Assoc Text Text} (h : AttributesOver p attributes)
    {key value : Text} (hk : key ∈ attributeNames) (hv : value.Over p) :
    AttributesOver p (attributes.insert key value) where
  distinct := Assoc.nodup_keys_insert h.distinct
  known a ha := by
    rcases Assoc.mem_insert ha with ha | rfl
    · exact h.known a ha
    · exact hk
  values a ha := by
    rcases Assoc.mem_insert ha with ha | rfl
    · exact h.values a ha
    · exact hv

theorem AttributesOver.insertNew {attributes : Assoc Text Text} (h : AttributesOver p attributes)
    {key value : Text} (hk : key ∈ attributeNames) (hv : value.Over p) :
    AttributesOver p (attributes.insertNew key value) := by
  rw [Assoc.insertNew_eq]
  split
  · exact h
  · exact h.insert hk hv

/-- Attributes may be changed as long as they stay proper. -/
theorem Built.withAttributes {name : Text} {attributes attributes' : Assoc Text Text}
    {children : List Node} (h : Built p bare (.element name attributes children))
    (ha : AttributesOver p attributes → AttributesOver p attributes') :
    Built p bare (.element name attributes' children) := by
  cases h with
  | leaf hn hat hc => exact .leaf hn (ha hat) hc
  | space hat => exact .space (ha hat)
  | row hat hc => exact .row (ha hat) hc
  | wrapper hn hat hc => exact .wrapper hn (ha hat) hc
  | pair hn hat h1 he1 h2 he2 => exact .pair hn (ha hat) h1 he1 h2 he2
  | script hn hat hb hbe hx hxe => exact .script hn (ha hat) hb hbe hx hxe
  | scripts hat hb hbe hx hxe hy hye => exact .scripts (ha hat) hb hbe hx hxe hy hye
  | tableRow hat hne hc => exact .tableRow (ha hat) hne hc
  | table hat hne hc => exact .table (ha hat) hne hc

theorem Built.setAttribute {n : Node} (h : Built p bare n) {key value : Text}
    (hk : key ∈ attributeNames) (hv : value.Over p) : Built p bare (n.setAttribute key value) := by
  cases n with
  | text content => exact h
  | element name attributes children => exact h.withAttributes fun ha => ha.insert hk hv

theorem Built.addAttribute {n : Node} (h : Built p bare n) {key value : Text}
    (hk : key ∈ attributeNames) (hv : value.Over p) : Built p bare (n.addAttribute key value) := by
  cases n with
  | text content => exact h
  | element name attributes children => exact h.withAttributes fun ha => ha.insertNew hk hv

/-! ## Rows and places -/

theorem built_emptyRow : Built p bare (.row []) :=
  .row attributesOver_nil (by simp)

/-- A built node that is no element is the empty text. -/
theorem Built.eq_nothing {n : Node} (h : Built p bare n) (hn : n.isElement = false) :
    n = .text [] := by
  cases h <;> first | rfl | cases hn

theorem Built.isEmpty_iff {n : Node} (h : Built p bare n) :
    n.isEmpty = true ↔ n.isElement = false := by
  cases n with
  | text content => simp [h.eq_nothing rfl]
  | element name attributes children => simp [Node.isEmpty]

theorem Built.slot {n : Node} (h : Built p bare n) : Built p bare n.slot := by
  unfold Node.slot
  split
  · exact built_emptyRow
  · exact h

theorem Built.isElement_slot {n : Node} (h : Built p bare n) : n.slot.isElement = true := by
  unfold Node.slot
  split
  · rfl
  · next he => simpa [h.isEmpty_iff] using he

theorem built_row {children : List Node} (h : ∀ c ∈ children, Built p bare c) :
    Built p bare (.row children) :=
  .row attributesOver_nil h

theorem built_collapse {children : List Node} (h : ∀ c ∈ children, Built p bare c) :
    Built p bare (.collapse children) := by
  unfold Node.collapse
  split
  · exact .nothing
  · exact h _ (by simp)
  · exact built_row h

/-! ## Leaves -/

theorem built_leaf {name content : Text} {attributes : Assoc Text Text} (hn : name ∈ leafNames)
    (hc : content.Over p) (ha : AttributesOver p attributes) :
    Built p bare (.leaf name content attributes) :=
  .leaf hn ha hc

theorem built_identifier {content : Text} (hc : content.Over p) :
    Built p bare (.identifier content) :=
  built_leaf (by simp [leafNames]) hc attributesOver_nil

theorem built_number {content : Text} (hc : content.Over p) : Built p bare (.number content) :=
  built_leaf (by simp [leafNames]) hc attributesOver_nil

theorem built_operator {content : Text} {attributes : Assoc Text Text} (hc : content.Over p)
    (ha : AttributesOver p attributes) : Built p bare (.operator content attributes) :=
  built_leaf (by simp [leafNames]) hc ha

theorem built_textElement {content : Text} {attributes : Assoc Text Text} (hc : content.Over p)
    (ha : AttributesOver p attributes) : Built p bare (.textElement content attributes) :=
  built_leaf (by simp [leafNames]) hc ha

theorem built_fenceNode (hp : ∀ c, Text.IsPlain c → p (.scalar c)) {delimiter : Text}
    (h : delimiter.Over p) : Built p bare (fenceNode delimiter) :=
  built_operator h (attributesOver_words hp (by simp) (by simp [attributeNames]) (by decide)
    (by simp [attributeNames]) (by decide))

/-! ## Scripts -/

/-- What may stand in the place of a script. -/
def ScriptBuilt (p : CodePoint → Prop) (bare : Prop) (n : Node) : Prop :=
  Built p bare n ∧ (n.isElement = true ∨ bare)

/-- Scripts that are all built. -/
def ScriptsBuilt (p : CodePoint → Prop) (bare : Prop) : Scripts → Prop
  | .sub n => ScriptBuilt p bare n
  | .sup n => ScriptBuilt p bare n
  | .both n m => ScriptBuilt p bare n ∧ ScriptBuilt p bare m

/-- A sibling with built parts. A base that has got a script is an element. -/
def SiblingBuilt (p : CodePoint → Prop) (bare : Prop) : Sibling → Prop
  | .atom n => Built p bare n
  | .scripted base scripts =>
    Built p bare base ∧ base.isElement = true ∧ ScriptsBuilt p bare scripts

theorem scriptsBuilt_single {script : Script} {n : Node} (h : ScriptBuilt p bare n) :
    ScriptsBuilt p bare (.single script n) := by
  cases script <;> exact h

theorem ScriptsBuilt.add? {scripts all : Scripts} {script : Script} {n : Node}
    (h : ScriptsBuilt p bare scripts) (hn : ScriptBuilt p bare n)
    (ha : scripts.add? script n = some all) : ScriptsBuilt p bare all := by
  unfold Scripts.add? at ha
  split at ha
  · cases ha; exact ⟨h, hn⟩
  · cases ha; exact ⟨hn, h⟩
  · cases ha

theorem built_scriptNode {base : Node} {scripts : Scripts} (hb : Built p bare base)
    (he : base.isElement = true) (hs : ScriptsBuilt p bare scripts) :
    Built p bare (scriptNode base scripts) := by
  unfold scriptNode
  split
  · exact .scripts attributesOver_nil hb he hs.1.1 hs.1.2 hs.2.1 hs.2.2
  · refine .script ?_ attributesOver_nil hb he hs.1 hs.2
    cases takesLimits base <;> simp [scriptNames]
  · refine .script ?_ attributesOver_nil hb he hs.1 hs.2
    cases takesLimits base <;> simp [scriptNames]

theorem SiblingBuilt.node {x : Sibling} (h : SiblingBuilt p bare x) : Built p bare x.node := by
  cases x with
  | atom n => exact h
  | scripted base scripts => exact built_scriptNode h.1 h.2.1 h.2.2

theorem siblingBuilt_foldParens {siblings : List Sibling}
    (h : ∀ x ∈ siblings, SiblingBuilt p bare x) :
    ∀ x ∈ foldParens siblings, SiblingBuilt p bare x := by
  unfold foldParens
  split
  · simp
  · split
    · split
      · next n _ =>
        intro x hx
        rcases List.mem_cons.mp hx with rfl | hx
        · refine built_row fun c hc => ?_
          obtain ⟨y, hy, rfl⟩ := List.mem_map.mp (List.mem_reverse.mp hc)
          exact (h y (List.mem_of_mem_take hy)).node
        · exact h x (List.mem_of_mem_drop hx)
      · exact h
    · exact h

/-- Binding a script leaves all siblings built. -/
theorem siblingBuilt_bindScript? {siblings bound : List Sibling} {script : Script} {n : Node}
    (h : ∀ x ∈ siblings, SiblingBuilt p bare x) (hn : ScriptBuilt p bare n)
    (hb : bindScript? script n siblings = some bound) : ∀ x ∈ bound, SiblingBuilt p bare x := by
  unfold bindScript? at hb
  split at hb
  · next base scripts earlier =>
    obtain ⟨all, hall, rfl⟩ := Option.map_eq_some_iff.mp hb
    have hbase := h _ List.mem_cons_self
    intro x hx
    rcases List.mem_cons.mp hx with rfl | hx
    · exact ⟨hbase.1, hbase.2.1, hbase.2.2.add? hn hall⟩
    · exact h x (List.mem_cons_of_mem _ hx)
  · have hfold := siblingBuilt_foldParens h
    split at hb
    · next base earlier heq =>
      cases hb
      rw [heq] at hfold
      have hbase := (hfold base List.mem_cons_self).node
      intro x hx
      rcases List.mem_cons.mp hx with rfl | hx
      · exact ⟨hbase.slot, hbase.isElement_slot, scriptsBuilt_single hn⟩
      · exact hfold x (List.mem_cons_of_mem _ hx)
    · cases hb

theorem built_collapseSiblings {siblings : List Sibling}
    (h : ∀ x ∈ siblings, SiblingBuilt p bare x) : Built p bare (collapseSiblings siblings) := by
  refine built_collapse fun c hc => ?_
  obtain ⟨x, hx, rfl⟩ := List.mem_map.mp (List.mem_reverse.mp hc)
  exact (h x hx).node

/-! ## Tables -/

/-- The rows of a table: there is one, and each has a cell. -/
structure RowsBuilt (p : CodePoint → Prop) (bare : Prop) (rows : List (List Node)) : Prop where
  ne_nil : rows ≠ []
  cells_ne_nil : ∀ cells ∈ rows, cells ≠ []
  built : ∀ cells ∈ rows, ∀ cell ∈ cells, Built p bare cell

theorem rowsBuilt_cons_iff {cells : List Node} {rows : List (List Node)} :
    RowsBuilt p bare (cells :: rows) ↔ (cells ≠ [] ∧ ∀ cell ∈ cells, Built p bare cell) ∧
      ∀ row ∈ rows, row ≠ [] ∧ ∀ cell ∈ row, Built p bare cell := by
  have hiff : RowsBuilt p bare (cells :: rows) ↔
      ∀ row ∈ cells :: rows, row ≠ [] ∧ ∀ cell ∈ row, Built p bare cell :=
    ⟨fun h row hrow => ⟨h.cells_ne_nil row hrow, h.built row hrow⟩,
      fun h => ⟨by simp, fun row hrow => (h row hrow).1, fun row hrow => (h row hrow).2⟩⟩
  rw [hiff, List.forall_mem_cons]

/-- Only a row that is not the first one is dropped. -/
theorem RowsBuilt.dropEmptyRow {rows : List (List Node)} (h : RowsBuilt p bare rows) :
    RowsBuilt p bare (dropEmptyRow rows) := by
  unfold Parser.dropEmptyRow
  split
  · next last row earlier heq =>
    split
    · have hmem : ∀ cells ∈ (row :: earlier).reverse, cells ∈ rows := by
        intro cells hc
        rw [← List.mem_reverse, heq]
        exact List.mem_cons_of_mem _ (List.mem_reverse.mp hc)
      exact ⟨by simp, fun cells hc => h.cells_ne_nil cells (hmem cells hc),
        fun cells hc => h.built cells (hmem cells hc)⟩
    · exact h
  · exact h

theorem built_tableNode {rows : List (List Node)} {columnAlign : Text}
    (h : RowsBuilt p bare rows) (ha : columnAlign.Over p) :
    Built p bare (tableNode rows columnAlign) := by
  refine .table ?_ (by simpa using h.ne_nil) ?_
  · split
    · exact attributesOver_nil
    · exact attributesOver_one (by simp [attributeNames]) ha
  · intro r hr
    obtain ⟨cells, hcells, rfl⟩ := List.mem_map.mp hr
    refine .tableRow attributesOver_nil (by simpa using h.cells_ne_nil cells hcells) ?_
    intro d hd
    obtain ⟨cell, hcell, rfl⟩ := List.mem_map.mp hd
    exact .wrapper (by simp [wrapperNames]) attributesOver_nil (h.built cells hcells cell hcell)

/-! ## Commands -/

/-- A node that is built and an element. -/
def BuiltElement (p : CodePoint → Prop) (bare : Prop) (n : Node) : Prop :=
  Built p bare n ∧ n.isElement = true

/-- A reading makes elements out of built arguments. -/
def Reading.Builds (p : CodePoint → Prop) (bare : Prop) : Reading → Prop
  | .nothing node => BuiltElement p bare node
  | .raw build => ∀ t : Text, t.Over p → BuiltElement p bare (build t)
  | .one build => ∀ n, BuiltElement p bare n → BuiltElement p bare (build n)
  | .two build => ∀ n m, BuiltElement p bare n → BuiltElement p bare m →
    BuiltElement p bare (build n m)
  | .delimiter build => ∀ d : Option Text, (d.getD []).Over p → BuiltElement p bare (build d)
  | .squareRoot | .root | .leftRight | .refused _ => True

theorem builtElement_identifier {content : Text} (hc : content.Over p) :
    BuiltElement p bare (.identifier content) :=
  ⟨built_identifier hc, rfl⟩

theorem builtElement_operator {content : Text} {attributes : Assoc Text Text}
    (hc : content.Over p) (ha : AttributesOver p attributes) :
    BuiltElement p bare (.operator content attributes) :=
  ⟨built_operator hc ha, rfl⟩

theorem builtElement_space {attributes : Assoc Text Text} (ha : AttributesOver p attributes) :
    BuiltElement p bare (.element "mspace" attributes []) :=
  ⟨.space ha, rfl⟩

/-- Parentheses and words among the nodes that a command makes. -/
theorem built_operator_word (hp : ∀ c, Text.IsPlain c → p (.scalar c)) {word : String}
    (hw : word.toList.all (Text.IsPlain ·) = true) :
    Built p bare (.operator (Text.ofString word) []) :=
  built_operator (Text.over_ofString hp hw) attributesOver_nil

theorem over_truthText (hp : ∀ c, Text.IsPlain c → p (.scalar c)) (b : Bool) :
    (Command.truthText b).Over p := by
  cases b <;> exact Text.over_ofString hp (by decide)

theorem builtElement_accentNode (hp : ∀ c, Text.IsPlain c → p (.scalar c)) (t : Token)
    {mark : Text} (h : mark.Over p) : BuiltElement p bare (accentNode t mark) :=
  builtElement_operator h (attributesOver_one (by simp [attributeNames]) (over_truthText hp _))

theorem builtElement_pair {name : Text} {attributes : Assoc Text Text} {n m : Node}
    (hname : name ∈ commandPairNames) (ha : AttributesOver p attributes)
    (hn : BuiltElement p bare n) (hm : BuiltElement p bare m) :
    BuiltElement p bare (.element name attributes [n, m]) :=
  ⟨.pair hname ha hn.1 hn.2 hm.1 hm.2, rfl⟩

theorem builtElement_wrapper {name : Text} {attributes : Assoc Text Text} {n : Node}
    (hname : name ∈ wrapperNames) (ha : AttributesOver p attributes) (hn : Built p bare n) :
    BuiltElement p bare (.element name attributes [n]) :=
  ⟨.wrapper hname ha hn, rfl⟩

/-- Every command makes elements out of built arguments. -/
theorem reading_builds {s : Setup} {tokens : List Token} (hm : Material p s tokens) (t : Token)
    {command : Command} (hc : command.payload.Over p) :
    (reading s t command).Builds p bare := by
  cases command with
  | identifier value => exact builtElement_identifier hc
  | function value => exact builtElement_identifier hc
  | operator value => exact builtElement_operator hc attributesOver_nil
  | fence value =>
    exact builtElement_operator hc
      (attributesOver_word hm.plain (by simp [attributeNames]) (by decide))
  | largeOperator value =>
    exact builtElement_operator hc (attributesOver_words hm.plain (by simp)
      (by simp [attributeNames]) (by decide) (by simp [attributeNames]) (by decide))
  | integral value =>
    exact builtElement_operator hc
      (attributesOver_word hm.plain (by simp [attributeNames]) (by decide))
  | limitFunction value =>
    exact builtElement_operator hc
      (attributesOver_word hm.plain (by simp [attributeNames]) (by decide))
  | space width => exact builtElement_space (attributesOver_one (by simp [attributeNames]) hc)
  | lineBreak =>
    exact builtElement_space (attributesOver_word hm.plain (by simp [attributeNames]) (by decide))
  | sizedSpace =>
    intro raw hraw
    exact builtElement_space (attributesOver_one (by simp [attributeNames]) (hraw.trim _))
  | fraction displayStyle =>
    intro n m hn hm'
    have hfrac : BuiltElement p bare (.element "mfrac" [] [n, m]) :=
      builtElement_pair (by simp [commandPairNames]) attributesOver_nil hn hm'
    cases displayStyle with
    | none => exact hfrac
    | some b =>
      exact builtElement_wrapper (by simp [wrapperNames])
        (attributesOver_one (by simp [attributeNames]) (over_truthText hm.plain b)) hfrac.1
  | binomial =>
    intro n m hn hm'
    have hfrac : BuiltElement p bare (.element "mfrac" [("linethickness", "0")] [n, m]) :=
      builtElement_pair (by simp [commandPairNames])
        (attributesOver_word hm.plain (by simp [attributeNames]) (by decide)) hn hm'
    refine ⟨built_row fun c hcc => ?_, rfl⟩
    simp only [List.mem_cons, List.not_mem_nil, or_false] at hcc
    rcases hcc with rfl | rfl | rfl
    · exact built_operator_word hm.plain (by decide)
    · exact hfrac.1
    · exact built_operator_word hm.plain (by decide)
  | squareRoot => trivial
  | root => trivial
  | style variant =>
    intro n hn
    exact builtElement_wrapper (by simp [wrapperNames])
      (attributesOver_one (by simp [attributeNames]) hc) hn.1
  | text variant =>
    intro raw hraw
    have hcontent : (textOfRaw s raw).Over p := over_textOfRaw (hm.plain ' ' (by decide)) hraw
    refine ⟨built_textElement hcontent ?_, rfl⟩
    split
    · exact attributesOver_nil
    · exact attributesOver_one (by simp [attributeNames]) hc
  | operatorName =>
    intro raw hraw
    exact builtElement_identifier (hraw.trim _)
  | accent mark =>
    intro n hn
    exact builtElement_pair (by simp [commandPairNames])
      (attributesOver_word hm.plain (by simp [attributeNames]) (by decide)) hn
      (builtElement_accentNode hm.plain t hc)
  | underAccent mark =>
    intro n hn
    exact builtElement_pair (by simp [commandPairNames])
      (attributesOver_word hm.plain (by simp [attributeNames]) (by decide)) hn
      (builtElement_accentNode hm.plain t hc)
  | overset =>
    intro n m hn hm'
    exact builtElement_pair (by simp [commandPairNames]) attributesOver_nil hm' hn
  | underset =>
    intro n m hn hm'
    exact builtElement_pair (by simp [commandPairNames]) attributesOver_nil hm' hn
  | enclose shape =>
    intro n hn
    exact builtElement_wrapper (by simp [wrapperNames])
      (attributesOver_one (by simp [attributeNames]) hc) hn.1
  | phantom =>
    intro n hn
    exact builtElement_wrapper (by simp [wrapperNames]) attributesOver_nil hn.1
  | modulus =>
    intro n hn
    refine ⟨built_row fun c hcc => ?_, rfl⟩
    simp only [List.mem_cons, List.not_mem_nil, or_false] at hcc
    rcases hcc with rfl | rfl | rfl | rfl
    · exact built_operator_word hm.plain (by decide)
    · exact built_operator_word hm.plain (by decide)
    · exact hn.1
    · exact built_operator_word hm.plain (by decide)
  | left => trivial
  | middle =>
    intro d hd
    exact builtElement_operator hd
      (attributesOver_word hm.plain (by simp [attributeNames]) (by decide))
  | sized size =>
    intro d hd
    exact builtElement_operator hd (attributesOver_two (by simp) (by simp [attributeNames]) hc
      (by simp [attributeNames]) hc)
  | limits movable => trivial
  | beginEnvironment => trivial
  | closer => trivial

end MathMarkup.Parser
