import MathMarkup.Proofs.Assoc
import MathMarkup.Proofs.Parser.PairedRun
import MathMarkup.Proofs.Tree

/-!
# Tracing leaves the tree as it is

When a parse is traced its elements are marked with the offset at which they start. Nothing that the
parser asks of a node depends on its mark, so that a traced run and a plain one go the same way, and
their trees differ in the marks only.
-/

namespace MathMarkup

namespace Node

mutual

/-- The node without the marks of where its elements start. -/
def unmarked : Node → Node
  | .text content => .text content
  | .element name attributes children =>
    .element name (attributes.without "data-offset") (unmarkedAll children)

/-- Nodes without their marks. -/
def unmarkedAll : List Node → List Node
  | [] => []
  | c :: rest => c.unmarked :: unmarkedAll rest

end

theorem unmarkedAll_eq_map (children : List Node) :
    unmarkedAll children = children.map unmarked := by
  induction children with
  | nil => rfl
  | cons c rest ih => rw [unmarkedAll, ih, List.map_cons]

theorem unmarked_element (name : Text) (attributes : Assoc Text Text) (children : List Node) :
    (element name attributes children).unmarked =
      .element name (attributes.without "data-offset") (children.map unmarked) := by
  rw [unmarked, unmarkedAll_eq_map]

/-! ## What is asked of a node -/

@[simp] theorem isEmpty_unmarked (n : Node) : n.unmarked.isEmpty = n.isEmpty := by
  cases n <;> rfl

@[simp] theorem hasName_unmarked (name : Text) (n : Node) :
    n.unmarked.hasName name = n.hasName name := by
  cases n <;> rfl

theorem attribute?_unmarked_of_ne {key : Text} (h : Text.ofString "data-offset" ≠ key) (n : Node) :
    n.unmarked.attribute? key = n.attribute? key := by
  cases n with
  | text content => rfl
  | element name attributes children => exact Assoc.get?_without_of_ne h attributes

@[simp] theorem innerText_unmarked (n : Node) : n.unmarked.innerText = n.innerText := by
  induction n using inductionOn with
  | text content => rfl
  | element name attributes children ih =>
    rw [unmarked_element, innerText, innerText, innerTexts_eq_flatMap, innerTexts_eq_flatMap,
      List.flatMap_map]
    exact List.flatMap_congr ih

/-! ## Attributes that are set -/

theorem unmarked_setAttribute {key : Text} (h : Text.ofString "data-offset" ≠ key) (value : Text)
    (n : Node) : (n.setAttribute key value).unmarked = n.unmarked.setAttribute key value := by
  cases n with
  | text content => rfl
  | element name attributes children =>
    simp only [setAttribute, unmarked, Assoc.without_insert_of_ne h]

theorem unmarked_addAttribute (value : Text) (n : Node) :
    (n.addAttribute "data-offset" value).unmarked = n.unmarked := by
  cases n with
  | text content => rfl
  | element name attributes children =>
    simp only [addAttribute, unmarked, Assoc.without_insertNew]

/-- No mark is left. -/
theorem attribute?_of_mem_unmarked {n m : Node} (hm : m ∈ n.unmarked.nodes) :
    m.attribute? "data-offset" = none := by
  induction n using inductionOn with
  | text content =>
    rw [mem_nodes_text.mp hm]
    rfl
  | element name attributes children ih =>
    rw [unmarked_element, mem_nodes_element] at hm
    rcases hm with rfl | ⟨_, hchild, hm⟩
    · exact Assoc.get?_without_self _ attributes
    · obtain ⟨c, hc, rfl⟩ := List.mem_map.mp hchild
      exact ih c hc hm

end Node

namespace Parser

variable {tokens : List Token}

/-! ## Traced and plain nodes -/

/-- Each mark in the node is the offset of one of the tokens. -/
def MarkedBy (tokens : List Token) (n : Node) : Prop :=
  ∀ m ∈ n.nodes, ∀ mark, m.attribute? "data-offset" = some mark →
    ∃ t ∈ tokens, mark = Text.ofInt t.offset

theorem markedBy_element_iff {name : Text} {attributes : Assoc Text Text} {children : List Node} :
    MarkedBy tokens (.element name attributes children) ↔
      (∀ mark, attributes.get? (Text.ofString "data-offset") = some mark →
        ∃ t ∈ tokens, mark = Text.ofInt t.offset) ∧ ∀ c ∈ children, MarkedBy tokens c := by
  simp only [MarkedBy, Node.mem_nodes_element]
  constructor
  · intro h
    exact ⟨h _ (Or.inl rfl), fun c hc m hm => h m (Or.inr ⟨c, hc, hm⟩)⟩
  · rintro ⟨hown, hbelow⟩ m (rfl | ⟨c, hc, hm⟩)
    · exact hown
    · exact hbelow c hc m hm

/-- A node of a traced run and the one of a plain run. -/
structure Traced (tokens : List Token) (n n' : Node) : Prop where
  plain : n' = n.unmarked
  marks : MarkedBy tokens n

theorem traced_children {children children' : List Node}
    (h : List.Forall₂ (Traced tokens) children children') :
    children' = children.map Node.unmarked ∧ ∀ c ∈ children, MarkedBy tokens c := by
  induction h with
  | nil => exact ⟨rfl, by simp⟩
  | cons hc _ ih =>
    refine ⟨by rw [List.map_cons, hc.plain, ih.1], fun c hmem => ?_⟩
    rcases List.mem_cons.mp hmem with rfl | hmem
    · exact hc.marks
    · exact ih.2 c hmem

/-- A mark is looked at by nothing. -/
theorem fitting_traced (tokens : List Token) : Fitting (Traced tokens) where
  text content := by
    refine ⟨rfl, fun m hm mark hmark => ?_⟩
    rw [Node.mem_nodes_text.mp hm] at hmark
    cases hmark
  element name attributes children children' ha hc := by
    obtain ⟨hplain, hmarks⟩ := traced_children hc
    refine ⟨?_, markedBy_element_iff.mpr ⟨fun mark hmark => ?_, hmarks⟩⟩
    · rw [Node.unmarked_element, Assoc.without_eq_self ha, hplain]
    · rw [ha] at hmark
      cases hmark
  isEmpty h := by rw [h.plain, Node.isEmpty_unmarked]
  hasName h := by rw [h.plain, Node.hasName_unmarked]
  takesLimits h := by
    have hne : Text.ofString "data-offset" ≠ Text.ofString "movablelimits" := by decide
    simp only [takesLimits, h.plain, Node.hasName_unmarked, Node.attribute?_unmarked_of_ne hne]
  isParen h paren _ := by
    simp only [isParen, h.plain, Node.hasName_unmarked, Node.innerText_unmarked]
  setLimits := by
    rintro n _ ⟨rfl, hmarks⟩ value
    have hne : Text.ofString "data-offset" ≠ Text.ofString "movablelimits" := by decide
    refine ⟨(Node.unmarked_setAttribute hne value n).symm, ?_⟩
    cases n with
    | text content => exact hmarks
    | element name attributes children =>
      rw [markedBy_element_iff] at hmarks
      refine markedBy_element_iff.mpr ⟨fun mark hmark => hmarks.1 mark ?_, hmarks.2⟩
      rwa [Assoc.get?_insert_of_ne hne.symm] at hmark

/-- A node marked with the offset of a token. -/
theorem Traced.addAttribute {n n' : Node} (h : Traced tokens n n') {t : Token} (ht : t ∈ tokens) :
    Traced tokens (n.addAttribute "data-offset" (Text.ofInt t.offset)) n' := by
  obtain ⟨rfl, hmarks⟩ := h
  refine ⟨(Node.unmarked_addAttribute _ n).symm, ?_⟩
  cases n with
  | text content => exact hmarks
  | element name attributes children =>
    rw [markedBy_element_iff] at hmarks
    refine markedBy_element_iff.mpr ⟨fun mark hmark => ?_, hmarks.2⟩
    unfold Assoc.insertNew at hmark
    -- An element that has a mark keeps it.
    split at hmark
    · exact hmarks.1 mark hmark
    · next hnone =>
      rw [Assoc.get?_append, hnone] at hmark
      cases hmark
      exact ⟨t, ht, rfl⟩

/-! ## Traced and plain runs -/

/-- A traced run on the left, a plain one on the right, and no failure is excused. -/
def tracing (tokens : List Token) : Pairing where
  left := fun _ => False
  right := fun _ => False
  node := Traced tokens
  tokens := tokens

theorem relates_tracing (tokens : List Token) (grammar : Grammar) (options : Options)
    (source : Text) :
    Relates (tracing tokens) ⟨grammar, { options with debugMode := .bool true }, source⟩
      ⟨grammar, { options with debugMode := .bool false }, source⟩ where
  closed := Or.inl ⟨rfl, rfl⟩
  fitting := fitting_traced tokens
  grammar := rfl
  raw _ _ _ := rfl
  commandText _ _ h := h.symm
  columns h := by rw [h]
  unknownCommand _ _ _ := Or.inl rfl
  unknownEnvironment _ _ _ _ := Or.inl rfl
  textNode variant raw := by
    refine (fitting_traced tokens).leaf "mtext" _ ?_
    split <;> rfl
  placedNode ht h := h.addAttribute ht

/-- A traced parse and a plain one go the same way. -/
theorem agree_tracing (grammar : Grammar) (options : Options) (source : Text)
    (tokens : List Token) :
    Agree (tracing tokens) Never
      (expression ⟨grammar, { options with debugMode := .bool true }, source⟩ noStop)
      (expression ⟨grammar, { options with debugMode := .bool false }, source⟩ noStop)
      { rest := tokens } { rest := tokens } fun n _ n' _ => Traced tokens n n' :=
  agree_same (relates_tracing tokens grammar options source) ⟨rfl, rfl⟩ rfl rfl
    (map_moved_eq_self fun _ _ => rfl)

end Parser

/-- Tracing never changes the shape of a tree. A traced parse and a plain one fail with the same
error, or the plain tree is the traced one without its marks. The plain tree has no marks, and those
of the traced one are offsets of tokens. -/
theorem parse_debugMode (grammar : Grammar) (options : Options) (source : Text) :
    (parse grammar { options with debugMode := .bool false } source).value =
        (parse grammar { options with debugMode := .bool true } source).value.map Node.unmarked ∧
      (∀ node, (parse grammar { options with debugMode := .bool false } source).value = .ok node →
        ∀ n ∈ node.nodes, n.attribute? "data-offset" = none) ∧
      ∀ node, (parse grammar { options with debugMode := .bool true } source).value = .ok node →
        ∀ n ∈ node.nodes, ∀ mark, n.attribute? "data-offset" = some mark →
          ∃ t ∈ Token.tokenize source, mark = Text.ofInt t.offset := by
  have hruns := Parser.agree_tracing grammar options source (Token.tokenize source)
  rw [Parser.value_parse, Parser.value_parse]
  cases htraced : (Parser.expression ⟨grammar, { options with debugMode := .bool true }, source⟩
      Parser.noStop).run { rest := Token.tokenize source } with
  | ok node d =>
    have hplain := hruns.right_outcome htraced
    obtain ⟨_, d', hrun, rfl, hmarks⟩ := hplain.exists_eq_ok
    rw [hrun]
    refine ⟨rfl, ?_, ?_⟩
    · rintro _ ⟨⟩ n hn
      exact Node.attribute?_of_mem_unmarked hn
    · rintro _ ⟨⟩
      exact hmarks
  | error e d =>
    cases hplain : (Parser.expression
        ⟨grammar, { options with debugMode := .bool false }, source⟩ Parser.noStop).run
        { rest := Token.tokenize source } with
    | ok node' d' => exact (hruns.error_ok htraced hplain).elim
    | error e' d' =>
      obtain rfl : e' = e := by simpa [Parser.tracing] using hruns.error_error htraced hplain
      exact ⟨rfl, nofun, nofun⟩

/-- The elements that a token starts are marked, and that of a script is not. -/
theorem parse_debugMode_squareRoot :
    (parse (Grammar.ofSymbols ⟨fun _ => []⟩).value { debugMode := .bool true }
      "\\sqrt\x7bb_c\x7d").value =
      .ok (.element "msqrt" [("data-offset", "0")] [.element "msub" []
        [.leaf "mi" "b" [("data-offset", "6")], .leaf "mi" "c" [("data-offset", "8")]]]) ∧
    (parse (Grammar.ofSymbols ⟨fun _ => []⟩).value { debugMode := .bool false }
      "\\sqrt\x7bb_c\x7d").value =
      .ok (.element "msqrt" [] [.element "msub" [] [.identifier "b", .identifier "c"]]) := by
  have htraced : (parse (Grammar.ofSymbols ⟨fun _ => []⟩).value { debugMode := .bool true }
      "\\sqrt\x7bb_c\x7d").value =
      .ok (.element "msqrt" [("data-offset", "0")] [.element "msub" []
        [.leaf "mi" "b" [("data-offset", "6")], .leaf "mi" "c" [("data-offset", "8")]]]) := by
    rw [Grammar.ofSymbols_nil]
    decide +kernel
  refine ⟨htraced, ?_⟩
  have hplain := (parse_debugMode (Grammar.ofSymbols ⟨fun _ => []⟩).value {}
    "\\sqrt\x7bb_c\x7d").1
  rw [htraced] at hplain
  exact hplain

end MathMarkup
