import MathMarkup.Proofs.ParsedTree

/-!
# Where scripts stand

Scripts stand below and above an operator with movable limits, and to the side of any other base.
Whether limits are movable is decided when a script is bound. In the tree that a parse gives the
element of the scripts still agrees with its base, at every depth (`limitsPlaced_of_parse`): a base
is never changed once it has a script.
-/

namespace MathMarkup

namespace Node

/-- An operator with movable limits. -/
def IsMovable (n : Node) : Prop :=
  ∃ attributes children, n = .element "mo" attributes children ∧
    attributes.get? (Text.ofString "movablelimits") = some (Text.ofString "true")

/-- The elements whose scripts stand to the side of the base. -/
def sideNames : List Text :=
  ["msub", "msup", "msubsup"].map Text.ofString

/-- An element of scripts has the base that its name asks for. -/
def LimitsPlaced : Node → Prop
  | .text _ => True
  | .element name _ children =>
    (name ∈ sideNames → ∃ base rest, children = base :: rest ∧ ¬base.IsMovable) ∧
      (name = "munderover" → ∃ base rest, children = base :: rest ∧ base.IsMovable)

variable {name : Text} {attributes : Assoc Text Text} {children : List Node}

theorem limitsPlaced_of_free (hside : name ∉ sideNames) (hlimits : name ≠ "munderover") :
    LimitsPlaced (.element name attributes children) :=
  ⟨fun h => absurd h hside, fun h => absurd h hlimits⟩

end Node

namespace Parser

theorem takesLimits_iff {base : Node} : takesLimits base = true ↔ base.IsMovable := by
  cases base with
  | text content => simp [takesLimits, Node.hasName, Node.IsMovable]
  | element name attributes children =>
    simp only [takesLimits, Node.hasName, Node.attribute?, Bool.and_eq_true, decide_eq_true_eq]
    constructor
    · rintro ⟨rfl, hmovable⟩
      exact ⟨_, _, rfl, of_decide_eq_true hmovable⟩
    · rintro ⟨_, _, heq, hmovable⟩
      cases heq
      exact ⟨rfl, decide_eq_true hmovable⟩

variable {p : CodePoint → Prop} {bare : Prop}

/-- A built node of scripts has the base that its name asks for. -/
theorem Built.limitsPlaced {n : Node} (h : Built p bare n) : n.LimitsPlaced := by
  have free : ∀ {names : List Text}, (∀ n ∈ names, n ∉ Node.sideNames ∧ n ≠ "munderover") →
      ∀ {name attributes children}, name ∈ names →
        Node.LimitsPlaced (.element name attributes children) :=
    fun hnames _ _ _ hname => Node.limitsPlaced_of_free (hnames _ hname).1 (hnames _ hname).2
  cases h with
  | nothing => trivial
  | leaf hname => exact free (by simp [leafNames, Node.sideNames]) hname
  | wrapper hname => exact free (by simp [wrapperNames, Node.sideNames]) hname
  | pair hname => exact free (by simp [commandPairNames, Node.sideNames]) hname
  | space | row | tableRow | table =>
    exact Node.limitsPlaced_of_free (by simp [Node.sideNames]) (by simp)
  | @script name _ base argument hname =>
    cases hlimits : takesLimits base with
    | true =>
      rw [hlimits] at hname
      exact free (by simp [scriptNames, Node.sideNames]) hname
    | false =>
      have hbase : ¬base.IsMovable := by simp [← takesLimits_iff, hlimits]
      have hlower : ∀ n ∈ scriptNames false, n ≠ "munderover" := by simp [scriptNames]
      rw [hlimits] at hname
      exact ⟨fun _ => ⟨base, [argument], rfl, hbase⟩, fun h => absurd h (hlower name hname)⟩
  | @scripts _ base sub sup =>
    cases hlimits : takesLimits base with
    | true =>
      refine ⟨fun h => absurd h (by simp [Node.sideNames]), fun _ => ?_⟩
      exact ⟨base, [sub, sup], rfl, takesLimits_iff.mp hlimits⟩
    | false =>
      have hbase : ¬base.IsMovable := by simp [← takesLimits_iff, hlimits]
      exact ⟨fun _ => ⟨base, [sub, sup], rfl, hbase⟩, fun h => absurd h (by simp)⟩

end Parser

/-- In a parsed tree no base with a script to its side is an operator with movable limits, and each
base between two limits is one. -/
theorem limitsPlaced_of_parse (symbols : Symbol.Table) (options : Options) (source : Text)
    (node : Node)
    (h : (parse (Grammar.ofSymbols symbols).value options source).value = .ok node) :
    ∀ m ∈ node.nodes, m.LimitsPlaced := by
  have hb : Parser.Built (fun _ => True) True node :=
    Parser.built_of_parse (material_true _ _) (fun _ _ _ _ _ _ => Or.inr trivial) h
  exact hb.forall_nodes (fun _ hm => hm.limitsPlaced) fun _ _ => trivial

/-- A table with one symbol, a sum. -/
def sumTable : Symbol.Table where
  mapping
    | .largeOperators => [("\\sum", "S")]
    | _ => []

theorem value_ofSymbols_sumTable : (Grammar.ofSymbols sumTable).value =
    ⟨("\\sum", .largeOperator "S") :: Command.structural, Environment.table, []⟩ := by
  have hcommands : Command.categoryOrder.flatMap (Command.ofCategory sumTable) =
      [(Text.ofString "\\sum", Command.largeOperator "S")] := rfl
  exact Grammar.value_ofSymbols hcommands (by simp [Command.structural])

/-- A sum with limits, and one whose limits are moved to its side before it has a script. -/
theorem limitsPlaced_of_parse_sums :
    (parse (Grammar.ofSymbols sumTable).value {} "\\sum_1^2\\sum\\nolimits_3").value =
      .ok (.row [
        .element "munderover" []
          [.operator "S" [("largeop", "true"), ("movablelimits", "true")], .number "1",
            .number "2"],
        .element "msub" []
          [.operator "S" [("largeop", "true"), ("movablelimits", "false")], .number "3"]]) ∧
    Node.LimitsPlaced (.element "msub" []
      [.operator "S" [("largeop", "true"), ("movablelimits", "false")], .number "3"]) := by
  have h : (parse (Grammar.ofSymbols sumTable).value {} "\\sum_1^2\\sum\\nolimits_3").value =
      .ok (.row [
        .element "munderover" []
          [.operator "S" [("largeop", "true"), ("movablelimits", "true")], .number "1",
            .number "2"],
        .element "msub" []
          [.operator "S" [("largeop", "true"), ("movablelimits", "false")], .number "3"]]) := by
    rw [value_ofSymbols_sumTable]
    decide +kernel
  refine ⟨h, limitsPlaced_of_parse _ _ _ _ h _ ?_⟩
  exact Node.mem_nodes_element.mpr (Or.inr ⟨_, List.mem_cons_of_mem _ List.mem_cons_self,
    Node.mem_nodes_self _⟩)

end MathMarkup
