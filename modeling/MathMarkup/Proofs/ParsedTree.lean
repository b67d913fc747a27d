import MathMarkup.Proofs.Parser.Run
import MathMarkup.Proofs.Parser.Shape
import MathMarkup.Proofs.Xml.Written

/-!
# Parsed trees pass the check

A parse never gives a tree that the check of drafts reports on. Each node of a parsed tree is built
by one of the rules of `Built`, and these give proper names and the number of children that the name
asks for.
-/

namespace MathMarkup

namespace Parser

variable {p : CodePoint → Prop} {bare : Prop}

/-- The children of a built element are built, the text of a leaf aside. -/
theorem Built.of_mem_children {name : Text} {attributes : Assoc Text Text} {children : List Node}
    {c : Node} (h : Built p bare (.element name attributes children)) (hc : c ∈ children) :
    Built p bare c ∨ ∃ content : Text, c = .text content ∧ content.Over p := by
  cases h with
  | leaf hn ha ht => exact Or.inr ⟨_, List.mem_singleton.mp hc, ht⟩
  | space ha => cases hc
  | row ha hb => exact Or.inl (hb c hc)
  | wrapper hn ha hb =>
    rw [List.mem_singleton.mp hc]
    exact Or.inl hb
  | pair hn ha h1 _ h2 _ =>
    simp only [List.mem_cons, List.not_mem_nil, or_false] at hc
    rcases hc with rfl | rfl
    · exact Or.inl h1
    · exact Or.inl h2
  | script hn ha h1 _ h2 _ =>
    simp only [List.mem_cons, List.not_mem_nil, or_false] at hc
    rcases hc with rfl | rfl
    · exact Or.inl h1
    · exact Or.inl h2
  | scripts ha h1 _ h2 _ h3 _ =>
    simp only [List.mem_cons, List.not_mem_nil, or_false] at hc
    rcases hc with rfl | rfl | rfl
    · exact Or.inl h1
    · exact Or.inl h2
    · exact Or.inl h3
  | tableRow ha hne hb => exact Or.inl (hb c hc)
  | table ha hne hb => exact Or.inl (hb c hc)

/-- All below a built node is built, the texts of leaves aside. -/
theorem Built.mem_nodes {n m : Node} (h : Built p bare n) (hm : m ∈ n.nodes) :
    Built p bare m ∨ ∃ content : Text, m = .text content ∧ content.Over p := by
  induction n using Node.inductionOn with
  | text content =>
    rw [Node.mem_nodes_text.mp hm]
    exact Or.inl h
  | element name attributes children ih =>
    rcases Node.mem_nodes_element.mp hm with rfl | ⟨c, hc, hmc⟩
    · exact Or.inl h
    · rcases h.of_mem_children hc with hb | ⟨content, rfl, hcontent⟩
      · exact ih c hc hb hmc
      · exact Or.inr ⟨content, Node.mem_nodes_text.mp hmc, hcontent⟩

/-! ## Names -/

/-- The names of the elements in a parsed tree. -/
def elementNames : List Text :=
  leafNames ++ wrapperNames ++ commandPairNames ++ scriptNames true ++ scriptNames false ++
    ["mspace", "mrow", "munderover", "msubsup", "mtr", "mtable"].map Text.ofString

theorem Built.names {name : Text} {attributes : Assoc Text Text} {children : List Node}
    (h : Built p bare (.element name attributes children)) :
    name ∈ elementNames ∧ AttributesOver p attributes := by
  cases h with
  | leaf hn ha _ => exact ⟨by simp [elementNames, hn], ha⟩
  | space ha => exact ⟨by simp [elementNames], ha⟩
  | row ha _ => exact ⟨by simp [elementNames], ha⟩
  | wrapper hn ha _ => exact ⟨by simp [elementNames, hn], ha⟩
  | pair hn ha _ _ _ _ => exact ⟨by simp [elementNames, hn], ha⟩
  | @script _ _ base _ hn ha _ _ _ _ =>
    refine ⟨?_, ha⟩
    cases hl : takesLimits base <;> rw [hl] at hn <;> simp [elementNames, hn]
  | @scripts _ base _ _ ha _ _ _ _ _ _ =>
    refine ⟨?_, ha⟩
    cases takesLimits base <;> simp [elementNames]
  | tableRow ha _ _ => exact ⟨by simp [elementNames], ha⟩
  | table ha _ _ => exact ⟨by simp [elementNames], ha⟩

/-- The names in a built node are words. -/
theorem Built.plain {n : Node} (h : Built p bare n) : n.Plain := by
  have helements : ∀ name ∈ elementNames,
      Xml.isWord name = true ∧ name ≠ Text.ofString "xmlns" := by decide
  have hattributes : ∀ name ∈ attributeNames,
      Xml.isWord name = true ∧ name ≠ Text.ofString "xmlns" := by decide +kernel
  cases n with
  | text content => trivial
  | element name attributes children =>
    obtain ⟨hname, ha⟩ := h.names
    exact ⟨(helements name hname).1, (helements name hname).2,
      fun a h => (hattributes a.1 (ha.known a h)).1, ha.distinct,
      fun a h => (hattributes a.1 (ha.known a h)).2⟩

theorem Built.hasName_math {n : Node} (h : Built p bare n) : n.hasName "math" = false := by
  have hmath : Text.ofString "math" ∉ elementNames := by
    simp [elementNames, leafNames, wrapperNames, commandPairNames, scriptNames]
  cases n with
  | text content => rfl
  | element name attributes children =>
    refine decide_eq_false fun heq => hmath ?_
    exact heq ▸ h.names.1

/-! ## Numbers of children -/

/-- As many children as a name asks for. -/
def Fits (name : Text) (count : Nat) : Prop :=
  (name ∈ Node.pairNames → count = 2) ∧ (name ∈ Node.tripleNames → count = 3) ∧
    (name ∈ Node.filledNames → 1 ≤ count)

/-- A name that asks for no number of children. -/
def isFree (name : Text) : Bool :=
  !Node.pairNames.contains name && !Node.tripleNames.contains name &&
    !Node.filledNames.contains name

/-- The names that ask for a number of children, one by one. -/
@[simp] theorem isFree_ofString (s : String) : isFree (Text.ofString s) = true ↔
    s ∉ ["mfrac", "msub", "msup", "munder", "mover", "mroot", "msubsup", "munderover", "mtable",
      "mtr"] := by
  simp [isFree, Node.pairNames, Node.tripleNames, Node.filledNames, and_assoc]

theorem fits_of_isFree {name : Text} (h : isFree name = true) (count : Nat) : Fits name count := by
  simp only [isFree, Bool.and_eq_true, Bool.not_eq_true', List.contains_eq_mem,
    decide_eq_false_iff_not] at h
  exact ⟨fun hn => absurd hn h.1.1, fun hn => absurd hn h.1.2, fun hn => absurd hn h.2⟩

theorem fits_pair {name : Text} (h : name ∈ Node.pairNames) : Fits name 2 := by
  have apart : ∀ n ∈ Node.pairNames, n ∉ Node.tripleNames := by
    simp [Node.pairNames, Node.tripleNames]
  exact ⟨fun _ => rfl, fun hn => absurd hn (apart name h), fun _ => by decide⟩

theorem fits_filled {name : Text} (h : name ∈ Node.filledNames) {count : Nat} (hc : 1 ≤ count) :
    Fits name count := by
  have apart : ∀ n ∈ Node.filledNames, n ∉ Node.pairNames ∧ n ∉ Node.tripleNames := by
    simp [Node.pairNames, Node.tripleNames, Node.filledNames]
  exact ⟨fun hn => absurd hn (apart name h).1, fun hn => absurd hn (apart name h).2, fun _ => hc⟩

theorem Built.fits {name : Text} {attributes : Assoc Text Text} {children : List Node}
    (h : Built p bare (.element name attributes children)) : Fits name children.length := by
  cases h with
  | leaf hn _ _ =>
    have all : ∀ n ∈ leafNames, isFree n = true := by simp [leafNames]
    exact fits_of_isFree (all name hn) _
  | space _ => exact fits_of_isFree (by simp) _
  | row _ _ => exact fits_of_isFree (by simp) _
  | wrapper hn _ _ =>
    have all : ∀ n ∈ wrapperNames, isFree n = true := by simp [wrapperNames]
    exact fits_of_isFree (all name hn) _
  | pair hn _ _ _ _ _ =>
    have all : ∀ n ∈ commandPairNames, n ∈ Node.pairNames := by
      simp [commandPairNames, Node.pairNames]
    exact fits_pair (all name hn)
  | script hn _ _ _ _ _ =>
    have all : ∀ limits, ∀ n ∈ scriptNames limits, n ∈ Node.pairNames := by
      simp [scriptNames, Node.pairNames]
    exact fits_pair (all _ name hn)
  | @scripts _ base _ _ _ _ _ _ _ _ _ =>
    have apart : (if takesLimits base then Text.ofString "munderover" else "msubsup") ∉
        Node.pairNames := by
      cases takesLimits base <;> simp [Node.pairNames]
    exact ⟨fun hn => absurd hn apart, fun _ => rfl, fun _ => by simp⟩
  | tableRow _ hne _ => exact fits_filled (by simp [Node.filledNames]) (List.length_pos_iff.mpr hne)
  | table _ hne _ => exact fits_filled (by simp [Node.filledNames]) (List.length_pos_iff.mpr hne)

/-- A built node is sound. -/
theorem Built.sound {n : Node} (h : Built p bare n) : n.Sound := by
  have helements : ∀ name ∈ elementNames, Xml.isNameLine name = true := by decide
  have hattributes : ∀ name ∈ attributeNames, Xml.isNameLine name = true := by decide
  cases n with
  | text content => trivial
  | element name attributes children =>
    obtain ⟨hname, ha⟩ := h.names
    exact ⟨helements name hname, fun a hmem => hattributes a.1 (ha.known a hmem), h.fits⟩

/-- A property of built nodes that texts have too is had by all below a built node. -/
theorem Built.forall_nodes {q : Node → Prop} {n : Node} (h : Built p bare n)
    (hbuilt : ∀ m, Built p bare m → q m)
    (htext : ∀ content : Text, content.Over p → q (.text content)) : ∀ m ∈ n.nodes, q m := by
  intro m hm
  rcases h.mem_nodes hm with hbm | ⟨content, rfl, hcontent⟩
  · exact hbuilt m hbm
  · exact htext content hcontent

/-- The trees of parses are built, whatever the code points are made of. -/
theorem built_of_parse {grammar : Grammar} {options : Options} {source : Text} {node : Node}
    (hm : Material p ⟨grammar, options, source⟩ (Token.tokenize source))
    (hs : ScriptsFilled ⟨grammar, options, source⟩ (Token.tokenize source) bare)
    (h : (parse grammar options source).value = .ok node) : Built p bare node := by
  obtain ⟨done, hd, rfl⟩ := derives_of_parse h
  exact built_collapseSiblings (hd.built hm hs List.infix_rfl)

end Parser

/-- A parsed tree has no report: at every depth names are proper, elements of two or three children
have so many, and no table or row is empty. -/
theorem check_of_parse (symbols : Symbol.Table) (options : Options) (source : Text) (node : Node)
    (h : (parse (Grammar.ofSymbols symbols).value options source).value = .ok node) :
    Draft.check (.ofNode node) = .ok ⟨[], []⟩ ∧ ∀ m ∈ node.nodes, m.Sound := by
  have hb : Parser.Built (fun _ => True) True node :=
    Parser.built_of_parse (material_true _ _) (fun _ _ _ _ _ _ => Or.inr trivial) h
  have hsound : ∀ m ∈ node.nodes, m.Sound :=
    hb.forall_nodes (fun _ hm => hm.sound) fun _ _ => trivial
  exact ⟨(Draft.check_ofNode_iff node).mpr hsound, hsound⟩

/-- A fraction of a number with two scripts, over nothing. -/
theorem check_of_parse_fraction :
    (parse (Grammar.ofSymbols ⟨fun _ => []⟩).value {}
      (Text.ofString "\\frac\x7b1_2^3\x7d\x7b\x7d")).value = .ok (.element "mfrac" []
        [.element "msubsup" [] [.number "1", .number "2", .number "3"], .row []]) ∧
    Draft.check (.ofNode (.element "mfrac" []
        [.element "msubsup" [] [.number "1", .number "2", .number "3"], .row []])) =
      .ok ⟨[], []⟩ := by
  have h : (parse (Grammar.ofSymbols ⟨fun _ => []⟩).value {}
      (Text.ofString "\\frac\x7b1_2^3\x7d\x7b\x7d")).value = .ok (.element "mfrac" []
        [.element "msubsup" [] [.number "1", .number "2", .number "3"], .row []]) := by
    rw [Grammar.ofSymbols_nil]
    decide +kernel
  exact ⟨h, (check_of_parse _ _ _ _ h).1⟩

end MathMarkup
