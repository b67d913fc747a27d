import MathMarkup.Proofs.Document
import MathMarkup.Proofs.Xml.Decoder

/-!
# Serialized trees can be told apart

A tree is serialized as it is written, except that a root named `math` gets its namespace and its
display attribute from the writer (`Node.rooted`). One reader gives every serialized tree back with
its texts merged, and so two trees are serialized alike exactly if they agree once their texts are
merged (`serialize_uniquely_readable`).
-/

namespace MathMarkup

namespace Node

variable {display : Bool} {n : Node}

/-- The attributes of a root named `math`: those of the writer, and behind them those of its own
that have other keys. -/
def mathAttributes (display : Bool) (attributes : Assoc Text Text) : Assoc Text Text :=
  rootAttributes display ++ attributes.filter fun a =>
    a.1 ≠ Text.ofString "xmlns" && a.1 ≠ Text.ofString "display"

/-- A tree as the root of a document. -/
def rooted (display : Bool) : Node → Node
  | .text content => .text content
  | .element name attributes children =>
    .element name
      (if name = Text.ofString "math" then mathAttributes display attributes else attributes)
      children

theorem Named.writable (h : n.Named) : n.Writable := by
  cases n with
  | text content => trivial
  | element name attributes children => exact Xml.isName_ne_nil h.1

/-- The attributes of the writer have names, too. -/
theorem named_rooted (display : Bool) (h : ∀ m ∈ n.nodes, m.Named) :
    ∀ m ∈ (n.rooted display).nodes, m.Named := by
  cases n with
  | text content => exact h
  | element name attributes children =>
    obtain ⟨hname, hkeys⟩ := h _ (mem_nodes_self _)
    have hmath : ∀ a ∈ mathAttributes display attributes, Xml.isName a.1 = true := by
      have hroot : ∀ a ∈ rootAttributes display, Xml.isName a.1 = true := by
        cases display <;> decide
      exact List.forall_mem_append.mpr ⟨hroot, fun a ha => hkeys a (List.mem_of_mem_filter ha)⟩
    intro m hm
    rcases mem_nodes_element.mp hm with rfl | hbelow
    · refine ⟨hname, ?_⟩
      split
      · exact hmath
      · exact hkeys
    · exact h m (mem_nodes_element.mpr (Or.inr hbelow))

end Node

/-- What the writer makes of the attributes of a root. -/
theorem writtenAttributes_ofNode (display : Bool) (name : Text) (attributes : Assoc Text Text) :
    Draft.writtenAttributes (some display) name
      (.mapping (attributes.map fun a => (.text a.1, .text a.2))) =
      .ok ((if name = Text.ofString "math" then Node.mathAttributes display attributes
        else attributes).map fun a => (.text a.1, .text a.2)) := by
  by_cases hmath : name = Text.ofString "math"
  · simp [Draft.writtenAttributes, hmath, Draft.rootAttributes, Node.mathAttributes, rootAttributes,
      List.filter_map, Function.comp_def]
  · simp [Draft.writtenAttributes, hmath]

/-- A tree is serialized as it is written as a root. -/
theorem serialize_ofNode (display : Bool) {n : Node} (h : ∀ m ∈ n.nodes, m.Writable) :
    Draft.serialize display (.ofNode n) = .ok (n.rooted display).written := by
  cases n with
  | text content => rfl
  | element name attributes children =>
    exact Draft.write_element (h _ (Node.mem_nodes_self _))
      (writtenAttributes_ofNode display name attributes) fun c hc =>
        Draft.write_ofNode fun m hm => h m (Node.mem_nodes_element.mpr (Or.inr ⟨c, hc, hm⟩))

/-- What is serialized of a tree with proper names is read back as the tree that was written, with
its texts merged and its attributes in order. So two trees are serialized alike exactly if they
agree once their texts are merged. -/
theorem serialize_uniquely_readable (display display' : Bool) (n n' : Node)
    (h : ∀ m ∈ n.nodes, m.Named) (h' : ∀ m ∈ n'.nodes, m.Named) :
    (∃ t, Draft.serialize display (.ofNode n) = .ok t ∧
      Xml.decode? t = some (n.rooted display).merged) ∧
    (∀ m ∈ (n.rooted display).merged.nodes, m.Separated) ∧
    (Draft.serialize display (.ofNode n) = Draft.serialize display' (.ofNode n') ↔
      (n.rooted display).merged = (n'.rooted display').merged) := by
  have hwritten := serialize_ofNode display fun m hm => (h m hm).writable
  have hwritten' := serialize_ofNode display' fun m hm => (h' m hm).writable
  have hread := Xml.decode?_written (Node.named_rooted display h)
  have hread' := Xml.decode?_written (Node.named_rooted display' h')
  refine ⟨⟨_, hwritten, hread⟩, Node.separated_merged _, ?_⟩
  rw [hwritten, hwritten', Except.ok.injEq]
  constructor
  · intro heq
    rw [heq, hread'] at hread
    exact (Option.some.inj hread).symm
  · intro heq
    rw [← Xml.written_of_decode? hread, ← Xml.written_of_decode? hread', heq]

/-- A root with a display attribute of its own, which is lost, and with an ampersand in two texts
and an empty text between them. -/
theorem serialize_uniquely_readable_root :
    (∀ m ∈ (Node.element "math" [("display", "none"), ("id", "\"")]
      [.text "a&", .text [], .text "lt;", .element "mi" [] []]).nodes, m.Named) ∧
    (∀ m ∈ (Node.element "math" [("id", "\"")]
      [.text "a&lt;", .element "mi" [] []]).nodes, m.Named) ∧
    (∃ t, Draft.serialize true (.ofNode (.element "math" [("display", "none"), ("id", "\"")]
        [.text "a&", .text [], .text "lt;", .element "mi" [] []])) = .ok t ∧
      Xml.decode? t = some (.element "math"
        [("xmlns", Markup.namespaceName), ("display", "block"), ("id", "\"")]
        [.text "a&lt;", .element "mi" [] []])) ∧
    Draft.serialize true (.ofNode (.element "math" [("display", "none"), ("id", "\"")]
      [.text "a&", .text [], .text "lt;", .element "mi" [] []])) =
      Draft.serialize true (.ofNode (.element "math" [("id", "\"")]
        [.text "a&lt;", .element "mi" [] []])) := by
  have h : ∀ m ∈ (Node.element "math" [("display", "none"), ("id", "\"")]
      [.text "a&", .text [], .text "lt;", .element "mi" [] []]).nodes, m.Named := by
    decide
  have h' : ∀ m ∈ (Node.element "math" [("id", "\"")]
      [.text "a&lt;", .element "mi" [] []]).nodes, m.Named := by
    decide
  obtain ⟨hread, _, hiff⟩ := serialize_uniquely_readable true true _ _ h h'
  exact ⟨h, h', hread, hiff.mpr (by decide)⟩

end MathMarkup
