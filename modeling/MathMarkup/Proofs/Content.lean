import MathMarkup.Proofs.Document
import MathMarkup.Proofs.Material
import MathMarkup.Proofs.TreeHeight

/-!
# What written documents hold

A written document is made of plain characters and of the code points in the texts and attribute
values of its tree (`over_documentText`). So it can be told from the tree whether the document is
read back: all texts and values are made of code points that a document may hold, and no element
lies deeper than the limit (`Node.legible_iff`).
-/

namespace MathMarkup

variable {p : CodePoint → Prop}

/-! ## Texts -/

namespace Text

theorem Over.cons {c : CodePoint} {t : Text} (hc : p c) (h : Over p t) : Over p (c :: t) :=
  List.forall_mem_cons.mpr ⟨hc, h⟩

theorem over_word (hp : ∀ c, IsPlain c → p (.scalar c)) {w : Text} (h : Xml.isWord w = true) :
    Over p w := by
  refine over_of_isPlainScalar hp fun c hc => ?_
  have hn := Xml.isWord_toNat h hc
  cases c with
  | scalar d =>
    simp only [CodePoint.toNat] at hn
    exact decide_eq_true ⟨by omega, by omega⟩
  | surrogate n =>
    simp only [CodePoint.toNat] at hn
    omega

/-- Escaping adds plain characters only. -/
theorem Over.escape (hp : ∀ c, IsPlain c → p (.scalar c)) {t : Text} (h : Over p t) :
    Over p (Xml.escape t) := by
  induction t with
  | nil => exact h
  | cons c t ih =>
    rw [Xml.escape_cons]
    refine Over.append ?_ (ih fun d hd => h d (List.mem_cons_of_mem _ hd))
    rcases Xml.escape_singleton c with ⟨e, he, _, heq⟩ | ⟨_, heq⟩
    · have hplain : ∀ e ∈ Xml.entities, ∀ d ∈ CodePoint.scalar '&' :: (ofString e.2 ++
          [CodePoint.scalar ';']), isPlainScalar d = true := by decide
      rw [heq]
      exact over_of_isPlainScalar hp (hplain e he)
    · rw [heq]
      exact Over.cons (h c List.mem_cons_self) over_nil

theorem Over.attributesText (hp : ∀ c, IsPlain c → p (.scalar c)) {attributes : List (Text × Text)}
    (hk : ∀ a ∈ attributes, Xml.isWord a.1 = true) (hv : ∀ a ∈ attributes, Over p a.2) :
    Over p (Xml.attributesText attributes) := by
  refine Over.flatten fun t ht => ?_
  obtain ⟨a, ha, rfl⟩ := List.mem_map.mp ht
  have hvalue : Over p (Xml.escape a.2 ++ [CodePoint.scalar '"']) :=
    ((hv a ha).escape hp).append (Over.cons (hp '"' (by decide)) over_nil)
  exact Over.cons (hp ' ' (by decide)) ((over_word hp (hk a ha)).append
    (Over.cons (hp '=' (by decide)) (Over.cons (hp '"' (by decide)) hvalue)))

end Text

/-- Plain characters may stand in a document. -/
theorem Xml.isChar_of_isPlain (c : Char) (h : Text.IsPlain c) : isChar (.scalar c) = true := by
  obtain ⟨hlow, hhigh⟩ := h
  have hfirst : c.toNat ≤ 0xD7FF := by omega
  simp [isChar, CodePoint.inRanges, charRanges, CodePoint.toNat, hlow, hfirst]

/-! ## Trees -/

namespace Node

/-- The text of a node, or the values of its attributes, are made of code points with a
property. -/
def Holds (p : CodePoint → Prop) : Node → Prop
  | .text content => content.Over p
  | .element _ attributes _ => ∀ a ∈ attributes, a.2.Over p

theorem over_written (hp : ∀ c, Text.IsPlain c → p (.scalar c)) {n : Node}
    (hplain : ∀ m ∈ n.nodes, m.Plain) (h : ∀ m ∈ n.nodes, m.Holds p) : n.written.Over p := by
  induction n using Node.inductionOn with
  | text content => exact Text.Over.escape hp (h _ (mem_nodes_self _))
  | element name attributes children ih =>
    obtain ⟨hname, _, hattributes⟩ := hplain _ (mem_nodes_self _)
    have hchildren : ∀ cs : List Node, (∀ c ∈ cs, c ∈ children) → (writtenAll cs).Over p := by
      intro cs
      induction cs with
      | nil => exact fun _ => Text.over_nil
      | cons c cs ihcs =>
        intro hcs
        have hc := hcs c List.mem_cons_self
        have hin : ∀ m ∈ c.nodes, m ∈ (Node.element name attributes children).nodes :=
          fun m hm => mem_nodes_element.mpr (Or.inr ⟨c, hc, hm⟩)
        have hfirst := ih c hc (fun m hm => hplain m (hin m hm)) fun m hm => h m (hin m hm)
        exact hfirst.append (ihcs fun x hx => hcs x (List.mem_cons_of_mem _ hx))
    have hword := Text.over_word hp hname
    have hend : Text.Over p (name ++ [CodePoint.scalar '>']) :=
      hword.append (.cons (hp '>' (by decide)) Text.over_nil)
    have hcontent := (hchildren children fun _ h => h).append
      (.cons (hp '<' (by decide)) (.cons (hp '/' (by decide)) hend))
    have hstart := Text.Over.attributesText hp hattributes.word (h _ (mem_nodes_self _))
    exact .cons (hp '<' (by decide)) (hword.append (hstart.append
      (.cons (hp '>' (by decide)) hcontent)))

/-! ## What is read back -/

theorem areLegal_iff {attributes : List (Text × Text)} :
    Xml.areLegal attributes = true ↔ ∀ a ∈ attributes, a.2.Over fun c => Xml.isChar c = true := by
  simp [Xml.areLegal, Text.Over]

theorem legibleAll_iff {depth : Nat} {children : List Node} :
    legibleAll depth children = true ↔ ∀ c ∈ children, c.legible depth = true := by
  induction children with
  | nil => simp [legibleAll]
  | cons c rest ih => simp [legibleAll, ih]

/-- A tree is read back at a depth exactly if its texts and values may stand in a document and its
elements do not lie too deep. -/
theorem legible_iff {n : Node} {depth : Nat} (hdepth : depth ≤ Xml.Builder.depthLimit) :
    n.legible depth = true ↔ (∀ m ∈ n.nodes, m.Holds fun c => Xml.isChar c = true) ∧
      depth + n.height ≤ Xml.Builder.depthLimit := by
  induction n using Node.inductionOn generalizing depth with
  | text content => simp [legible, mem_nodes_text, Holds, height, hdepth, Text.Over]
  | element name attributes children ih =>
    simp only [legible, height, Bool.and_eq_true, decide_eq_true_eq, areLegal_iff, legibleAll_iff,
      mem_nodes_element, forall_eq_or_imp, Holds]
    constructor
    · rintro ⟨⟨hlt, hvalues⟩, hbelow⟩
      have hall := fun c hc => (ih c hc hlt).mp (hbelow c hc)
      have hheight : heightOfAll children ≤ Xml.Builder.depthLimit - (depth + 1) :=
        heightOfAll_le_iff.mpr fun c hc => by
          have := (hall c hc).2
          omega
      refine ⟨⟨hvalues, ?_⟩, by omega⟩
      rintro m ⟨c, hc, hm⟩
      exact (hall c hc).1 m hm
    · rintro ⟨⟨hvalues, hbelow⟩, hheight⟩
      have hlt : depth < Xml.Builder.depthLimit := by omega
      refine ⟨⟨hlt, hvalues⟩, fun c hc => (ih c hc hlt).mpr ⟨fun m hm => hbelow m ⟨c, hc, hm⟩, ?_⟩⟩
      have hc' := heightOfAll_le_iff.mp (Nat.le_refl _) c hc
      omega

end Node

/-! ## Documents -/

/-- What the check of the document of a tree finds. -/
def Node.findings (n : Node) : List Markup.Problem :=
  if n.legible 1 then n.nodes.flatMap Node.problems else [.notWellFormed]

theorem check_documentText {xml : Xml.Reader} (hxml : xml.ReadsDocuments) (display : Bool)
    {n : Node} (h : ∀ m ∈ n.nodes, m.Plain) :
    Markup.check xml (documentText display n) = .ok (n.findings.map Markup.Problem.message) := by
  unfold Markup.check
  rw [problems_documentText hxml display h]
  rfl

theorem over_documentText (hp : ∀ c, Text.IsPlain c → p (.scalar c)) (display : Bool) {n : Node}
    (hplain : ∀ m ∈ n.nodes, m.Plain) (h : ∀ m ∈ n.nodes, m.Holds p) :
    (documentText display n).Over p := by
  have hword : Text.Over p "math" := Text.over_ofString hp (by decide)
  have hwords : ∀ a ∈ rootAttributes display, Xml.isWord a.1 = true := by
    cases display <;> decide
  have hvalues : ∀ a ∈ rootAttributes display, ∀ c ∈ a.2, Text.isPlainScalar c = true := by
    cases display <;> decide
  have hroot := Text.Over.attributesText hp hwords fun a ha =>
    Text.over_of_isPlainScalar hp (hvalues a ha)
  have hend : Text.Over p (Text.ofString "math" ++ [CodePoint.scalar '>']) :=
    hword.append (.cons (hp '>' (by decide)) Text.over_nil)
  have hcontent := (Node.over_written hp hplain h).append
    (.cons (hp '<' (by decide)) (.cons (hp '/' (by decide)) hend))
  exact .cons (hp '<' (by decide)) (hword.append (hroot.append
    (.cons (hp '>' (by decide)) hcontent)))

/-- The document of a tree that is read back holds only what a document may hold. -/
theorem over_of_legible (display : Bool) {n : Node} (hplain : ∀ m ∈ n.nodes, m.Plain)
    (h : n.legible 1 = true) : (documentText display n).Over fun c => Xml.isChar c = true :=
  over_documentText Xml.isChar_of_isPlain display hplain ((Node.legible_iff (by decide)).mp h).1

end MathMarkup
