import MathMarkup.Draft.Writer
import MathMarkup.Proofs.Tree
import MathMarkup.Proofs.Xml.Tag

/-!
# Reading written documents

A tree whose names are words is written as a text that is read back as the elements of the tree,
with the texts gone, provided that no code point is one that a document may not hold and that the
elements do not lie too deep. `Node.written` is the text of a tree inside a document, `Node.items`
are its elements as they are read, and `Builder.readsBack` is the law.
-/

namespace MathMarkup

namespace Node

mutual

/-- A tree as it is written inside a document. -/
def written : Node → Text
  | .text content => Xml.escape content
  | .element name attributes children =>
    .scalar '<' :: (name ++ (Xml.attributesText attributes ++ .scalar '>' ::
      (writtenAll children ++ (.scalar '<' :: .scalar '/' :: (name ++ [CodePoint.scalar '>'])))))

/-- Trees as they are written one after the other. -/
def writtenAll : List Node → Text
  | [] => []
  | n :: rest => n.written ++ writtenAll rest

end

/-- Whether the names of an element and of its attributes are words, with no attribute twice. -/
def Plain : Node → Prop
  | .text _ => True
  | .element name attributes _ =>
    Xml.isWord name = true ∧ name ≠ Text.ofString "xmlns" ∧ Xml.PlainAttributes attributes

/-- Whether an element has a name. Without one it cannot be written. -/
def Writable : Node → Prop
  | .text _ => True
  | .element name _ _ => name ≠ []

theorem Plain.writable {n : Node} (h : n.Plain) : n.Writable := by
  cases n with
  | text content => trivial
  | element name attributes children => exact Xml.isWord_ne_nil h.1

end Node

namespace Draft

theorem attributeText_text (key value : Text) :
    attributeText (.text key) (.text value) = .ok (Xml.attributeText (key, value)) := by
  have hwritten : Xml.attributeText (key, value) = [CodePoint.scalar ' '] ++ key ++
      [CodePoint.scalar '=', CodePoint.scalar '"'] ++ Xml.escape value ++
        [CodePoint.scalar '"'] := by
    simp [Xml.attributeText]
  rw [hwritten]
  rfl

/-- A start tag with the given attributes. -/
def tagText (name : Text) (attributes : Assoc Text Text) : Text :=
  .scalar '<' :: (name ++ (Xml.attributesText attributes ++ [CodePoint.scalar '>']))

/-- Attributes whose keys and values are texts have a spelling. -/
theorem startTag_text (name : Text) (attributes : Assoc Text Text) :
    startTag name (attributes.map fun a => (.text a.1, .text a.2)) =
      .ok (tagText name attributes) := by
  have hentries : (attributes.map fun a => ((.text a.1, .text a.2) : Scalar × Value)).mapM
      (fun e => attributeText e.1 e.2) = .ok (attributes.map Xml.attributeText) := by
    rw [List.mapM_map]
    exact mapM_eq_ok_map fun a _ => attributeText_text a.1 a.2
  rw [startTag, hentries]
  show Except.ok ([CodePoint.scalar '<'] ++ name ++ (attributes.map Xml.attributeText).flatten ++
    [CodePoint.scalar '>']) = _
  simp [tagText, Xml.attributesText, List.flatMap_def]

/-- An element is opened with the attributes that the writer gives it. -/
theorem openingTag_text {root : Option Bool} {name : Text} {attributes : Value}
    {entries : Assoc Text Text}
    (h : writtenAttributes root name attributes =
      .ok (entries.map fun a => (.text a.1, .text a.2))) :
    openingTag root name attributes = .ok (tagText name entries) := by
  rw [openingTag, h]
  show (startTag name _).mapError _ = _
  rw [startTag_text]
  rfl

theorem endTag_eq (name : Text) :
    endTag name = .scalar '<' :: .scalar '/' :: (name ++ [CodePoint.scalar '>']) := rfl

theorem writtenName_text {name : Text} (h : name ≠ []) : writtenName (.text name) = .ok name := by
  simp [writtenName, h]

theorem writeAll_ofNodes {children : List Node}
    (h : ∀ c ∈ children, write none (ofNode c) = .ok c.written) :
    writeAll (ofNodes children) = .ok (Node.writtenAll children) := by
  induction children with
  | nil => rfl
  | cons c rest ih =>
    rw [ofNodes, writeAll, h c List.mem_cons_self, ih fun x hx => h x (List.mem_cons_of_mem _ hx)]
    rfl

/-- An element is written with the attributes that the writer gives it. -/
theorem write_element {root : Option Bool} {name : Text} {attributes entries : Assoc Text Text}
    {children : List Node} (hname : name ≠ [])
    (hentries : writtenAttributes root name
      (.mapping (attributes.map fun a => (.text a.1, .text a.2))) =
      .ok (entries.map fun a => (.text a.1, .text a.2)))
    (hchildren : ∀ c ∈ children, write none (ofNode c) = .ok c.written) :
    write root (ofNode (.element name attributes children)) =
      .ok (Node.element name entries children).written := by
  rw [ofNode, write, writtenName_text hname, writeAll_ofNodes hchildren]
  show (openingTag root name _ >>= fun tag => Except.ok (tag ++ _ ++ _)) = _
  rw [openingTag_text hentries, Node.written, endTag_eq]
  show Except.ok _ = _
  simp [tagText]

/-- A tree whose elements have names is written as it should be. -/
theorem write_ofNode {n : Node} (h : ∀ m ∈ n.nodes, m.Writable) :
    write none (ofNode n) = .ok n.written := by
  induction n using Node.inductionOn with
  | text content => rfl
  | element name attributes children ih =>
    exact write_element (h _ (Node.mem_nodes_self _)) rfl fun c hc => ih c hc fun m hm =>
      h m (Node.mem_nodes_element.mpr (Or.inr ⟨c, hc, hm⟩))

end Draft

/-! ## Reading -/

namespace Node

open Xml

mutual

/-- Whether a tree can be read back at a depth: all code points may stand in a document, and no
element lies too deep. -/
def legible (depth : Nat) : Node → Bool
  | .text content => content.all isChar
  | .element _ attributes children =>
    depth < Builder.depthLimit && areLegal attributes && legibleAll (depth + 1) children

/-- Whether several trees can be read back at a depth. -/
def legibleAll (depth : Nat) : List Node → Bool
  | [] => true
  | n :: rest => n.legible depth && legibleAll depth rest

end

mutual

/-- The elements that a tree is read back as. -/
def items (bindings : Bindings) : Node → List Item
  | .text _ => []
  | .element name attributes children =>
    [.element (bindings.elementName (.ofWord name))
      ((readBack attributes).map fun a => (.bare a.1, a.2)) (itemsOfAll bindings children)]

/-- The elements that several trees are read back as. -/
def itemsOfAll (bindings : Bindings) : List Node → List Item
  | [] => []
  | n :: rest => n.items bindings ++ itemsOfAll bindings rest

end

end Node

namespace Xml

/-- What is written of a tree can stand behind a text. -/
theorem InMarkup.written_append {rest : Text} (h : InMarkup rest) (n : Node) :
    InMarkup (n.written ++ rest) := by
  cases n with
  | text content => exact h.escape_append content
  | element name attributes children => exact inMarkup_angle _

theorem InMarkup.writtenAll_append {rest : Text} (h : InMarkup rest) (children : List Node) :
    InMarkup (Node.writtenAll children ++ rest) := by
  induction children with
  | nil => exact h
  | cons c more ih =>
    rw [Node.writtenAll, List.append_assoc]
    exact ih.written_append c

namespace Builder

/-- The state with further children of the innermost element. -/
def put (b : Builder) (items : List Item) : Builder :=
  match b.opened with
  | [] => b
  | o :: outer => { b with opened := { o with children := items.reverse ++ o.children } :: outer }

variable {b : Builder} {o : Opened} {outer : List Opened}

theorem put_of_opened (ho : b.opened = o :: outer) (items : List Item) :
    b.put items =
      { b with opened := { o with children := items.reverse ++ o.children } :: outer } := by
  simp only [put, ho]

theorem opened_put (ho : b.opened = o :: outer) (items : List Item) :
    (b.put items).opened = { o with children := items.reverse ++ o.children } :: outer := by
  rw [put_of_opened ho]

theorem put_append (ho : b.opened = o :: outer) (items more : List Item) :
    b.put (items ++ more) = (b.put items).put more := by
  rw [put_of_opened (opened_put ho items), put_of_opened ho, put_of_opened ho]
  simp

theorem bindings_put (b : Builder) (items : List Item) : (b.put items).bindings = b.bindings := by
  unfold put bindings
  cases ho : b.opened <;> simp [ho]

theorem length_opened_put (b : Builder) (items : List Item) :
    (b.put items).opened.length = b.opened.length := by
  unfold put
  cases ho : b.opened <;> simp [ho]

theorem put_nil (b : Builder) : b.put [] = b := by
  unfold put
  cases ho : b.opened with
  | nil => rfl
  | cons o outer => simp [← ho]

/-- A start tag of a plain element opens it, unless it lies too deep. -/
theorem startTag?_plain (ho : b.opened = o :: outer) {name : Text} (hn : isWord name = true)
    (hx : name ≠ Text.ofString "xmlns") {attributes : List (Text × Text)}
    (ha : PlainAttributes attributes) :
    b.startTag? name (readBack attributes) false =
      if b.opened.length < depthLimit then
        some { b with opened := ⟨name, ⟨b.bindings.elementName (.ofWord name),
          (readBack attributes).map fun a => (.bare a.1, a.2), none, b.bindings, []⟩, []⟩ ::
            b.opened }
      else none := by
  unfold startTag?
  rw [enter?_plain b.bindings hn hx ha.readBack]
  by_cases hd : b.opened.length < depthLimit
  · rw [if_pos hd, if_neg (by simp [ho] at hd ⊢; omega)]
    rfl
  · rw [if_neg hd, if_pos (Or.inl (by omega))]

/-- An element that is open is finished by its end tag. -/
theorem endTag?_put {entry : Entry} (ho : b.opened = o :: outer) (name : Text)
    (items : List Item) :
    ({ b with opened := ⟨name, entry, []⟩ :: b.opened }.put items).endTag? name =
      some (b.put [.element entry.name entry.attributes items]) := by
  simp [put, endTag?, ho, addElement, addItem, Opened.item]

/-- The end tag of an element that is open, and what follows it. -/
theorem read?_endTag {entry : Entry} (ho : b.opened = o :: outer) {name : Text}
    (hname : isWord name = true) (items : List Item) (rest : Text) :
    read? 0 ({ b with opened := ⟨name, entry, []⟩ :: b.opened }.put items)
      (.scalar '<' :: (.scalar '/' :: (name ++ .scalar '>' :: rest))) =
      read? 0 (b.put [.element entry.name entry.attributes items]) rest := by
  have hopen : ({ b with opened := ⟨name, entry, []⟩ :: b.opened }.put items).opened ≠ [] := by
    rw [opened_put rfl]
    nofun
  have hdrop : (CodePoint.scalar '/' :: (name ++ .scalar '>' :: rest)).drop (name.length + 2) =
      rest := by
    rw [List.drop_succ_cons, List.drop_append]
    simp
  rw [read?_piece hopen (pieceAt?_endTag hname rest), hdrop]
  simp only [step?, endTag?_put ho, Option.bind_some]

/-- Reading what is written of a tree adds its elements to the innermost one. -/
def ReadsBack (n : Node) : Prop :=
  ∀ (b : Builder) (rest : Text), b.opened ≠ [] → InMarkup rest →
    read? 0 b (n.written ++ rest) = if n.legible b.opened.length then
      read? 0 (b.put (n.items b.bindings)) rest else none

theorem read?_writtenAll {children : List Node} (hc : ∀ c ∈ children, ReadsBack c)
    (hb : b.opened ≠ []) {rest : Text} (hr : InMarkup rest) :
    read? 0 b (Node.writtenAll children ++ rest) = if Node.legibleAll b.opened.length children then
      read? 0 (b.put (Node.itemsOfAll b.bindings children)) rest else none := by
  induction children generalizing b with
  | nil => simp [Node.writtenAll, Node.legibleAll, Node.itemsOfAll, put_nil]
  | cons c more ih =>
    obtain ⟨o, outer, ho⟩ := List.exists_cons_of_ne_nil hb
    have hput : (b.put (c.items b.bindings)).opened ≠ [] := by
      rw [opened_put ho]
      nofun
    rw [Node.writtenAll, List.append_assoc,
      hc c List.mem_cons_self b _ hb (hr.writtenAll_append more),
      ih (fun x hx => hc x (List.mem_cons_of_mem _ hx)) hput, bindings_put, length_opened_put,
      Node.legibleAll, Node.itemsOfAll, put_append ho]
    cases c.legible b.opened.length <;> simp

/-- A tree with plain names is read back as its elements, if it can be read back at all. -/
theorem readsBack {n : Node} (h : ∀ m ∈ n.nodes, m.Plain) : ReadsBack n := by
  induction n using Node.inductionOn with
  | text content =>
    intro b rest hb hr
    simp only [Node.written, Node.legible, Node.items, put_nil, read?_escape hb hr]
  | element name attributes children ih =>
    intro b rest hb hr
    obtain ⟨o, outer, ho⟩ := List.exists_cons_of_ne_nil hb
    obtain ⟨hname, hx, ha⟩ := h _ (Node.mem_nodes_self _)
    have hchildren : ∀ c ∈ children, ReadsBack c := fun c hc => ih c hc fun m hm =>
      h m (Node.mem_nodes_element.mpr (Or.inr ⟨c, hc, hm⟩))
    have hsplit : (Node.element name attributes children).written ++ rest = .scalar '<' ::
        (name ++ (attributesText attributes ++ .scalar '>' :: (Node.writtenAll children ++
          .scalar '<' :: (.scalar '/' :: (name ++ .scalar '>' :: rest))))) := by
      simp [Node.written]
    have hstart := pieceAt?_startTag hname ha.word (Node.writtenAll children ++
      .scalar '<' :: (.scalar '/' :: (name ++ .scalar '>' :: rest)))
    rw [hsplit]
    simp only [Node.legible, Node.items]
    by_cases hlegal : areLegal attributes = true
    · rw [if_pos hlegal] at hstart
      have hdrop : (name ++ (attributesText attributes ++ .scalar '>' ::
          (Node.writtenAll children ++ .scalar '<' :: (.scalar '/' :: (name ++ .scalar '>' ::
            rest))))).drop ((name ++ attributesText attributes).length + 1) =
          Node.writtenAll children ++ .scalar '<' :: (.scalar '/' :: (name ++ .scalar '>' ::
            rest)) := by
        rw [← List.append_assoc, List.drop_append]
        simp
      rw [read?_piece hb hstart, hdrop]
      simp only [step?, startTag?_plain ho hname hx ha]
      by_cases hd : b.opened.length < depthLimit
      · rw [if_pos hd, Option.bind_some,
          read?_writtenAll hchildren (List.cons_ne_nil _ _) (inMarkup_angle _)]
        simp only [hd, hlegal, decide_true, Bool.true_and, List.length_cons]
        split
        · rw [read?_endTag ho hname]
          rfl
        · rfl
      · simp [hd]
    · rw [if_neg hlegal] at hstart
      rw [read?]
      simp [stopsAt_eq_false hb, hstart, hlegal]

end Builder

end Xml

end MathMarkup
