import MathMarkup.Markup.Check
import MathMarkup.Proofs.Xml.Written

/-!
# Written documents

A tree with plain names is written as a document with the root `math`. The document is read back as
the elements of the tree, unless it holds a code point that is not legal or lies too deep: this is
asked of a reader (`Xml.Reader.ReadsDocuments`), and is so of `Xml.document?`. Then what the check
of markup finds can be told from the tree: the problems of its elements, where of the children of an
element only the elements count.
-/

namespace MathMarkup

open Xml

/-- The attributes of the root. -/
def rootAttributes (display : Bool) : List (Text × Text) :=
  [("xmlns", Markup.namespaceName), ("display", Draft.displayText display)]

/-- A tree as it is written as a document. -/
def documentText (display : Bool) (n : Node) : Text :=
  .scalar '<' :: (Text.ofString "math" ++ (attributesText (rootAttributes display) ++
    CodePoint.scalar '>' :: (n.written ++ CodePoint.scalar '<' :: CodePoint.scalar '/' ::
      (Text.ofString "math" ++ [CodePoint.scalar '>']))))

/-- A tree that is not a document already is written as one. -/
theorem serialize_document (display : Bool) {n : Node} (hn : n.hasName "math" = false)
    (h : ∀ m ∈ n.nodes, m.Plain) :
    Draft.serialize display (Draft.document (.ofNode n)) = .ok (documentText display n) := by
  have hroot : (Draft.ofNode n).hasName "math" = false := by
    cases n with
    | text content => rfl
    | element name attributes children => exact hn
  have hname : Text.ofString "math" ≠ [] := by decide
  have hwritten : Draft.write (some display) (.ofNode (.element "math" [] [n])) =
      .ok (Node.element "math" (rootAttributes display) [n]).written :=
    Draft.write_element hname rfl fun c hc => by
      rw [List.mem_singleton.mp hc]
      exact Draft.write_ofNode fun m hm => (h m hm).writable
  unfold Draft.serialize Draft.document
  rw [if_neg (by simp [hroot])]
  refine hwritten.trans ?_
  simp [Node.written, Node.writtenAll, documentText]

/-! ## Reading -/

/-- The bindings inside the root. -/
def rootBindings : Bindings :=
  [([], Markup.namespaceName)]

/-- What the start tag of the root says. -/
def rootEntry (display : Bool) : Entry where
  name := ⟨some Markup.namespaceName, "math"⟩
  attributes := [(.bare "display", Draft.displayText display)]
  identifier := none
  bindings := rootBindings
  reports := []

theorem enter?_root (display : Bool) :
    Bindings.enter? [] "math" (readBack (rootAttributes display)) = some (rootEntry display) := by
  cases display <;> decide +kernel

/-- The root of a document, opened. -/
def openedRoot (display : Bool) : Builder :=
  { opened := [⟨"math", rootEntry display, []⟩] }

theorem read?_root (display : Bool) (rest : Text) :
    Builder.read? 0 {} (.scalar '<' :: (Text.ofString "math" ++
      (attributesText (rootAttributes display) ++ .scalar '>' :: rest))) =
      Builder.read? 0 (openedRoot display) rest := by
  have hword : isWord (Text.ofString "math") = true := by decide
  have hwords : ∀ a ∈ rootAttributes display, isWord a.1 = true := by
    cases display <;> decide
  have hlegal : areLegal (rootAttributes display) = true := by
    cases display <;> decide
  have hpiece := pieceAt?_startTag hword hwords rest
  rw [if_pos hlegal] at hpiece
  have hstep : Builder.step? {} (.startTag "math" (readBack (rootAttributes display)) false) =
      some (openedRoot display) := by
    simp only [Builder.step?, Builder.startTag?, Builder.bindings, enter?_root]
    rfl
  have hdrop : (Text.ofString "math" ++ (attributesText (rootAttributes display) ++ .scalar '>' ::
      rest)).drop ((Text.ofString "math" ++ attributesText (rootAttributes display)).length + 1) =
      rest := by
    rw [← List.append_assoc, List.drop_append]
    simp
  rw [Builder.read?]
  simp only [hpiece, hstep]
  rw [Builder.read?_eq_read?_drop, hdrop]
  rfl

theorem content?_documentText (display : Bool) (n : Node) :
    content? (documentText display n) = some (documentText display n) := rfl

/-- What is asked of a reader: documents of trees with plain names are read as the elements of their
trees, or refused if they hold what is not legal or lie too deep. -/
def Xml.Reader.ReadsDocuments (xml : Xml.Reader) : Prop :=
  ∀ (display : Bool) (n : Node), (∀ m ∈ n.nodes, m.Plain) →
    xml (documentText display n) = if n.legible 1 then
      some (.element ⟨some Markup.namespaceName, "math"⟩
        [(.bare "display", Draft.displayText display)] (n.items rootBindings)) else none

theorem Xml.readsDocuments_document? : Xml.Reader.ReadsDocuments Xml.document? := by
  intro display n h
  have hword : isWord (Text.ofString "math") = true := by decide
  unfold document?
  rw [content?_documentText]
  simp only [Option.bind_eq_bind, Option.bind_some]
  rw [documentText, read?_root, Builder.readsBack h (openedRoot display) _ (by nofun)
    (inMarkup_angle _)]
  show Option.bind (if n.legible 1 = true then _ else none) _ = _
  by_cases hlegible : n.legible 1 = true
  · rw [if_pos hlegible, if_pos hlegible]
    have hopen : ((openedRoot display).put (n.items rootBindings)).opened ≠ [] := by nofun
    show Option.bind (Builder.read? 0 ((openedRoot display).put (n.items rootBindings)) _) _ = _
    have hdrop : (CodePoint.scalar '/' :: (Text.ofString "math" ++ [CodePoint.scalar '>'])).drop
        ((Text.ofString "math").length + 2) = [] := rfl
    rw [Builder.read?_piece hopen (pieceAt?_endTag hword []), hdrop]
    simp [Builder.step?, Builder.endTag?, Builder.put, openedRoot, Builder.addElement, Opened.item,
      rootEntry, Builder.read?, Builder.finish?]
  · rw [if_neg hlegible, if_neg hlegible]
    rfl

/-! ## Problems -/

/-- The problems of a single node. Only elements count as children. -/
def Node.problems : Node → List Markup.Problem
  | .text _ => []
  | .element name _ children =>
    Markup.elementProblems name (children.filter Node.isElement).length

theorem Node.length_items (bindings : Bindings) (n : Node) :
    (n.items bindings).length = if n.isElement then 1 else 0 := by
  cases n <;> rfl

theorem Node.length_itemsOfAll (bindings : Bindings) (children : List Node) :
    (Node.itemsOfAll bindings children).length = (children.filter Node.isElement).length := by
  induction children with
  | nil => rfl
  | cons c more ih =>
    rw [Node.itemsOfAll, List.length_append, Node.length_items, ih, List.filter_cons]
    cases c.isElement
    · simp
    · simp
      omega

theorem isClear_elementName {name : Text} (h : isWord name = true) :
    (rootBindings.elementName (.ofWord name)).isClear = true := by
  have hcolon : CodePoint.scalar ':' ∉ name := not_mem_word h (by decide)
  have hspace : CodePoint.scalar '\x7d' ∉ Markup.namespaceName := by decide
  have hname : rootBindings.elementName (.ofWord name) =
      ⟨some Markup.namespaceName, name⟩ := rfl
  rw [hname, Name.isClear]
  simp [hcolon, hspace]

theorem childProblems_append {items more : List Item} {ps qs : List Markup.Problem}
    (h : Markup.childProblems items = .ok ps) (h' : Markup.childProblems more = .ok qs) :
    Markup.childProblems (items ++ more) = .ok (ps ++ qs) := by
  induction items generalizing ps with
  | nil =>
    cases h
    exact h'
  | cons item items ih =>
    rw [Markup.childProblems] at h
    rw [List.cons_append, Markup.childProblems]
    cases hitem : Markup.itemProblems item with
    | error e =>
      rw [hitem] at h
      cases h
    | ok first =>
      cases hitems : Markup.childProblems items with
      | error e =>
        rw [hitem, hitems] at h
        cases h
      | ok second =>
        rw [hitem, hitems] at h
        cases h
        rw [ih hitems]
        show Except.ok _ = _
        rw [List.append_assoc]

/-- The check goes over the elements of a tree in document order. -/
theorem childProblems_items {n : Node} (h : ∀ m ∈ n.nodes, m.Plain) :
    Markup.childProblems (n.items rootBindings) = .ok (n.nodes.flatMap Node.problems) := by
  induction n using Node.inductionOn with
  | text content => rfl
  | element name attributes children ih =>
    obtain ⟨hname, _, _⟩ := h _ (Node.mem_nodes_self _)
    have hbelow : ∀ cs : List Node, (∀ c ∈ cs, c ∈ children) →
        Markup.childProblems (Node.itemsOfAll rootBindings cs) =
          .ok ((Node.nodesOfAll cs).flatMap Node.problems) := by
      intro cs
      induction cs with
      | nil => intro _; rfl
      | cons c more ihc =>
        intro hcs
        have hc := hcs c List.mem_cons_self
        rw [Node.itemsOfAll, Node.nodesOfAll, List.flatMap_append]
        refine childProblems_append (ih c hc fun m hm => ?_) (ihc fun x hx => ?_)
        · exact h m (Node.mem_nodes_element.mpr (Or.inr ⟨c, hc, hm⟩))
        · exact hcs x (List.mem_cons_of_mem _ hx)
    rw [Node.items, Markup.childProblems, Markup.itemProblems, hbelow children fun _ hc => hc,
      isClear_elementName hname, Node.length_itemsOfAll]
    show Except.ok _ = _
    simp [Node.nodes, Node.problems, rootBindings, Bindings.elementName, QName.ofWord]

theorem elementProblems_math (found : Nat) : Markup.elementProblems "math" found = [] := by
  have hknown : Markup.knownElements.contains (Text.ofString "math") = true := by
    simp [Markup.knownElements]
  have htoken : Markup.tokenElements.contains (Text.ofString "math") = false := by
    simp [Markup.tokenElements]
  have harity : Markup.fixedArity? (Text.ofString "math") = none := by
    simp [Markup.fixedArity?, Markup.fixedArities, Assoc.get?]
  simp only [Markup.elementProblems, hknown, htoken, harity]
  rfl

theorem rootProblems_math (display : Bool) :
    Markup.rootProblems ⟨some Markup.namespaceName, "math"⟩
      [(.bare "display", Draft.displayText display)] = [] := by
  cases display <;> decide

/-- The check of a written document never fails, and finds what the nodes of the tree tell. -/
theorem problems_documentText {xml : Xml.Reader} (hxml : xml.ReadsDocuments) (display : Bool)
    {n : Node} (h : ∀ m ∈ n.nodes, m.Plain) :
    Markup.problems xml (documentText display n) =
      .ok (if n.legible 1 then n.nodes.flatMap Node.problems else [.notWellFormed]) := by
  unfold Markup.problems
  rw [hxml display n h]
  by_cases hlegible : n.legible 1 = true
  · have hclear : Name.isClear ⟨some Markup.namespaceName, "math"⟩ = true := by decide
    rw [if_pos hlegible, if_pos hlegible]
    simp only [Markup.itemProblems, hclear, childProblems_items h, elementProblems_math,
      rootProblems_math]
    rfl
  · rw [if_neg hlegible, if_neg hlegible]

end MathMarkup
