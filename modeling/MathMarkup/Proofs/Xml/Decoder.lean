import MathMarkup.Proofs.Merging
import MathMarkup.Proofs.Xml.Name
import MathMarkup.Proofs.Xml.Unescape
import MathMarkup.Proofs.Xml.Written

/-!
# Reading trees back

A written tree is read from left to right, one code point after the other. The decoder knows the
element that it is in, the elements around it, and the place in the text or tag at hand; it resolves
entities in texts and attribute values. What it reads of a written tree is the tree with its texts
merged (`decode?_written`).
-/

namespace MathMarkup

/-- Whether the names of an element and of its attributes are names. -/
def Node.Named : Node → Prop
  | .text _ => True
  | .element name attributes _ =>
    Xml.isName name = true ∧ ∀ a ∈ attributes, Xml.isName a.1 = true

instance : DecidablePred Node.Named
  | .text _ => isTrue trivial
  | .element name attributes _ => inferInstanceAs
    (Decidable (Xml.isName name = true ∧ ∀ a ∈ attributes, Xml.isName a.1 = true))

namespace Xml

/-! ## The decoder -/

namespace Decoder

/-- An element whose end tag has not been read, with the nodes before it, latest first. -/
structure Pending where
  name : Text
  attributes : Assoc Text Text
  before : List Node

/-- Where the decoder is in the text or tag at hand, with what it has read of it. -/
inductive Place where
  | text (raw : Text)
  /-- Behind the opening angle, in the name of a start tag. -/
  | startName (name : Text)
  /-- In the name of an attribute. -/
  | key (name : Text) (attributes : Assoc Text Text) (key : Text)
  /-- Behind the equals sign. -/
  | equals (name : Text) (attributes : Assoc Text Text) (key : Text)
  /-- Between the quotes. -/
  | value (name : Text) (attributes : Assoc Text Text) (key raw : Text)
  /-- Behind a value. -/
  | behindValue (name : Text) (attributes : Assoc Text Text)
  /-- In the name of an end tag. -/
  | endName (name : Text)

end Decoder

/-- The state of a reading: the nodes read in the innermost open element, latest first, the open
elements, innermost first, and the place. -/
structure Decoder where
  done : List Node := []
  opened : List Decoder.Pending := []
  place : Decoder.Place := .text []

namespace Decoder

/-- Nodes, latest first, with a text that has ended. -/
def addText (s : Text) (done : List Node) : List Node :=
  if s.isEmpty then done else .text s :: done

/-- A start tag ends. -/
def open? (d : Decoder) (name : Text) (attributes : Assoc Text Text) : Option Decoder :=
  if isName name then some ⟨[], ⟨name, attributes, d.done⟩ :: d.opened, .text []⟩ else none

/-- An end tag ends. -/
def close? (d : Decoder) (name : Text) : Option Decoder :=
  match d.opened with
  | ⟨n, attributes, before⟩ :: outer =>
    if n = name then some ⟨.element n attributes d.done.reverse :: before, outer, .text []⟩
    else none
  | [] => none

/-- The reading of one code point. -/
def step? (d : Decoder) (c : CodePoint) : Option Decoder :=
  match d.place with
  | .text raw =>
    -- an escaped text holds no angle, so this is where the text ends
    if c = .scalar '<' then
      (unescape? 0 raw).map fun s => { d with done := addText s d.done, place := .startName [] }
    else some { d with place := .text (raw ++ [c]) }
  | .startName name =>
    if c = .scalar '>' then d.open? name []
    else if c = .scalar ' ' then some { d with place := .key name [] [] }
    else if c = .scalar '/' ∧ name = [] then some { d with place := .endName [] }
    else if isNamePart c then some { d with place := .startName (name ++ [c]) }
    else none
  | .key name attributes key =>
    if c = .scalar '=' then
      if isName key then some { d with place := .equals name attributes key } else none
    else if isNamePart c then some { d with place := .key name attributes (key ++ [c]) }
    else none
  | .equals name attributes key =>
    if c = .scalar '"' then some { d with place := .value name attributes key [] } else none
  | .value name attributes key raw =>
    if c = .scalar '"' then
      (unescape? 0 raw).map fun v =>
        { d with place := .behindValue name (attributes ++ [(key, v)]) }
    else some { d with place := .value name attributes key (raw ++ [c]) }
  | .behindValue name attributes =>
    if c = .scalar '>' then d.open? name attributes
    else if c = .scalar ' ' then some { d with place := .key name attributes [] }
    else none
  | .endName name =>
    if c = .scalar '>' then d.close? name
    else if isNamePart c then some { d with place := .endName (name ++ [c]) }
    else none

/-- The reading of a text. -/
def run? (d : Decoder) (t : Text) : Option Decoder :=
  t.foldlM step? d

/-- The node that has been read, if no element is open. Where no node has been read, this is the
empty text. -/
def finish? (d : Decoder) : Option Node :=
  match d.opened, d.place with
  | [], .text raw => (unescape? 0 raw).bind fun s =>
    match addText s d.done with
    | [] => some (.text [])
    | [n] => some n
    | _ => none
  | _, _ => none

end Decoder

/-- The tree that a text is read as. -/
def decode? (t : Text) : Option Node :=
  (Decoder.run? {} t).bind Decoder.finish?

/-! ## Runs -/

namespace Decoder

variable {done : List Node} {opened : List Pending}

theorem run?_nil (d : Decoder) : d.run? [] = some d := rfl

theorem run?_cons (d : Decoder) (c : CodePoint) (t : Text) :
    d.run? (c :: t) = (d.step? c).bind fun d' => d'.run? t := by
  simp only [run?, List.foldlM_cons]
  rfl

theorem run?_append (d : Decoder) (s t : Text) :
    d.run? (s ++ t) = (d.run? s).bind fun d' => d'.run? t := by
  simp only [run?, List.foldlM_append]
  rfl

/-- Code points that are only collected. -/
theorem run?_collect (place : Text → Place) {w : Text}
    (h : ∀ raw, ∀ c ∈ w, step? ⟨done, opened, place raw⟩ c =
      some ⟨done, opened, place (raw ++ [c])⟩) (raw : Text) :
    run? ⟨done, opened, place raw⟩ w = some ⟨done, opened, place (raw ++ w)⟩ := by
  induction w generalizing raw with
  | nil => simp [run?_nil]
  | cons c w ih =>
    rw [run?_cons, h raw c List.mem_cons_self, Option.bind_some,
      ih fun raw x hx => h raw x (List.mem_cons_of_mem _ hx), List.append_assoc]
    rfl

theorem isNamePart_ne {c : CodePoint} (h : isNamePart c = true) :
    c ≠ .scalar '>' ∧ c ≠ .scalar ' ' ∧ c ≠ .scalar '/' ∧ c ≠ .scalar '=' := by
  refine ⟨?_, ?_, ?_, ?_⟩ <;> rintro rfl <;> exact absurd h (by decide)

/-! ## Tags -/

theorem run?_startName {name : Text} (h : isName name = true) :
    run? ⟨done, opened, .startName []⟩ name = some ⟨done, opened, .startName name⟩ := by
  refine run?_collect .startName (fun raw c hc => ?_) []
  have hpart := isNamePart_of_mem h hc
  obtain ⟨hend, hblank, hslash, _⟩ := isNamePart_ne hpart
  simp [step?, hend, hblank, hslash, hpart]

theorem run?_endName {name : Text} (h : isName name = true) :
    run? ⟨done, opened, .endName []⟩ name = some ⟨done, opened, .endName name⟩ := by
  refine run?_collect .endName (fun raw c hc => ?_) []
  have hpart := isNamePart_of_mem h hc
  simp [step?, (isNamePart_ne hpart).1, hpart]

/-- A key, the value behind it, and the quotes around the value. -/
theorem run?_keyValue {a : Text × Text} (h : isName a.1 = true) (name : Text)
    (attributes : Assoc Text Text) :
    run? ⟨done, opened, .key name attributes []⟩
      (a.1 ++ .scalar '=' :: .scalar '"' :: (escape a.2 ++ [CodePoint.scalar '"'])) =
      some ⟨done, opened, .behindValue name (attributes ++ [a])⟩ := by
  have hkey : run? ⟨done, opened, .key name attributes []⟩ a.1 =
      some ⟨done, opened, .key name attributes a.1⟩ := by
    refine run?_collect (.key name attributes) (fun raw c hc => ?_) []
    have hpart := isNamePart_of_mem h hc
    simp [step?, (isNamePart_ne hpart).2.2.2, hpart]
  have hequals : step? ⟨done, opened, .key name attributes a.1⟩ (.scalar '=') =
      some ⟨done, opened, .equals name attributes a.1⟩ := by
    simp [step?, h]
  have hopen : step? ⟨done, opened, .equals name attributes a.1⟩ (.scalar '"') =
      some ⟨done, opened, .value name attributes a.1 []⟩ := by
    simp [step?]
  have hvalue : run? ⟨done, opened, .value name attributes a.1 []⟩ (escape a.2) =
      some ⟨done, opened, .value name attributes a.1 (escape a.2)⟩ := by
    refine run?_collect (.value name attributes a.1) (fun raw c hc => ?_) []
    have hquote : c ≠ .scalar '"' := fun heq =>
      not_mem_escape (e := ('"', "quot")) (by decide) (by decide) a.2 (heq ▸ hc)
    simp [step?, hquote]
  have hclose : step? ⟨done, opened, .value name attributes a.1 (escape a.2)⟩ (.scalar '"') =
      some ⟨done, opened, .behindValue name (attributes ++ [a])⟩ := by
    simp [step?, unescape?_escape]
  rw [run?_append, hkey, Option.bind_some, run?_cons, hequals, Option.bind_some, run?_cons, hopen,
    Option.bind_some, run?_append, hvalue, Option.bind_some, run?_cons, hclose]
  rfl

/-- A place in a start tag where an attribute or the end of the tag may come, with the attributes
read so far. -/
def Place.Awaits (name : Text) (attributes : Assoc Text Text) : Place → Prop
  | .startName n => n = name ∧ attributes = []
  | .behindValue n as => n = name ∧ as = attributes
  | _ => False

theorem Place.Awaits.step? {place : Place} {name : Text} {attributes : Assoc Text Text}
    (h : place.Awaits name attributes) (done : List Node) (opened : List Pending) :
    Decoder.step? ⟨done, opened, place⟩ (.scalar ' ') =
        some ⟨done, opened, .key name attributes []⟩ ∧
      Decoder.step? ⟨done, opened, place⟩ (.scalar '>') =
        open? ⟨done, opened, place⟩ name attributes := by
  unfold Place.Awaits at h
  split at h
  · obtain ⟨rfl, rfl⟩ := h
    simp [Decoder.step?]
  · obtain ⟨rfl, rfl⟩ := h
    simp [Decoder.step?]
  · cases h

/-- The rest of a start tag. -/
theorem run?_attributes {attributes : List (Text × Text)}
    (h : ∀ a ∈ attributes, isName a.1 = true) {place : Place} {name : Text}
    {before : Assoc Text Text} (hplace : place.Awaits name before) :
    run? ⟨done, opened, place⟩ (attributesText attributes ++ [CodePoint.scalar '>']) =
      open? ⟨done, opened, place⟩ name (before ++ attributes) := by
  obtain ⟨hblank, hend⟩ := hplace.step? done opened
  induction attributes generalizing place before with
  | nil =>
    rw [attributesText, List.flatMap_nil, List.nil_append, List.append_nil, run?_cons, hend]
    exact Option.bind_fun_some _
  | cons a attributes ih =>
    have hsplit : attributesText (a :: attributes) ++ [CodePoint.scalar '>'] = .scalar ' ' ::
        ((a.1 ++ .scalar '=' :: .scalar '"' :: (escape a.2 ++ [CodePoint.scalar '"'])) ++
          (attributesText attributes ++ [CodePoint.scalar '>'])) := by
      simp [attributesText_cons, attributeText]
    have hbehind : (Place.behindValue name (before ++ [a])).Awaits name (before ++ [a]) :=
      ⟨rfl, rfl⟩
    obtain ⟨hblank', hend'⟩ := hbehind.step? done opened
    rw [hsplit, run?_cons, hblank, Option.bind_some, run?_append,
      run?_keyValue (h a List.mem_cons_self), Option.bind_some,
      ih (fun x hx => h x (List.mem_cons_of_mem _ hx)) hbehind hblank' hend', List.append_assoc]
    rfl

/-- A start tag ends the text before it and opens an element. -/
theorem run?_startTag {name : Text} (hname : isName name = true)
    {attributes : List (Text × Text)} (h : ∀ a ∈ attributes, isName a.1 = true) (s : Text) :
    run? ⟨done, opened, .text (escape s)⟩
      (.scalar '<' :: (name ++ (attributesText attributes ++ [CodePoint.scalar '>']))) =
      some ⟨[], ⟨name, attributes, addText s done⟩ :: opened, .text []⟩ := by
  have hangle : step? ⟨done, opened, .text (escape s)⟩ (.scalar '<') =
      some ⟨addText s done, opened, .startName []⟩ := by
    simp [step?, unescape?_escape]
  have hplace : (Place.startName name).Awaits name [] := ⟨rfl, rfl⟩
  rw [run?_cons, hangle, Option.bind_some, run?_append, run?_startName hname, Option.bind_some,
    run?_attributes h hplace, open?, if_pos hname]
  rfl

/-- An end tag ends the text before it and closes the innermost element. -/
theorem run?_endTag {name : Text} (hname : isName name = true) (attributes : Assoc Text Text)
    (before : List Node) (s : Text) :
    run? ⟨done, ⟨name, attributes, before⟩ :: opened, .text (escape s)⟩
      (.scalar '<' :: .scalar '/' :: (name ++ [CodePoint.scalar '>'])) =
      some ⟨.element name attributes (addText s done).reverse :: before, opened, .text []⟩ := by
  have hangle : step? ⟨done, ⟨name, attributes, before⟩ :: opened, .text (escape s)⟩
      (.scalar '<') =
      some ⟨addText s done, ⟨name, attributes, before⟩ :: opened, .startName []⟩ := by
    simp [step?, unescape?_escape]
  have hslash : step? ⟨addText s done, ⟨name, attributes, before⟩ :: opened, .startName []⟩
      (.scalar '/') = some ⟨addText s done, ⟨name, attributes, before⟩ :: opened, .endName []⟩ := by
    simp [step?]
  have hend : step? ⟨addText s done, ⟨name, attributes, before⟩ :: opened, .endName name⟩
      (.scalar '>') =
      some ⟨.element name attributes (addText s done).reverse :: before, opened, .text []⟩ := by
    simp [step?, close?]
  rw [run?_cons, hangle, Option.bind_some, run?_cons, hslash, Option.bind_some, run?_append,
    run?_endName hname, Option.bind_some, run?_cons, hend]
  rfl

/-! ## Trees -/

/-- What has been read of the content of an element: nodes, latest first, and a text behind them
that goes on. -/
structure Content where
  done : List Node := []
  last : Text := []

namespace Content

/-- What has been read when a further node has been read. -/
def add (l : Content) : Node → Content
  | .text s => ⟨l.done, l.last ++ s⟩
  | .element name attributes children =>
    ⟨.element name attributes (Node.mergedAll children) :: addText l.last l.done, []⟩

/-- The nodes when nothing more is read. -/
def nodes (l : Content) : List Node :=
  (addText l.last l.done).reverse

theorem nodes_eq (l : Content) : l.nodes = l.done.reverse ++ (Node.text l.last).consMerged [] := by
  unfold nodes addText
  by_cases hlast : l.last = []
  · simp [hlast, Node.consMerged]
  · simp [hlast, Node.consMerged]

/-- The nodes of several trees are those of the merged trees. -/
theorem nodes_foldl_add (children : List Node) (l : Content) :
    (children.foldl add l).nodes =
      l.done.reverse ++ (Node.text l.last).consMerged (Node.mergedAll children) := by
  -- the text that goes on is the one that `consMerged` puts before what follows
  induction children generalizing l with
  | nil => exact l.nodes_eq
  | cons n rest ih =>
    rw [List.foldl_cons, ih, Node.mergedAll]
    cases n with
    | text s =>
      rw [Node.merged, Node.consMerged_consMerged]
      rfl
    | element name attributes children =>
      have hlast : (Node.text l.last).consMerged (Node.element name attributes
          (Node.mergedAll children) :: Node.mergedAll rest) = (Node.text l.last).consMerged [] ++
            Node.element name attributes (Node.mergedAll children) :: Node.mergedAll rest := by
        unfold Node.consMerged
        cases l.last <;> rfl
      rw [Node.merged, Node.consMerged_element, hlast, ← List.append_assoc, ← l.nodes_eq]
      show (Node.element _ _ _ :: addText l.last l.done).reverse ++ (Node.text []).consMerged _ = _
      rw [Node.consMerged_nil, List.reverse_cons, List.append_assoc]
      rfl

end Content

/-- The decoder inside open elements, behind some content. -/
def inside (outer : List Pending) (l : Content) : Decoder :=
  ⟨l.done, outer, .text (escape l.last)⟩

theorem run?_writtenAll {children : List Node}
    (h : ∀ c ∈ children, ∀ outer l, (inside outer l).run? c.written = some (inside outer (l.add c)))
    (outer : List Pending) (l : Content) :
    (inside outer l).run? (Node.writtenAll children) =
      some (inside outer (children.foldl Content.add l)) := by
  induction children generalizing l with
  | nil => rfl
  | cons c rest ih =>
    rw [Node.writtenAll, run?_append, h c List.mem_cons_self, Option.bind_some,
      ih fun x hx => h x (List.mem_cons_of_mem _ hx)]
    rfl

/-- What is written of a tree is read as a part of the content. -/
theorem run?_written {n : Node} (h : ∀ m ∈ n.nodes, m.Named) (outer : List Pending)
    (l : Content) : (inside outer l).run? n.written = some (inside outer (l.add n)) := by
  induction n using Node.inductionOn generalizing outer l with
  | text s =>
    -- more text may follow, so the text only gets longer and is no node yet
    have hcollect : run? ⟨l.done, outer, .text (escape l.last)⟩ (escape s) =
        some ⟨l.done, outer, .text (escape l.last ++ escape s)⟩ := by
      refine run?_collect .text (fun raw c hc => ?_) (escape l.last)
      have hangle : c ≠ .scalar '<' := fun heq =>
        not_mem_escape (e := ('<', "lt")) (by decide) (by decide) s (heq ▸ hc)
      simp [step?, hangle]
    rw [← escape_append] at hcollect
    exact hcollect
  | element name attributes children ih =>
    obtain ⟨hname, hkeys⟩ := h _ (Node.mem_nodes_self _)
    have hchildren := run?_writtenAll (fun c hc => ih c hc fun m hm =>
      h m (Node.mem_nodes_element.mpr (Or.inr ⟨c, hc, hm⟩)))
    have hsplit : (Node.element name attributes children).written =
        (.scalar '<' :: (name ++ (attributesText attributes ++ [CodePoint.scalar '>']))) ++
          (Node.writtenAll children ++
            .scalar '<' :: .scalar '/' :: (name ++ [CodePoint.scalar '>'])) := by
      simp [Node.written]
    have hstart : (inside outer l).run?
        (.scalar '<' :: (name ++ (attributesText attributes ++ [CodePoint.scalar '>']))) =
        some (inside (⟨name, attributes, addText l.last l.done⟩ :: outer) {}) :=
      run?_startTag hname hkeys l.last
    have hnodes := Content.nodes_foldl_add children {}
    rw [Node.consMerged_nil] at hnodes
    rw [hsplit, run?_append, hstart, Option.bind_some, run?_append, hchildren, Option.bind_some,
      inside, run?_endTag hname]
    show some (Decoder.mk
      (.element name attributes (children.foldl Content.add {}).nodes :: _) _ _) = _
    rw [hnodes]
    rfl

end Decoder

/-- A written tree is read back as the tree with its texts merged. -/
theorem decode?_written {n : Node} (h : ∀ m ∈ n.nodes, m.Named) :
    decode? n.written = some n.merged := by
  have hrun := Decoder.run?_written h [] {}
  unfold decode?
  rw [show ({} : Decoder) = Decoder.inside [] {} from rfl, hrun, Option.bind_some]
  cases n with
  | text s =>
    show (unescape? 0 (escape s)).bind _ = _
    rw [unescape?_escape, Option.bind_some]
    by_cases hs : s = []
    · simp [Decoder.addText, Decoder.inside, Decoder.Content.add, Node.merged, hs]
    · simp [Decoder.addText, Decoder.inside, Decoder.Content.add, Node.merged, hs]
  | element name attributes children => rfl

/-! ## Nothing else is read -/

namespace Decoder

/-- What has been read at a place. -/
def Place.written : Place → Text
  | .text raw => raw
  | .startName name => .scalar '<' :: name
  | .key name attributes k =>
    .scalar '<' :: (name ++ (attributesText attributes ++ .scalar ' ' :: k))
  | .equals name attributes k =>
    .scalar '<' :: (name ++ (attributesText attributes ++ .scalar ' ' ::
      (k ++ [CodePoint.scalar '='])))
  | .value name attributes k raw =>
    .scalar '<' :: (name ++ (attributesText attributes ++ .scalar ' ' ::
      (k ++ .scalar '=' :: .scalar '"' :: raw)))
  | .behindValue name attributes => .scalar '<' :: (name ++ attributesText attributes)
  | .endName name => .scalar '<' :: .scalar '/' :: name

/-- What has been read up to the content of the innermost open element. -/
def writtenAround : List Pending → Text
  | [] => []
  | p :: outer => writtenAround outer ++ (Node.writtenAll p.before.reverse ++
    .scalar '<' :: (p.name ++ (attributesText p.attributes ++ [CodePoint.scalar '>'])))

/-- All that has been read. -/
def written (d : Decoder) : Text :=
  writtenAround d.opened ++ (Node.writtenAll d.done.reverse ++ d.place.written)

theorem writtenAll_append (ns ms : List Node) :
    Node.writtenAll (ns ++ ms) = Node.writtenAll ns ++ Node.writtenAll ms := by
  induction ns with
  | nil => rfl
  | cons n ns ih => rw [List.cons_append, Node.writtenAll, ih, Node.writtenAll, List.append_assoc]

theorem writtenAll_addText (s : Text) (done : List Node) :
    Node.writtenAll (addText s done).reverse = Node.writtenAll done.reverse ++ escape s := by
  unfold addText
  split
  · next hs => simp [List.isEmpty_iff.mp hs]
  · simp [writtenAll_append, Node.writtenAll, Node.written]

theorem written_of_open? {d d' : Decoder} {name : Text} {attributes : Assoc Text Text}
    (h : d.open? name attributes = some d')
    (hplace : d.place.written = .scalar '<' :: (name ++ attributesText attributes)) :
    d'.written = d.written ++ [.scalar '>'] := by
  unfold open? at h
  split at h
  · cases h
    simp only [written, writtenAround, hplace, List.reverse_nil, Node.writtenAll, List.nil_append,
      List.append_assoc, List.cons_append]
    simp [Place.written]
  · cases h

theorem written_of_close? {d d' : Decoder} {name : Text} (h : d.close? name = some d')
    (hplace : d.place.written = .scalar '<' :: .scalar '/' :: name) :
    d'.written = d.written ++ [.scalar '>'] := by
  unfold close? at h
  split at h
  · next n attributes before outer ho =>
    split at h
    · next hn =>
      cases h
      simp only [written, writtenAround, ho, hplace, hn, List.reverse_cons, writtenAll_append,
        Node.writtenAll, Node.written]
      simp [Place.written]
    · cases h
  · cases h

theorem written_withPlace {d : Decoder} {place : Place} {c : CodePoint}
    (h : place.written = d.place.written ++ [c]) :
    ({ d with place := place } : Decoder).written = d.written ++ [c] := by
  simp only [written, h, List.append_assoc]

/-- A step adds the code point that it reads, and nothing else. -/
theorem written_of_step? {d d' : Decoder} {c : CodePoint} (h : d.step? c = some d') :
    d'.written = d.written ++ [c] := by
  unfold step? at h
  split at h
  case h_1 raw hp =>
    split at h
    · next hc =>
      obtain ⟨s, hs, rfl⟩ := Option.map_eq_some_iff.mp h
      simp [written, writtenAll_addText, Place.written, hp, hc, unescape?_eq_some_iff.mp hs]
    · cases h
      exact written_withPlace (by simp [hp, Place.written])
  case h_2 name hp =>
    split at h
    · next hc => exact hc ▸ written_of_open? h (by simp [hp, Place.written, attributesText])
    split at h
    · next hc =>
      cases h
      exact written_withPlace (by simp [hp, hc, Place.written, attributesText])
    split at h
    · next hc =>
      cases h
      exact written_withPlace (by simp [hp, hc.1, hc.2, Place.written])
    split at h
    · cases h
      exact written_withPlace (by simp [hp, Place.written])
    · cases h
  case h_3 name attributes k hp =>
    split at h
    · next hc =>
      split at h
      · cases h
        exact written_withPlace (by simp [hp, hc, Place.written])
      · cases h
    split at h
    · cases h
      exact written_withPlace (by simp [hp, Place.written])
    · cases h
  case h_4 name attributes k hp =>
    split at h
    · next hc =>
      cases h
      exact written_withPlace (by simp [hp, hc, Place.written])
    · cases h
  case h_5 name attributes k raw hp =>
    split at h
    · next hc =>
      obtain ⟨v, hv, rfl⟩ := Option.map_eq_some_iff.mp h
      exact written_withPlace (by simp [hp, hc, Place.written, attributesText, attributeText,
        unescape?_eq_some_iff.mp hv])
    · cases h
      exact written_withPlace (by simp [hp, Place.written])
  case h_6 name attributes hp =>
    split at h
    · next hc => exact hc ▸ written_of_open? h (by simp [hp, Place.written])
    split at h
    · next hc =>
      cases h
      exact written_withPlace (by simp [hp, hc, Place.written])
    · cases h
  case h_7 name hp =>
    split at h
    · next hc => exact hc ▸ written_of_close? h (by simp [hp, Place.written])
    split at h
    · cases h
      exact written_withPlace (by simp [hp, Place.written])
    · cases h

theorem written_of_run? {d d' : Decoder} {t : Text} (h : d.run? t = some d') :
    d'.written = d.written ++ t := by
  induction t generalizing d with
  | nil =>
    cases h
    simp
  | cons c t ih =>
    rw [run?_cons] at h
    obtain ⟨next, hstep, hrun⟩ := Option.bind_eq_some_iff.mp h
    rw [ih hrun, written_of_step? hstep, List.append_assoc]
    rfl

theorem written_of_finish? {d : Decoder} {n : Node} (h : d.finish? = some n) :
    n.written = d.written := by
  unfold finish? at h
  split at h
  · next raw ho hp =>
    obtain ⟨s, hs, hnodes⟩ := Option.bind_eq_some_iff.mp h
    have hwritten : d.written = Node.writtenAll (addText s d.done).reverse := by
      rw [writtenAll_addText, ← unescape?_eq_some_iff.mp hs]
      simp [written, writtenAround, Place.written, ho, hp]
    split at hnodes
    · next heq =>
      cases hnodes
      rw [hwritten, heq]
      rfl
    · next m heq =>
      cases hnodes
      rw [hwritten, heq]
      exact (List.append_nil _).symm
    · cases hnodes
  · cases h

end Decoder

/-- What is read as a tree is what is written of the tree. -/
theorem written_of_decode? {t : Text} {n : Node} (h : decode? t = some n) : n.written = t := by
  obtain ⟨d, hrun, hfinish⟩ := Option.bind_eq_some_iff.mp h
  rw [Decoder.written_of_finish? hfinish, Decoder.written_of_run? hrun]
  rfl

end Xml

end MathMarkup
