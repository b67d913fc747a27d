import MathMarkup.Proofs.Generation
import MathMarkup.Proofs.Serialization

/-!
# Names that pass the check

The pattern for names ends with the end of a line, so a name passes with one line feed behind it
(`Xml.isNameLine_eq`). In markup a line feed ends the name of a tag: the document shows such an
element under the name without it, while the numbers of children are asked of the whole name.
`Draft.names_of_check` says which names pass the check, how the document shows them, and which
numbers of children are checked.
-/

namespace MathMarkup

namespace Xml

theorem continuesName_of_isNamePart {c : CodePoint} (h : isNamePart c = true) :
    continuesName c = true ∨ c = .scalar ':' := by
  simp only [isNamePart, isNameStart, Bool.or_eq_true, decide_eq_true_eq] at h
  rcases h with (((((hletter | rfl) | hdigit) | rfl) | rfl) | rfl)
  · left
    simp [continuesName, startsName_of_isAsciiLetter hletter]
  · exact Or.inl (by decide)
  · left
    have hn := CodePoint.isDigit_toNat hdigit
    have hpart : c.inRanges partRanges = true := by
      simp only [CodePoint.inRanges, partRanges, List.any_cons, Bool.or_eq_true, Bool.and_eq_true,
        decide_eq_true_eq]
      omega
    simp [continuesName, hpart]
  · exact Or.inl (by decide)
  · exact Or.inr rfl
  · exact Or.inl (by decide)

/-! ## The names that a document shows -/

/-- The names of the start tags in a text, in order. -/
def shownNames : Text → List Text
  | [] => []
  | c :: rest =>
    if c = .scalar '<' ∧ rest.head? ≠ some (.scalar '/') then takeName rest :: shownNames rest
    else shownNames rest

theorem takeName_take (t : Text) (n : Nat) : takeName (t.take n) = (takeName t).take n := by
  induction t generalizing n with
  | nil => simp [takeName]
  | cons c t ih =>
    cases n with
    | zero => rfl
    | succ n =>
      unfold takeName at ih ⊢
      rw [List.take_succ_cons, List.takeWhile_cons, List.takeWhile_cons]
      split
      · rw [ih, List.take_succ_cons]
      · rfl

/-- A start tag is read with the name at its start. -/
theorem eq_takeName_of_startTag? {body name : Text} {attributes : List (Text × Text)}
    {closed : Bool} (h : startTag? body = some (.startTag name attributes closed)) :
    name = takeName body := by
  unfold startTag? at h
  simp only [] at h
  split at h
  · cases h
  · obtain ⟨read, -, hread⟩ := Option.map_eq_some_iff.mp h
    cases hread
    rfl

theorem aside_of_instruction? {t : Text} {piece : Piece} {length : Nat}
    (h : instruction? t = some (piece, length)) : ∃ reports, piece = .aside reports := by
  unfold instruction? at h
  simp only [] at h
  split at h
  · obtain ⟨reports, -, h⟩ := Option.bind_eq_some_iff.mp h
    obtain ⟨n, -, h⟩ := Option.bind_eq_some_iff.mp h
    split at h
    · cases h
      exact ⟨reports, rfl⟩
    · cases h
  · cases h

/-- A name ends before its tag does. -/
theorem takeName_take_of_tagLength? {t : Text} {n : Nat} (h : tagLength? none t = some n) :
    takeName (t.take n) = takeName t := by
  obtain ⟨rest, hsplit⟩ : ∃ rest, takeName t ++ rest = t := List.takeWhile_prefix _
  have hplain : .scalar '>' ∉ takeName t ∧ .scalar '"' ∉ takeName t ∧
      .scalar '\'' ∉ takeName t := by
    refine ⟨?_, ?_, ?_⟩ <;> intro hmem <;> exact absurd (List.mem_takeWhile_imp hmem) (by decide)
  have hlength := tagLength?_plain hplain rest
  rw [hsplit, h] at hlength
  obtain ⟨k, -, rfl⟩ := Option.map_eq_some_iff.mp hlength.symm
  rw [takeName_take, List.take_of_length_le (Nat.le_add_left _ _)]

/-- Behind its angle, a start tag is read with the name at its start. -/
theorem eq_takeName_of_markupAt? {rest name : Text} {attributes : List (Text × Text)}
    {closed : Bool} {length : Nat}
    (h : markupAt? rest = some (.startTag name attributes closed, length)) :
    rest.head? ≠ some (.scalar '/') ∧ name = takeName rest := by
  unfold markupAt? at h
  split at h
  · obtain ⟨n, -, h⟩ := Option.bind_eq_some_iff.mp h
    obtain ⟨p, hp, h⟩ := Option.map_eq_some_iff.mp h
    unfold endTag? at hp
    grind
  · obtain ⟨⟨piece, n⟩, hx, h⟩ := Option.map_eq_some_iff.mp h
    obtain ⟨reports, rfl⟩ := aside_of_instruction? hx
    cases h
  · split at h
    · obtain ⟨n, -, h⟩ := Option.map_eq_some_iff.mp h
      cases h
    · split at h
      · obtain ⟨n, -, h⟩ := Option.map_eq_some_iff.mp h
        cases h
      · cases h
  · next hslash _ _ =>
    obtain ⟨n, hn, h⟩ := Option.bind_eq_some_iff.mp h
    obtain ⟨p, hp, h⟩ := Option.map_eq_some_iff.mp h
    obtain ⟨rfl, -⟩ := Prod.mk.inj h
    refine ⟨?_, ?_⟩
    · intro hhead
      obtain ⟨more, rfl⟩ := List.head?_eq_some_iff.mp hhead
      exact hslash more rfl
    · rw [eq_takeName_of_startTag? hp, takeName_take_of_tagLength? hn]

/-- A start tag that is read anywhere in a text is read with a name that the text shows. -/
theorem mem_shownNames_of_markupAt? {before rest name : Text} {attributes : List (Text × Text)}
    {closed : Bool} {length : Nat}
    (h : markupAt? rest = some (.startTag name attributes closed, length)) :
    name ∈ shownNames (before ++ .scalar '<' :: rest) := by
  obtain ⟨hslash, rfl⟩ := eq_takeName_of_markupAt? h
  induction before with
  | nil =>
    rw [List.nil_append, shownNames, if_pos ⟨rfl, hslash⟩]
    exact List.mem_cons_self
  | cons c before ih =>
    rw [List.cons_append, shownNames]
    split
    · exact List.mem_cons_of_mem _ ih
    · exact ih

theorem shownNames_append_of_not_mem {t : Text} (h : .scalar '<' ∉ t) (rest : Text) :
    shownNames (t ++ rest) = shownNames rest := by
  induction t with
  | nil => rfl
  | cons c t ih =>
    rw [List.mem_cons, not_or] at h
    rw [List.cons_append, shownNames, if_neg fun hc => h.1 hc.1.symm, ih h.2]

theorem angle_not_mem_of_isNameLine {name : Text} (h : isNameLine name = true) :
    .scalar '<' ∉ name := by
  intro hmem
  rcases isName_or_of_isNameLine h with hname | ⟨name, hname, rfl⟩
  · exact absurd (isNamePart_of_mem hname hmem) (by decide)
  · rcases List.mem_append.mp hmem with hmem | hmem
    · exact absurd (isNamePart_of_mem hname hmem) (by decide)
    · exact absurd hmem (by decide)

/-- The name of a tag ends where its line does, at a blank or at the closing angle. -/
theorem takeName_append_of_isNameLine {name rest : Text} (h : isNameLine name = true)
    (hr : rest.head? = some (.scalar ' ') ∨ rest.head? = some (.scalar '>')) :
    takeName (name ++ rest) = name.chomp := by
  have hrest : ∀ c more, rest = c :: more → continuesName c = false ∧ c ≠ .scalar ':' := by
    rintro c more rfl
    rcases hr with hc | hc <;> cases hc <;> decide
  rcases isName_or_of_isNameLine h with hname | ⟨name, hname, rfl⟩
  · rw [Text.chomp_of_not_mem (lineFeed_not_mem_of_isName hname)]
    exact takeName_append (fun c hc => continuesName_of_isNamePart (isNamePart_of_mem hname hc))
      hrest
  · rw [Text.chomp_append_lineFeed, List.append_assoc]
    refine takeName_append
      (fun c hc => continuesName_of_isNamePart (isNamePart_of_mem hname hc)) ?_
    intro c more hc
    cases hc
    decide

end Xml

namespace Draft

/-! ## Drafts without violations -/

/-- The name of an element, if it is a text. -/
def textName? : Draft → Option Text
  | .element (.text name) _ _ | .childless (.text name) _ _ => some name
  | _ => none

/-- The names of the elements that are texts, in document order. -/
def names (d : Draft) : List Text :=
  d.nodes.filterMap textName?

/-- Whether the name of an element and the keys of its attributes are texts with a property. -/
def NamesAre (p : Text → Prop) (m : Draft) : Prop :=
  (∀ name, m.name? = some name → ∃ t, name = .text t ∧ p t) ∧
  ∀ attributes, m.attributes? = some attributes → ∃ entries, attributes = .mapping entries ∧
    ∀ e ∈ entries, ∃ k, e.1 = .text k ∧ p k

variable {d m : Draft} {name : Text} {attributes : Assoc Text Text}

theorem NamesAre.imp {p q : Text → Prop} (h : m.NamesAre p) (hpq : ∀ t, p t → q t) :
    m.NamesAre q := by
  refine ⟨fun name hname => ?_, fun attributes hattributes => ?_⟩
  · obtain ⟨t, ht, hp⟩ := h.1 name hname
    exact ⟨t, ht, hpq t hp⟩
  · obtain ⟨entries, hmap, hkeys⟩ := h.2 attributes hattributes
    refine ⟨entries, hmap, fun e he => ?_⟩
    obtain ⟨k, hk, hp⟩ := hkeys e he
    exact ⟨k, hk, hpq k hp⟩

/-- The names of a node that has no violations pass. -/
theorem namesAre_of_violations (h : m.violations = []) :
    m.NamesAre fun t => Xml.isNameLine t = true := by
  have helement : ∀ name attributes, m.name? = some name → m.attributes? = some attributes →
      m.NamesAre fun t => Xml.isNameLine t = true := by
    intro name attributes hname hattributes
    obtain ⟨t, entries, rfl, ht, rfl, hentries⟩ := exists_of_violations_eq_nil h hname hattributes
    refine ⟨fun name hm => ?_, fun attributes hm => ?_⟩
    · rw [hname] at hm
      cases hm
      exact ⟨t, rfl, ht⟩
    · rw [hattributes] at hm
      cases hm
      exact ⟨entries, rfl, fun e he => (hentries e he).1⟩
  cases m with
  | text content extra => exact ⟨nofun, nofun⟩
  | plain value => exact ⟨nofun, nofun⟩
  | element name attributes children => exact helement name attributes rfl rfl
  | childless name attributes children => exact helement name attributes rfl rfl

/-- Entries that are all texts. -/
theorem exists_texts {p : Text → Prop} {entries : List (Scalar × Value)}
    (h : ∀ x ∈ entries, (∃ k, x.1 = .text k ∧ p k) ∧ ∃ u, x.2 = .text u) :
    ∃ attributes : Assoc Text Text, entries = attributes.map (fun a => (.text a.1, .text a.2)) ∧
      ∀ a ∈ attributes, p a.1 := by
  induction entries with
  | nil => exact ⟨[], rfl, nofun⟩
  | cons x rest ih =>
    obtain ⟨key, value⟩ := x
    obtain ⟨⟨⟨k, rfl, hk⟩, u, rfl⟩, hrest⟩ := List.forall_mem_cons.mp h
    obtain ⟨attributes, rfl, hattributes⟩ := ih hrest
    exact ⟨(k, u) :: attributes, rfl, List.forall_mem_cons.mpr ⟨hk, hattributes⟩⟩

/-! ## What is written -/

theorem angle_not_mem_attributeText {a : Text × Text} (h : Xml.isNameLine a.1 = true) :
    .scalar '<' ∉ Xml.attributeText a := by
  have hkey := Xml.angle_not_mem_of_isNameLine h
  have hvalue : .scalar '<' ∉ Xml.escape a.2 :=
    Xml.not_mem_escape (e := ('<', "lt")) (by decide) (by decide) _
  simp [Xml.attributeText, hkey, hvalue]

theorem shownNames_tagText (hname : Xml.isNameLine name = true)
    (hkeys : ∀ a ∈ attributes, Xml.isNameLine a.1 = true) (rest : Text) :
    Xml.shownNames (tagText name attributes ++ rest) = name.chomp :: Xml.shownNames rest := by
  have htag : tagText name attributes ++ rest =
      .scalar '<' :: (name ++ (Xml.attributesText attributes ++ .scalar '>' :: rest)) := by
    simp [tagText]
  have hwritten : .scalar '<' ∉ Xml.attributesText attributes := by
    intro hmem
    obtain ⟨a, ha, hmem⟩ := List.mem_flatMap.mp hmem
    exact angle_not_mem_attributeText (hkeys a ha) hmem
  -- the name ends at the blank before an attribute, or at the angle if there is none
  have hbehind : (Xml.attributesText attributes ++ .scalar '>' :: rest).head? =
      some (.scalar ' ') ∨
      (Xml.attributesText attributes ++ .scalar '>' :: rest).head? = some (.scalar '>') := by
    cases attributes with
    | nil => exact Or.inr rfl
    | cons a more => exact Or.inl rfl
  have hslash : (name ++ (Xml.attributesText attributes ++ .scalar '>' :: rest)).head? ≠
      some (.scalar '/') := by
    cases name with
    | nil => cases hname
    | cons c more =>
      intro hc
      cases hc
      have hstart : Xml.isNameStart (.scalar '/') = false := by decide
      simp [Xml.isNameLine, hstart] at hname
  have hangle := Xml.angle_not_mem_of_isNameLine hname
  rw [htag, Xml.shownNames, if_pos ⟨rfl, hslash⟩,
    Xml.takeName_append_of_isNameLine hname hbehind,
    Xml.shownNames_append_of_not_mem hangle, Xml.shownNames_append_of_not_mem hwritten,
    Xml.shownNames, if_neg fun hc => absurd hc.1 (by decide)]

theorem shownNames_endTag (hname : Xml.isNameLine name = true) (rest : Text) :
    Xml.shownNames (endTag name ++ rest) = Xml.shownNames rest := by
  have htag : endTag name ++ rest =
      .scalar '<' :: .scalar '/' :: (name ++ ([CodePoint.scalar '>'] ++ rest)) := by
    rw [endTag_eq]
    simp
  rw [htag, Xml.shownNames, if_neg fun hc => hc.2 rfl, Xml.shownNames,
    if_neg fun hc => absurd hc.1 (by decide),
    Xml.shownNames_append_of_not_mem (Xml.angle_not_mem_of_isNameLine hname),
    Xml.shownNames_append_of_not_mem (by decide)]

/-- The attributes that a writer gives to a root have names. -/
theorem exists_openingTag (root : Option Bool) (name : Text)
    (hkeys : ∀ a ∈ attributes, Xml.isNameLine a.1 = true) :
    ∃ written : Assoc Text Text, (∀ a ∈ written, Xml.isNameLine a.1 = true) ∧
      openingTag root name (.mapping (attributes.map fun a => (.text a.1, .text a.2))) =
        .ok (tagText name written) := by
  cases root with
  | none => exact ⟨attributes, hkeys, openingTag_text rfl⟩
  | some display =>
    refine ⟨_, ?_, openingTag_text (writtenAttributes_ofNode display name attributes)⟩
    split
    · have hroot : ∀ a ∈ MathMarkup.rootAttributes display, Xml.isNameLine a.1 = true := by
        cases display <;> decide
      exact List.forall_mem_append.mpr ⟨hroot, fun a ha => hkeys a (List.mem_of_mem_filter ha)⟩
    · exact hkeys

/-- What is written of a draft shows the names of its elements, line feeds at their ends aside. -/
def Shows (root : Option Bool) (d : Draft) : Prop :=
  ∃ text, write root d = .ok text ∧ ∀ rest,
    Xml.shownNames (text ++ rest) = d.names.map Text.chomp ++ Xml.shownNames rest

theorem exists_writeAll {children : List Draft} (h : ∀ c ∈ children, Shows none c) :
    ∃ text, writeAll children = .ok text ∧ ∀ rest, Xml.shownNames (text ++ rest) =
      (children.flatMap names).map Text.chomp ++ Xml.shownNames rest := by
  induction children with
  | nil => exact ⟨[], rfl, fun rest => rfl⟩
  | cons c more ih =>
    obtain ⟨first, hfirst, hshown⟩ := h c List.mem_cons_self
    obtain ⟨others, hothers, hmore⟩ := ih fun x hx => h x (List.mem_cons_of_mem c hx)
    refine ⟨first ++ others, by rw [writeAll, hfirst, hothers]; rfl, fun rest => ?_⟩
    rw [List.append_assoc, hshown, hmore, List.flatMap_cons, List.map_append, List.append_assoc]

theorem names_element (name : Text) (attributes : Value) (children : List Draft) :
    (Draft.element (.text name) attributes children).names = name :: children.flatMap names := by
  rw [names, nodes, List.filterMap_cons, textName?, nodesOfAll_eq_flatMap, List.filterMap_flatMap]
  rfl

theorem shows_of_violations (root : Option Bool) (h : ∀ m ∈ d.nodes, m.violations = []) :
    Shows root d := by
  induction d using inductionOn generalizing root with
  | text content extra =>
    have hown := h _ List.mem_cons_self
    simp only [violations, textViolations, List.append_eq_nil_iff] at hown
    obtain ⟨t, rfl⟩ : ∃ t, content = .text t := by
      have htext : content.isText = true := by simpa using hown.2
      exact Value.isText_iff.mp htext
    have hangle : .scalar '<' ∉ Xml.escape t :=
      Xml.not_mem_escape (e := ('<', "lt")) (by decide) (by decide) t
    exact ⟨Xml.escape t, rfl, fun rest => Xml.shownNames_append_of_not_mem hangle rest⟩
  | childless name attributes children =>
    have hown := h _ List.mem_cons_self
    simp [violations] at hown
  | plain value =>
    have hown := h _ List.mem_cons_self
    cases hown
  | element name attributes children ih =>
    obtain ⟨t, entries, rfl, hname, rfl, htexts⟩ := exists_of_violations_eq_nil
      (h _ (mem_nodes_element.mpr (Or.inl rfl))) rfl rfl
    obtain ⟨texts, rfl, hkeys⟩ := exists_texts htexts
    obtain ⟨content, hcontent, hshown⟩ := exists_writeAll fun c hc =>
      ih c hc none fun m hm => h m (mem_nodes_element.mpr (Or.inr ⟨c, hc, hm⟩))
    obtain ⟨written, hall, htag⟩ := exists_openingTag root t hkeys
    have hne : t ≠ [] := by
      rintro rfl
      cases hname
    refine ⟨tagText t written ++ content ++ endTag t, ?_, fun rest => ?_⟩
    · rw [write, writtenName_text hne, hcontent]
      show (openingTag root t _ >>= _) = _
      rw [htag]
      rfl
    · rw [List.append_assoc, List.append_assoc, shownNames_tagText hname hall, hshown,
        shownNames_endTag hname, names_element]
      rfl

/-- The root that is put around a draft has no violations. -/
theorem violations_of_mem_document (h : ∀ m ∈ d.nodes, m.violations = []) :
    ∀ m ∈ d.document.nodes, m.violations = [] := by
  unfold document
  split
  · exact h
  · intro m hm
    rcases mem_nodes_element.mp hm with rfl | ⟨c, hc, hm⟩
    · rfl
    · rw [List.mem_singleton.mp hc] at hm
      exact h m hm

/-- No number of children is asked of a name with a line feed behind it. -/
theorem arityViolations_of_chomp_ne (h : name.chomp ≠ name) (found : Nat) :
    arityViolations (.text name) found = [] := by
  have hall : ∀ t ∈ Node.pairNames ++ Node.tripleNames ++ Node.filledNames, t.chomp = t := by
    decide
  simp only [List.mem_append] at hall
  refine arityViolations_eq_nil_iff.mpr ⟨fun hn => ?_, fun hn => ?_, fun hn => ?_⟩
  · exact absurd (hall name (Or.inl (Or.inl hn))) h
  · exact absurd (hall name (Or.inl (Or.inr hn))) h
  · exact absurd (hall name (Or.inr hn)) h

/-- In a draft that passes the check, all names are names up to one line feed behind them, and they
are names exactly where there is none. What is written of the draft, by itself and as a document,
shows the elements under their names without it, also to a reader of tags, and the numbers of
children are checked exactly where there is none. -/
theorem names_of_check (display : Bool) (h : d.check = .ok ⟨[], []⟩) :
    (∀ m ∈ d.nodes, m.NamesAre fun t => Xml.isName t.chomp = true ∧
      (Xml.isName t = true ↔ t.chomp = t)) ∧
    (∀ e, e = d ∨ e = d.document → ∃ text, serialize display e = .ok text ∧
      Xml.shownNames text = e.names.map Text.chomp ∧
      ∀ before rest name attributes closed length, text = before ++ .scalar '<' :: rest →
        Xml.markupAt? rest = some (.startTag name attributes closed, length) →
          name ∈ e.names.map Text.chomp) ∧
    ∀ t attributes children, .element (.text t) attributes children ∈ d.nodes →
      (t.chomp = t → (t ∈ Node.pairNames → children.length = 2) ∧
        (t ∈ Node.tripleNames → children.length = 3)) ∧
      (t.chomp ≠ t → ∀ others, (Draft.element (.text t) attributes others).violations = []) := by
  have hnodes := (check_eq_ok_nil_iff d).mp h
  refine ⟨fun m hm => ?_, ?_, fun t attributes children ht => ?_⟩
  · refine (namesAre_of_violations (hnodes m hm)).imp fun t ht => ?_
    exact ⟨Xml.isNameLine_eq t ▸ ht, Xml.isName_iff_of_isNameLine ht⟩
  · intro e he
    have hwritten : ∀ m ∈ e.nodes, m.violations = [] := by
      rcases he with rfl | rfl
      · exact hnodes
      · exact violations_of_mem_document hnodes
    obtain ⟨text, hwrite, hshown⟩ := shows_of_violations (some display) hwritten
    have hall := hshown []
    rw [List.append_nil, Xml.shownNames, List.append_nil] at hall
    refine ⟨text, hwrite, hall, ?_⟩
    rintro before rest name attributes closed length rfl htag
    rw [← hall]
    exact Xml.mem_shownNames_of_markupAt? htag
  · have hown := hnodes _ ht
    simp only [violations, List.append_eq_nil_iff] at hown
    obtain ⟨hpair, htriple, -⟩ := arityViolations_eq_nil_iff.mp hown.2
    refine ⟨fun _ => ⟨hpair, htriple⟩, fun hne others => ?_⟩
    simp only [violations, List.append_eq_nil_iff]
    exact ⟨hown.1, arityViolations_of_chomp_ne hne _⟩

/-- A fraction without children, with a line feed behind its name. -/
theorem names_of_check_lineFeed :
    (Draft.element (.text "mfrac\n") (.mapping []) []).check = .ok ⟨[], []⟩ ∧
    ∃ text, serialize true (.element (.text "mfrac\n") (.mapping []) []) = .ok text ∧
      Xml.shownNames text = [Text.ofString "mfrac"] := by
  have hcheck : (Draft.element (.text "mfrac\n") (.mapping []) []).check = .ok ⟨[], []⟩ := by
    decide
  obtain ⟨text, hwrite, hshown, -⟩ := (names_of_check true hcheck).2.1 _ (Or.inl rfl)
  exact ⟨hcheck, text, hwrite, hshown⟩

end Draft

end MathMarkup
