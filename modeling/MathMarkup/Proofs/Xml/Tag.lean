import Mathlib.Data.List.Nodup
import Mathlib.Data.List.TakeWhile
import MathMarkup.Proofs.Xml.Escape

/-!
# Reading written tags

The tags of a written document have names of letters and hyphens, and attributes in double quotes
with escaped values. Such a start tag is read as its name and its attributes, with the white space
in the values made plain, and the end tag as its name.
-/

namespace MathMarkup.Xml

/-! ## Words -/

/-- Whether the text is a letter followed by letters and hyphens. -/
def isWord : Text → Bool
  | [] => false
  | c :: rest => c.isAsciiLetter && rest.all fun d => d.isAsciiLetter || d = .scalar '-'

theorem isWord_ne_nil {w : Text} (h : isWord w = true) : w ≠ [] := by
  rintro rfl
  cases h

theorem isWord_mem {w : Text} (h : isWord w = true) {c : CodePoint} (hc : c ∈ w) :
    c.isAsciiLetter = true ∨ c = .scalar '-' := by
  cases w with
  | nil => cases hc
  | cons d w =>
    simp only [isWord, Bool.and_eq_true, List.all_eq_true, Bool.or_eq_true, decide_eq_true_eq] at h
    rcases List.mem_cons.mp hc with rfl | hc
    · exact Or.inl h.1
    · exact h.2 c hc

theorem startsName_of_isAsciiLetter {c : CodePoint} (h : c.isAsciiLetter = true) :
    startsName c = true := by
  have hn := CodePoint.isAsciiLetter_toNat h
  simp only [startsName, CodePoint.inRanges, startRanges, List.any_cons, Bool.or_eq_true,
    Bool.and_eq_true, decide_eq_true_eq]
  omega

theorem continuesName_of_mem {w : Text} (h : isWord w = true) {c : CodePoint} (hc : c ∈ w) :
    continuesName c = true := by
  rcases isWord_mem h hc with hl | rfl
  · simp [continuesName, startsName_of_isAsciiLetter hl]
  · decide

/-- The numbers of the code points of a word. -/
theorem isWord_toNat {w : Text} (h : isWord w = true) {c : CodePoint} (hc : c ∈ w) :
    c.toNat = 0x2D ∨ 0x41 ≤ c.toNat ∧ c.toNat ≤ 0x5A ∨ 0x61 ≤ c.toNat ∧ c.toNat ≤ 0x7A := by
  rcases isWord_mem h hc with hl | rfl
  · exact Or.inr (CodePoint.isAsciiLetter_toNat hl)
  · exact Or.inl rfl

/-- A character that is neither a letter nor a hyphen does not occur in a word. -/
theorem not_mem_word {w : Text} (h : isWord w = true) {c : Char} (hc : c.toNat < 0x2D ∨
    0x2D < c.toNat ∧ c.toNat < 0x41) : .scalar c ∉ w := by
  intro hmem
  have hn := isWord_toNat h hmem
  simp only [CodePoint.scalar_toNat] at hn
  omega

/-- A name without a prefix. -/
def QName.ofWord (w : Text) : QName := ⟨[], w⟩

/-- A word is a name without a prefix. -/
theorem ofText?_word {w : Text} (h : isWord w = true) : QName.ofText? w = some (.ofWord w) := by
  have hcolon : CodePoint.scalar ':' ∉ w := not_mem_word h (by decide)
  have hhead : w.takeWhile (· ≠ .scalar ':') = w := by
    rw [List.takeWhile_eq_self_iff]
    intro c hc
    simpa using fun hcc : c = .scalar ':' => hcolon (hcc ▸ hc)
  cases w with
  | nil => cases h
  | cons c rest =>
    have hstart : startsName c = true := by
      simp only [isWord, Bool.and_eq_true] at h
      exact startsName_of_isAsciiLetter h.1
    unfold QName.ofText?
    simp only [hhead]
    rw [List.drop_eq_nil_of_le (Nat.le_succ _)]
    simp [isPlainName, hstart, QName.ofWord]

/-- The name at the start of a text goes as far as there are name characters. -/
theorem takeName_append {w rest : Text} (hw : ∀ c ∈ w, continuesName c = true ∨ c = .scalar ':')
    (hr : ∀ c more, rest = c :: more → continuesName c = false ∧ c ≠ .scalar ':') :
    takeName (w ++ rest) = w := by
  unfold takeName
  rw [List.takeWhile_append_of_pos]
  · cases rest with
    | nil => simp
    | cons c more =>
      obtain ⟨h1, h2⟩ := hr c more rfl
      simp [h1, h2]
  · intro c hc
    simpa using hw c hc

theorem takeName_word {w : Text} (h : isWord w = true) {rest : Text}
    (hr : ∀ c more, rest = c :: more → continuesName c = false ∧ c ≠ .scalar ':') :
    takeName (w ++ rest) = w :=
  takeName_append (fun _ hc => Or.inl (continuesName_of_mem h hc)) hr

/-! ## The text of a tag -/

/-- An attribute as it is written. -/
def attributeText (a : Text × Text) : Text :=
  .scalar ' ' :: (a.1 ++ CodePoint.scalar '=' :: CodePoint.scalar '"' ::
    (escape a.2 ++ [CodePoint.scalar '"']))

/-- Attributes as they are written, one after the other. -/
def attributesText (attributes : List (Text × Text)) : Text :=
  attributes.flatMap attributeText

theorem attributesText_cons (a : Text × Text) (attributes : List (Text × Text)) :
    attributesText (a :: attributes) = attributeText a ++ attributesText attributes := rfl

/-- Behind the name of a tag stands a blank, if there is an attribute. -/
theorem head_attributesText {attributes : List (Text × Text)} {c : CodePoint} {more : Text}
    (h : attributesText attributes = c :: more) : c = .scalar ' ' := by
  cases attributes with
  | nil => cases h
  | cons a attributes =>
    cases h
    rfl

theorem tagLength?_plain {u : Text}
    (h : .scalar '>' ∉ u ∧ .scalar '"' ∉ u ∧ .scalar '\'' ∉ u) (rest : Text) :
    tagLength? none (u ++ rest) = (tagLength? none rest).map (· + u.length) := by
  induction u with
  | nil => simp
  | cons c u ih =>
    simp only [List.mem_cons, not_or] at h
    have hc : c ≠ .scalar '>' ∧ c ≠ .scalar '"' ∧ c ≠ .scalar '\'' :=
      ⟨fun e => h.1.1 e.symm, fun e => h.2.1.1 e.symm, fun e => h.2.2.1 e.symm⟩
    rw [List.cons_append, tagLength?, if_neg hc.1, if_neg hc.2.1, if_neg hc.2.2,
      ih ⟨h.1.2, h.2.1.2, h.2.2.2⟩, Option.map_map]
    rfl

theorem tagLength?_quoted {u : Text} (h : .scalar '"' ∉ u) (rest : Text) :
    tagLength? (some '"') (u ++ .scalar '"' :: rest) =
      (tagLength? none rest).map (· + (u.length + 1)) := by
  induction u with
  | nil => simp [tagLength?]
  | cons c u ih =>
    simp only [List.mem_cons, not_or] at h
    have hc : c ≠ .scalar '"' := fun e => h.1 e.symm
    rw [List.cons_append, tagLength?, if_neg hc, ih h.2, Option.map_map]
    rfl

/-- The end of a tag is found behind its attributes. -/
theorem tagLength?_attributesText {attributes : List (Text × Text)}
    (h : ∀ a ∈ attributes, isWord a.1 = true) (rest : Text) :
    tagLength? none (attributesText attributes ++ .scalar '>' :: rest) =
      some (attributesText attributes).length := by
  induction attributes with
  | nil => simp [attributesText, tagLength?]
  | cons a attributes ih =>
    have ha := h a List.mem_cons_self
    have hrest := ih fun x hx => h x (List.mem_cons_of_mem _ hx)
    have hquote : CodePoint.scalar '"' ∉ escape a.2 :=
      not_mem_escape (e := ('"', "quot")) (by simp [entities]) (by simp) a.2
    let key := CodePoint.scalar ' ' :: (a.1 ++ [CodePoint.scalar '='])
    have hkey : .scalar '>' ∉ key ∧ .scalar '"' ∉ key ∧ .scalar '\'' ∉ key := by
      refine ⟨?_, ?_, ?_⟩ <;> simp [key, not_mem_word ha]
    have hsplit : attributesText (a :: attributes) ++ .scalar '>' :: rest =
        key ++ (.scalar '"' :: (escape a.2 ++ .scalar '"' ::
          (attributesText attributes ++ .scalar '>' :: rest))) := by
      simp [key, attributesText_cons, attributeText]
    have hopen : ∀ t : Text, tagLength? none (.scalar '"' :: t) =
        (tagLength? (some '"') t).map (· + 1) := by
      intro t
      simp [tagLength?]
    rw [hsplit, tagLength?_plain hkey, hopen, tagLength?_quoted hquote, hrest]
    simp only [Option.map_some, key, attributesText_cons, attributeText, List.length_append,
      List.length_cons, List.length_nil]
    congr 1
    omega

/-! ## Attributes -/

/-- A text with each white space made a plain blank; an end of line of two characters is one. -/
def plainSpaces : Text → Text
  | [] => []
  | .scalar '\r' :: .scalar '\n' :: rest => .scalar ' ' :: plainSpaces rest
  | c :: rest => (if isSpace c then .scalar ' ' else c) :: plainSpaces rest

theorem attributeValue?_eq_drop (taken : Nat) (t : Text) :
    attributeValue? taken t = attributeValue? 0 (t.drop taken) := by
  induction t generalizing taken with
  | nil => simp [attributeValue?]
  | cons c t ih =>
    cases taken with
    | zero => rfl
    | succ n =>
      rw [attributeValue?, ih n]
      rfl

/-- A line feed at the start of an escaped text was there before. -/
theorem head_escape_newline {t u : Text} (h : escape t = .scalar '\n' :: u) :
    ∃ rest, t = .scalar '\n' :: rest := by
  cases t with
  | nil => cases h
  | cons c t =>
    rw [escape_cons] at h
    rcases escape_singleton c with ⟨e, he, rfl, heq⟩ | ⟨_, heq⟩
    · rw [heq] at h
      cases h
    · rw [heq] at h
      cases h
      exact ⟨t, rfl⟩

/-- An entity in the value of an attribute is its character. -/
theorem attributeValue?_entity {e : Char × String} (he : e ∈ entities) (rest : Text) :
    attributeValue? 0 (.scalar '&' :: (Text.ofString e.2 ++ .scalar ';' :: rest)) =
      (attributeValue? 0 rest).map (CodePoint.scalar e.1 :: ·) := by
  have hdrop : (Text.ofString e.2 ++ .scalar ';' :: rest).drop (e.2.length + 1) = rest := by
    rw [List.drop_append]
    simp
  rw [attributeValue?]
  · simp only [if_true, readReference?_entity he, Option.bind_eq_bind, Option.bind_some]
    rw [attributeValue?_eq_drop, hdrop]
    cases attributeValue? 0 rest <;> rfl
  · rintro _ ⟨⟩

/-- A character that stands for itself, in the value of an attribute. -/
theorem attributeValue?_plain {c : CodePoint} {rest : Text}
    (hline : ∀ more, c = .scalar '\r' → rest ≠ .scalar '\n' :: more)
    (hamp : c ≠ .scalar '&') (hangle : c ≠ .scalar '<') :
    attributeValue? 0 (c :: rest) = if isChar c then
      (attributeValue? 0 rest).map ((if isSpace c then .scalar ' ' else c) :: ·) else none := by
  rw [attributeValue?]
  · rw [if_neg hamp]
    by_cases hc : isChar c = true
    · rw [if_neg (by simp [hangle, hc]), if_pos hc]
      cases attributeValue? 0 rest <;> rfl
    · rw [if_pos (by simp [hc]), if_neg hc]
  · intro more hcr hrest
    exact hline more hcr hrest

/-- The value of an attribute is read back up to its white space. -/
theorem attributeValue?_escape (v : Text) :
    attributeValue? 0 (escape v) = if v.all isChar then some (plainSpaces v) else none := by
  fun_induction plainSpaces v with
  | case1 => simp [attributeValue?]
  | case2 rest ih =>
    have hfeed : ∀ t : Text, attributeValue? 0 (.scalar '\n' :: t) =
        (attributeValue? 0 t).map (CodePoint.scalar ' ' :: ·) := by
      intro t
      rw [attributeValue?_plain (fun _ h => by cases h) (by decide) (by decide), if_pos (by decide)]
      rfl
    have hsplit : escape (.scalar '\r' :: .scalar '\n' :: rest) =
        .scalar '\r' :: .scalar '\n' :: escape rest := by
      rw [escape_cons, escape_cons (.scalar '\n')]
      rfl
    rw [hsplit, attributeValue?, hfeed, ih]
    have hchars : isChar (.scalar '\r') = true ∧ isChar (.scalar '\n') = true := by decide
    simp only [List.all_cons, hchars.1, hchars.2, Bool.true_and]
    cases rest.all isChar <;> rfl
  | case3 c rest hline ih =>
    rw [escape_cons]
    rcases escape_singleton c with ⟨e, he, rfl, heq⟩ | ⟨hplain, heq⟩
    · have hchar : ∀ e ∈ entities, isChar (.scalar e.1) = true ∧ isSpace (.scalar e.1) = false := by
        decide
      rw [heq, List.cons_append, List.append_assoc, List.singleton_append,
        attributeValue?_entity he, ih]
      simp only [List.all_cons, (hchar e he).1, (hchar e he).2, Bool.true_and, Bool.false_eq_true,
        if_false]
      cases rest.all isChar <;> rfl
    · have hline' : ∀ more, c = .scalar '\r' → escape rest ≠ .scalar '\n' :: more := by
        intro more hc hmore
        obtain ⟨tail, rfl⟩ := head_escape_newline hmore
        exact hline tail hc rfl
      rw [heq, List.singleton_append, attributeValue?_plain hline'
        (hplain ('&', "amp") (by decide)) (hplain ('<', "lt") (by decide)), ih]
      simp only [List.all_cons]
      by_cases hc : isChar c = true
      · simp only [hc, if_true, Bool.true_and]
        cases rest.all isChar <;> rfl
      · simp [hc]

/-- The attributes as they are read back. -/
def readBack (attributes : List (Text × Text)) : List (Text × Text) :=
  attributes.map fun a => (a.1, plainSpaces a.2)

/-- Whether all values may stand in a document. -/
def areLegal (attributes : List (Text × Text)) : Bool :=
  attributes.all fun a => a.2.all isChar

theorem readAttribute?_word {a : Text × Text} (ha : isWord a.1 = true) (rest : Text) :
    readAttribute? (a.1 ++ .scalar '=' :: .scalar '"' :: (escape a.2 ++ .scalar '"' :: rest)) =
      if a.2.all isChar then some ((a.1, plainSpaces a.2), rest) else none := by
  have hname : takeName (a.1 ++ .scalar '=' :: .scalar '"' :: (escape a.2 ++ .scalar '"' :: rest)) =
      a.1 := by
    refine takeName_word ha ?_
    rintro c more ⟨⟩
    exact ⟨by decide, by decide⟩
  have hquote : CodePoint.scalar '"' ∉ escape a.2 :=
    not_mem_escape (e := ('"', "quot")) (by simp [entities]) (by simp) a.2
  have hraw : (escape a.2 ++ .scalar '"' :: rest).takeWhile (· ≠ .scalar '"') = escape a.2 :=
    takeWhile_ne_append hquote
  have hspace : isSpace (.scalar '=') = false ∧ isSpace (.scalar '"') = false := by decide
  unfold readAttribute?
  simp only [hname, List.drop_left, List.dropWhile_cons, hspace.1, hspace.2, Bool.false_eq_true,
    if_false, true_or, if_true, hraw, attributeValue?_escape]
  cases a.2.all isChar <;> rfl

/-- The attributes of a tag are read back, if their values may stand in a document. -/
theorem readAttributes?_attributesText {attributes : List (Text × Text)}
    (h : ∀ a ∈ attributes, isWord a.1 = true) {fuel : Nat} (hf : attributes.length < fuel) :
    readAttributes? fuel (attributesText attributes) =
      if areLegal attributes then some (readBack attributes) else none := by
  induction attributes generalizing fuel with
  | nil =>
    cases fuel with
    | zero => cases hf
    | succ fuel => rfl
  | cons a attributes ih =>
    cases fuel with
    | zero => cases hf
    | succ fuel =>
      have ha := h a List.mem_cons_self
      have hrest := ih (fun x hx => h x (List.mem_cons_of_mem _ hx)) (Nat.lt_of_succ_lt_succ hf)
      obtain ⟨c, w, hcw⟩ := List.exists_cons_of_ne_nil (isWord_ne_nil ha)
      have hc : isSpace c = false := by
        have hn := isWord_toNat ha (c := c) (by simp [hcw])
        simp only [isSpace, Bool.or_eq_false_iff, decide_eq_false_iff_not]
        refine ⟨⟨⟨?_, ?_⟩, ?_⟩, ?_⟩ <;> rintro rfl <;> simp [CodePoint.toNat] at hn
      have htrim : (attributesText (a :: attributes)).dropWhile isSpace = a.1 ++ .scalar '=' ::
          .scalar '"' :: (escape a.2 ++ .scalar '"' :: attributesText attributes) := by
        have hblank : isSpace (.scalar ' ') = true := by decide
        simp [attributesText_cons, attributeText, hcw, hblank, hc]
      rw [readAttributes?]
      simp only [htrim]
      rw [if_neg (by simp), if_neg (by simp [attributesText_cons, attributeText]),
        readAttribute?_word ha]
      have hlegal : areLegal (a :: attributes) = (a.2.all isChar && areLegal attributes) := rfl
      rw [hlegal]
      by_cases hv : a.2.all isChar = true
      · rw [if_pos hv, hv, Bool.true_and]
        simp only [Option.bind_eq_bind, Option.bind_some, hrest]
        cases areLegal attributes <;> rfl
      · simp [hv]

/-! ## Tags as pieces -/

/-- The text of attributes ends with a quote. -/
theorem reverse_attributesText_ne {attributes : List (Text × Text)} {more : Text} :
    (attributesText attributes).reverse ≠ .scalar '/' :: more := by
  induction attributes generalizing more with
  | nil => nofun
  | cons a attributes ih =>
    rw [attributesText_cons, List.reverse_append]
    intro h
    cases hr : (attributesText attributes).reverse with
    | nil =>
      rw [hr] at h
      simp [attributeText] at h
    | cons c u =>
      rw [hr] at h
      cases h
      exact ih hr

theorem length_le_attributesText (attributes : List (Text × Text)) :
    attributes.length ≤ (attributesText attributes).length := by
  induction attributes with
  | nil => exact Nat.le_refl _
  | cons a attributes ih =>
    rw [attributesText_cons, List.length_append, List.length_cons]
    simp only [attributeText, List.length_cons]
    omega

/-- What stands between the angles of a start tag. -/
theorem startTag?_word {tag : Text} (ht : isWord tag = true) {attributes : List (Text × Text)}
    (ha : ∀ a ∈ attributes, isWord a.1 = true) :
    startTag? (tag ++ attributesText attributes) =
      if areLegal attributes then some (.startTag tag (readBack attributes) false) else none := by
  have hname : takeName (tag ++ attributesText attributes) = tag := by
    refine takeName_word ht fun c more h => ?_
    rw [head_attributesText h]
    exact ⟨by decide, by decide⟩
  have hne : tag.isEmpty = false := by
    simpa using isWord_ne_nil ht
  have hfuel := Nat.lt_succ_of_le (length_le_attributesText attributes)
  unfold startTag?
  simp only [hname, List.drop_left, hne, Bool.false_eq_true, if_false]
  split
  · next h => exact absurd h reverse_attributesText_ne
  · simp only [readAttributes?_attributesText ha hfuel]
    cases areLegal attributes <;> rfl

/-- A start tag is read as its name and its attributes. -/
theorem pieceAt?_startTag {tag : Text} (ht : isWord tag = true) {attributes : List (Text × Text)}
    (ha : ∀ a ∈ attributes, isWord a.1 = true) (rest : Text) :
    pieceAt? (.scalar '<') (tag ++ (attributesText attributes ++ .scalar '>' :: rest)) =
      if areLegal attributes then some (.startTag tag (readBack attributes) false,
        (tag ++ attributesText attributes).length + 1) else none := by
  have hplain : .scalar '>' ∉ tag ∧ .scalar '"' ∉ tag ∧ .scalar '\'' ∉ tag :=
    ⟨not_mem_word ht (by decide), not_mem_word ht (by decide), not_mem_word ht (by decide)⟩
  have hlength : tagLength? none (tag ++ (attributesText attributes ++ .scalar '>' :: rest)) =
      some (tag ++ attributesText attributes).length := by
    rw [tagLength?_plain hplain, tagLength?_attributesText ha, Option.map_some, List.length_append,
      Nat.add_comm]
  have htake : (tag ++ (attributesText attributes ++ .scalar '>' :: rest)).take
      (tag ++ attributesText attributes).length = tag ++ attributesText attributes := by
    rw [← List.append_assoc, List.take_left]
  have hmark : ∀ {c : Char}, c.toNat < 0x2D ∨ 0x2D < c.toNat ∧ c.toNat < 0x41 → ∀ more,
      tag ++ (attributesText attributes ++ .scalar '>' :: rest) ≠ .scalar c :: more := by
    intro c hc more h
    obtain ⟨d, w, rfl⟩ := List.exists_cons_of_ne_nil (isWord_ne_nil ht)
    cases h
    exact not_mem_word ht hc List.mem_cons_self
  unfold pieceAt? markupAt?
  rw [if_pos rfl]
  split
  · next h => exact absurd h (hmark (by decide) _)
  · next h => exact absurd h (hmark (by decide) _)
  · next h => exact absurd h (hmark (by decide) _)
  · rw [hlength, Option.bind_some, htake, startTag?_word ht ha]
    cases areLegal attributes <;> rfl

/-- An end tag is read as its name. -/
theorem pieceAt?_endTag {tag : Text} (ht : isWord tag = true) (rest : Text) :
    pieceAt? (.scalar '<') (.scalar '/' :: (tag ++ .scalar '>' :: rest)) =
      some (.endTag tag, tag.length + 2) := by
  have hplain : .scalar '>' ∉ tag ∧ .scalar '"' ∉ tag ∧ .scalar '\'' ∉ tag :=
    ⟨not_mem_word ht (by decide), not_mem_word ht (by decide), not_mem_word ht (by decide)⟩
  have hlength : tagLength? none (tag ++ .scalar '>' :: rest) = some tag.length := by
    rw [tagLength?_plain hplain]
    simp [tagLength?]
  have hname : takeName tag = tag := by
    have hall : takeName (tag ++ []) = tag := takeName_word ht nofun
    simpa using hall
  have hne : tag.isEmpty = false := by
    simpa using isWord_ne_nil ht
  have hend : endTag? tag = some (.endTag tag) := by
    simp [endTag?, hname, hne]
  unfold pieceAt? markupAt?
  simp only [if_true, hlength, Option.bind_some, List.take_left, hend, Option.map_some]

/-! ## Start tags under bindings -/

/-- Attributes whose names are different words, none of them a declaration. -/
structure PlainAttributes (attributes : List (Text × Text)) : Prop where
  word : ∀ a ∈ attributes, isWord a.1 = true
  distinct : (attributes.map Prod.fst).Nodup
  given : ∀ a ∈ attributes, a.1 ≠ Text.ofString "xmlns"

theorem PlainAttributes.readBack {attributes : List (Text × Text)}
    (h : PlainAttributes attributes) : PlainAttributes (readBack attributes) := by
  have hkeys : (Xml.readBack attributes).map Prod.fst = attributes.map Prod.fst := by
    simp [Xml.readBack]
  have hmem : ∀ a ∈ Xml.readBack attributes, ∃ b ∈ attributes, b.1 = a.1 := by
    intro a ha
    obtain ⟨b, hb, rfl⟩ := List.mem_map.mp ha
    exact ⟨b, hb, rfl⟩
  refine ⟨fun a ha => ?_, hkeys ▸ h.distinct, fun a ha => ?_⟩
  · obtain ⟨b, hb, heq⟩ := hmem a ha
    exact heq ▸ h.word b hb
  · obtain ⟨b, hb, heq⟩ := hmem a ha
    exact heq ▸ h.given b hb

/-- Different names without a prefix are told apart. -/
theorem repeated_ofWord (bindings : Bindings) {words : List Text} (h : words.Nodup) :
    bindings.repeated (words.map QName.ofWord) = [] := by
  have hbound : (words.map QName.ofWord).filter (fun q => !bindings.isUnbound q) =
      words.map QName.ofWord := by
    rw [List.filter_eq_self]
    intro q hq
    obtain ⟨w, _, rfl⟩ := List.mem_map.mp hq
    rfl
  unfold Bindings.repeated
  simp only [hbound]
  rw [List.filterMap_eq_nil_iff]
  rintro ⟨q, i⟩ hqi
  rw [Option.bind_eq_none_iff]
  rintro ⟨first, j⟩ hfirst
  have hkey := List.find?_some hfirst
  have hjmem := List.mem_of_find?_eq_some hfirst
  rw [List.mem_zipIdx_iff_getElem?] at hqi hjmem
  rw [List.getElem?_map, Option.map_eq_some_iff] at hqi hjmem
  obtain ⟨w, hw, rfl⟩ := hqi
  obtain ⟨w', hw', rfl⟩ := hjmem
  -- Equal keys are equal words, and these stand at one place only.
  have hsame : w' = w := by
    simpa [Bindings.attributeKey, QName.ofWord] using hkey
  have hij : j = i := by
    have hj : j < words.length := (List.getElem?_eq_some_iff.mp hw').1
    exact (List.getElem?_inj hj h).mp (by rw [hw, hw', hsame])
  rw [if_neg (by simp [hij])]

theorem ofWord_facts {w : Text} (hw : isWord w = true) (hx : w ≠ Text.ofString "xmlns") :
    (QName.ofWord w).isWellFormed = true ∧ (QName.ofWord w).declares? = none ∧
      (∀ l, (QName.ofWord w).isXml l = false) := by
  have hcolon : CodePoint.scalar ':' ∉ w := not_mem_word hw (by decide)
  refine ⟨by simp [QName.isWellFormed, QName.ofWord, hcolon], ?_, fun l => ?_⟩
  · have hhead : ([] : Text) ≠ Text.ofString "xmlns" := by decide
    simp [QName.declares?, QName.ofWord, hx, hhead]
  · have hhead : ([] : Text) ≠ Text.ofString "xml" := by decide
    simp [QName.isXml, QName.ofWord, hhead]

theorem filter_isUnbound_ofWord (bindings : Bindings) (words : List Text) :
    (words.map QName.ofWord).filter bindings.isUnbound = [] := by
  rw [List.filter_eq_nil_iff]
  intro q hq
  obtain ⟨w, _, rfl⟩ := List.mem_map.mp hq
  simp [Bindings.isUnbound, QName.ofWord]

theorem isDistinct_ofWord (bindings : Bindings) {words : List Text} (h : words.Nodup) :
    bindings.isDistinct (words.map QName.ofWord) = true := by
  simp only [Bindings.isDistinct, repeated_ofWord bindings h]
  rfl

/-- Attributes whose names are words, as they are read. -/
def ofWords (attributes : List (Text × Text)) : List (QName × Text) :=
  attributes.map fun a => (QName.ofWord a.1, a.2)

theorem map_fst_ofWords (attributes : List (Text × Text)) :
    (ofWords attributes).map Prod.fst = (attributes.map Prod.fst).map QName.ofWord := by
  simp [ofWords]

namespace PlainAttributes

variable {attributes : List (Text × Text)} (h : PlainAttributes attributes)

include h

theorem mapM_ofText? :
    attributes.mapM (fun a => (QName.ofText? a.1).map fun name => (name, a.2)) =
      some (ofWords attributes) := by
  have hword := h.word
  clear h
  induction attributes with
  | nil => rfl
  | cons a attributes ih =>
    rw [List.mapM_cons, ofText?_word (hword a List.mem_cons_self),
      ih fun x hx => hword x (List.mem_cons_of_mem _ hx)]
    rfl

theorem of_mem_ofWords {x : QName × Text} (hx : x ∈ ofWords attributes) :
    x.1.isWellFormed = true ∧ x.1.declares? = none ∧ ∀ l, x.1.isXml l = false := by
  obtain ⟨a, hmem, rfl⟩ := List.mem_map.mp hx
  exact ofWord_facts (h.word a hmem) (h.given a hmem)

theorem declared_eq_nil : (ofWords attributes).filterMap
    (fun a => a.1.declares?.map fun head => (head, a.2)) = [] := by
  rw [List.filterMap_eq_nil_iff]
  intro x hx
  rw [(h.of_mem_ofWords hx).2.1]
  rfl

theorem given_eq_self :
    (ofWords attributes).filter (fun a => a.1.declares?.isNone) = ofWords attributes := by
  rw [List.filter_eq_self]
  intro x hx
  rw [(h.of_mem_ofWords hx).2.1]
  rfl

theorem reports_eq_nil : (ofWords attributes).flatMap attributeReports = [] := by
  rw [List.flatMap_eq_nil_iff]
  intro x hx
  obtain ⟨h1, h2, h3⟩ := h.of_mem_ofWords hx
  simp [attributeReports, h1, h2, h3, Report.faultIf, Report.warningIf]

theorem identifier_eq_none : (ofWords attributes).find? (fun a => a.1.isXml "id") = none := by
  rw [List.find?_eq_none]
  intro x hx
  simp [(h.of_mem_ofWords hx).2.2]

end PlainAttributes

/-- A start tag with plain attributes declares nothing and breaks no rule. -/
theorem enter?_plain (outer : Bindings) {tag : Text} (ht : isWord tag = true)
    (htag : tag ≠ Text.ofString "xmlns") {attributes : List (Text × Text)}
    (ha : PlainAttributes attributes) :
    outer.enter? tag attributes = some {
      name := outer.elementName (QName.ofWord tag)
      attributes := attributes.map fun a => (.bare a.1, a.2)
      identifier := none
      bindings := outer
      reports := [] } := by
  have hunbound : ((attributes.map Prod.fst).map QName.ofWord ++ [QName.ofWord tag]).filter
      outer.isUnbound = [] := by
    simpa using filter_isUnbound_ofWord outer (attributes.map Prod.fst ++ [tag])
  have hname : (QName.ofWord tag).isWellFormed = true := (ofWord_facts ht htag).1
  have hshown : (ofWords attributes).map (fun a => (outer.attributeName a.1, a.2)) =
      attributes.map fun a => (.bare a.1, a.2) := by
    rw [ofWords, List.map_map]
    rfl
  unfold Bindings.enter?
  simp only [ofText?_word ht, ha.mapM_ofText?, Option.bind_eq_bind, Option.bind_some,
    ha.declared_eq_nil, ha.given_eq_self, ha.reports_eq_nil, ha.identifier_eq_none,
    map_fst_ofWords, List.filter_nil, List.nil_append]
  rw [if_pos ⟨List.nodup_nil, isDistinct_ofWord outer ha.distinct⟩, hunbound,
    repeated_ofWord outer ha.distinct, hname, hshown]
  rfl

end MathMarkup.Xml
