import MathMarkup.Proofs.InputCheck.Counted
import MathMarkup.Proofs.InputCheck.Report
import MathMarkup.Proofs.Spacing
import MathMarkup.Proofs.Xml.Tag

/-!
# The environment tags that the check of a source sees

The check of a source looks for tags at every backslash, be it the one of a command or the second
one of a line break. If no line break is taken for a tag, and no backslash stands in a name, the
tags are found at the commands (`InputCheck.tags_eq_filterMap`).

In balanced tokens an environment has one name at both ends. The check reads it there as well, up to
blanks inside, if no information separator stands before its brace
(`InputCheck.tagOf?_of_nameGroup`), so that the tags match unless the name is written in two ways
(`InputCheck.not_reports_tagHeads`).
-/

namespace MathMarkup

/-! ## Trimmed texts -/

namespace Text

variable {p : CodePoint → Bool} {c : CodePoint}

theorem mem_dropWhile {t : Text} (hc : c ∈ t) (hp : p c = false) : c ∈ t.dropWhile p := by
  rw [← List.takeWhile_append_dropWhile (p := p) (l := t)] at hc
  rcases List.mem_append.mp hc with hc | hc
  · rw [List.mem_takeWhile_imp hc] at hp
    cases hp
  · exact hc

/-- Trimming takes away nothing but what is trimmed. -/
theorem mem_trim {t : Text} (hc : c ∈ t) (hp : p c = false) : c ∈ t.trim p :=
  List.mem_reverse.mpr (mem_dropWhile (List.mem_reverse.mpr (mem_dropWhile hc hp)) hp)

theorem mem_of_mem_trim {t : Text} (hc : c ∈ t.trim p) : c ∈ t :=
  (List.dropWhile_sublist p).subset
    (List.mem_reverse.mp ((List.dropWhile_sublist p).subset (List.mem_reverse.mp hc)))

theorem unspaced_dropWhile (t : Text) : unspaced (t.dropWhile CodePoint.isBlank) = unspaced t := by
  have hblank : unspaced (t.takeWhile CodePoint.isBlank) = [] := by
    rw [unspaced, List.filter_eq_nil_iff]
    intro c hc
    simp [List.mem_takeWhile_imp hc]
  conv_rhs => rw [← List.takeWhile_append_dropWhile (p := CodePoint.isBlank) (l := t)]
  rw [unspaced_append, hblank, List.nil_append]

theorem unspaced_reverse (t : Text) : unspaced t.reverse = (unspaced t).reverse :=
  List.filter_reverse

theorem unspaced_trim (t : Text) : unspaced (t.trim CodePoint.isBlank) = unspaced t := by
  rw [trim, unspaced_reverse, unspaced_dropWhile, unspaced_reverse, unspaced_dropWhile,
    List.reverse_reverse]

end Text

/-- The braces among the code points. -/
def Token.IsBrace (c : CodePoint) : Prop :=
  c = .scalar '\x7b' ∨ c = .scalar '\x7d'

namespace InputCheck

/-! ## Tags -/

/-- The words of tags. -/
def tagWord (opens : Bool) : Text :=
  if opens then "begin" else "end"

/-- What stands behind the backslash of a tag with the given gap and name. -/
def tagBody (opens : Bool) (gap name : Text) : Text :=
  tagWord opens ++ (gap ++ .scalar '\x7b' :: (name ++ [.scalar '\x7d']))

theorem length_tagBody (opens : Bool) (gap name : Text) : (tagBody opens gap name).length =
    (tagWord opens).length + (gap.length + name.length + 2) := by
  simp [tagBody]
  omega

/-- The gap and the name of a tag as the check wants them: spaces, and no braces. -/
def IsTagText (gap name : Text) : Prop :=
  (∀ b ∈ gap, b.isSpace = true) ∧ ∀ c ∈ name, ¬ Token.IsBrace c

theorem bracedName?_eq_some_iff {t name : Text} {n : Nat} :
    bracedName? t = some (name, n) ↔ ∃ gap more,
      t = gap ++ .scalar '\x7b' :: (name ++ .scalar '\x7d' :: more) ∧ IsTagText gap name ∧
      n = gap.length + name.length + 2 := by
  constructor
  · intro h
    simp only [bracedName?] at h
    split at h
    · next rest hgap =>
      split at h
      · next more hname =>
        cases h
        refine ⟨_, more, ?_, ⟨fun b hb => List.mem_takeWhile_imp hb, fun c hc hbrace => ?_⟩, rfl⟩
        · rw [← hname, List.prefix_iff_eq_append.mp (List.takeWhile_prefix _), ← hgap,
            List.prefix_iff_eq_append.mp (List.takeWhile_prefix _)]
        · have hother := List.mem_takeWhile_imp hc
          rcases hbrace with rfl | rfl <;> simp at hother
      · cases h
    · cases h
  · rintro ⟨gap, more, rfl, ⟨hgap, hname⟩, rfl⟩
    have hspaces : (gap ++ .scalar '\x7b' :: (name ++ .scalar '\x7d' :: more)).takeWhile
        CodePoint.isSpace = gap := by
      rw [Text.takeWhile_append_cons (by decide), List.takeWhile_eq_self_iff.mpr hgap]
    have hinside : (name ++ .scalar '\x7d' :: more).takeWhile
        (fun c => c ≠ .scalar '\x7b' && c ≠ .scalar '\x7d') = name := by
      rw [Text.takeWhile_append_cons (by decide), List.takeWhile_eq_self_iff.mpr]
      intro c hc
      have hother := hname c hc
      simpa [Token.IsBrace] using hother
    simp only [bracedName?, hspaces, List.drop_left, hinside]

theorem tagAt?_eq_some_iff {offset : Nat} {rest : Text} {tag : Tag} {n : Nat} :
    tagAt? offset rest = some (tag, n) ↔ ∃ opens gap name more,
      rest = tagBody opens gap name ++ more ∧ IsTagText gap name ∧
      tag = ⟨offset, opens, name.trim CodePoint.isBlank⟩ ∧ n = (tagBody opens gap name).length := by
  constructor
  · intro h
    obtain ⟨⟨opens, length⟩, hword, hname⟩ := Option.bind_eq_some_iff.mp h
    obtain ⟨⟨name, more⟩, hbraced, heq⟩ := Option.map_eq_some_iff.mp hname
    cases heq
    obtain ⟨gap, behind, hrest, htext, rfl⟩ := bracedName?_eq_some_iff.mp hbraced
    have hstart : rest = tagWord opens ++ rest.drop length ∧ length = (tagWord opens).length := by
      split_ifs at hword with hbegin hend
      · cases hword
        obtain ⟨tail, rfl⟩ := List.isPrefixOf_iff_prefix.mp hbegin
        exact ⟨rfl, rfl⟩
      · cases hword
        obtain ⟨tail, rfl⟩ := List.isPrefixOf_iff_prefix.mp hend
        exact ⟨rfl, rfl⟩
    refine ⟨opens, gap, name, behind, ?_, htext, rfl, ?_⟩
    · rw [hstart.1, hrest, tagBody]
      simp
    · rw [hstart.2, length_tagBody]
  · rintro ⟨opens, gap, name, more, rfl, htext, rfl, rfl⟩
    have hparts : gap ++ .scalar '\x7b' :: (name ++ [.scalar '\x7d']) ++ more =
        gap ++ .scalar '\x7b' :: (name ++ .scalar '\x7d' :: more) := by simp
    have hbraced := bracedName?_eq_some_iff.mpr ⟨gap, more, hparts, htext, rfl⟩
    have htag : tagAt? offset (tagBody opens gap name ++ more) =
        (bracedName? (gap ++ .scalar '\x7b' :: (name ++ [.scalar '\x7d']) ++ more)).map
          fun x => (⟨offset, opens, x.1.trim CodePoint.isBlank⟩, (tagWord opens).length + x.2) := by
      cases opens <;> rfl
    rw [htag, hbraced, Option.map_some, length_tagBody]

/-! ## The tags of a source -/

/-- The tag that the check sees at the backslash of a command. -/
def tagOf? (source : Text) (t : Token) : Option Tag :=
  if t.kind = .command then
    (tagAt? t.offset.toNat (source.drop (t.offset.toNat + 1))).map Prod.fst
  else none

/-- Whether the check sees a tag at the second backslash of a line break. -/
def breakTag? (source : Text) (t : Token) : Option Tag :=
  if t.isCommand "\\\\" then
    (tagAt? (t.offset.toNat + 1) (source.drop (t.offset.toNat + 2))).map Prod.fst
  else none

/-- Counting down is jumping. -/
theorem tags_eq_tags_drop (taken offset : Nat) (t : Text) :
    tags taken offset t = tags 0 (offset + taken) (t.drop taken) := by
  induction t generalizing taken offset with
  | nil => simp [tags]
  | cons c t ih =>
    cases taken with
    | zero => rfl
    | succ taken =>
      rw [tags, ih, List.drop_succ_cons]
      congr 1
      omega

/-- Where no backslash stands, there is no tag. -/
theorem tags_append {u : Text} (hu : .scalar '\\' ∉ u) (offset : Nat) (t : Text) :
    tags 0 offset (u ++ t) = tags 0 (offset + u.length) t := by
  induction u generalizing offset with
  | nil => rfl
  | cons c u ih =>
    simp only [List.mem_cons, not_or] at hu
    have hrest := ih hu.2 (offset + 1)
    rw [Nat.add_assoc, Nat.add_comm 1] at hrest
    simp only [List.cons_append, tags, if_neg (Ne.symm hu.1), hrest, List.length_cons]

/-- A tag without a backslash in its name may be passed over or not. -/
theorem tags_of_tagAt? {offset n : Nat} {rest : Text} {tag : Tag}
    (h : tagAt? offset rest = some (tag, n)) (hname : .scalar '\\' ∉ tag.name) (next : Nat) :
    tags n next rest = tags 0 next rest := by
  obtain ⟨opens, gap, name, more, rfl, ⟨hgap, -⟩, rfl, rfl⟩ := tagAt?_eq_some_iff.mp h
  have hbody : .scalar '\\' ∉ tagBody opens gap name := by
    have hword : .scalar '\\' ∉ tagWord opens := by cases opens <;> decide
    have hspace : .scalar '\\' ∉ gap := fun hmem => absurd (hgap _ hmem) (by decide)
    have hinside : .scalar '\\' ∉ name := fun hmem => hname (Text.mem_trim hmem (by decide))
    simp [tagBody, hword, hspace, hinside]
  rw [tags_eq_tags_drop, List.drop_left, tags_append hbody]

/-- Behind the backslash of a command there is no further tag up to the end of the command, unless
the command is a line break. -/
theorem tags_behind_command {offset : Nat} {rest : Text}
    (h : ∀ more, rest = .scalar '\\' :: more → tagAt? offset more = none) :
    tags 0 offset rest =
      tags 0 (offset + Token.commandTail rest) (rest.drop (Token.commandTail rest)) := by
  cases rest with
  | nil => rfl
  | cons c rest =>
    simp only [Token.commandTail]
    split_ifs with hletter hone
    · have hname : .scalar '\\' ∉ c :: rest.takeWhile CodePoint.isAsciiLetter := by
        intro hmem
        have hall : ∀ d ∈ c :: rest.takeWhile CodePoint.isAsciiLetter, d.isAsciiLetter = true := by
          simpa [hletter] using fun d hd => List.mem_takeWhile_imp hd
        exact absurd (hall _ hmem) (by decide)
      have hjump := tags_append hname offset
        (rest.drop (rest.takeWhile CodePoint.isAsciiLetter).length)
      rw [List.cons_append, List.prefix_iff_eq_append.mp (List.takeWhile_prefix _)] at hjump
      rw [hjump, List.length_cons, Nat.add_comm 1, List.drop_succ_cons]
    · by_cases hc : c = .scalar '\\'
      · subst hc
        rw [tags, if_pos rfl, h rest rfl]
        rfl
      · exact tags_append (u := [c]) (by simpa using Ne.symm hc) offset rest
    · rfl

/-- A token misleads the check in no way: if it is a line break, its second backslash starts no tag,
and if it starts a tag itself, no backslash stands in the name. -/
def Clean (source : Text) (t : Token) : Prop :=
  breakTag? source t = none ∧ ∀ tag ∈ tagOf? source t, .scalar '\\' ∉ tag.name

section Command

variable {source pre rest tail : Text} {place : Place}

theorem tagOf?_command (hsource : source = pre ++ .scalar '\\' :: rest)
    (hplace : place.offset = pre.length) :
    tagOf? source ⟨.command, .scalar '\\' :: tail, place⟩ =
      (tagAt? pre.length rest).map Prod.fst := by
  have hoffset : (Token.mk .command (.scalar '\\' :: tail) place).offset.toNat = pre.length := by
    rw [Token.offset, hplace, Int.toNat_natCast]
  rw [tagOf?, if_pos rfl, hoffset, hsource, List.drop_length_add_append]
  rfl

theorem tags_command (hsource : source = pre ++ .scalar '\\' :: rest)
    (hplace : place.offset = pre.length) (htail : tail = rest.take (Token.commandTail rest))
    (hclean : Clean source ⟨.command, .scalar '\\' :: tail, place⟩) :
    tags 0 pre.length (.scalar '\\' :: rest) =
      (tagOf? source ⟨.command, .scalar '\\' :: tail, place⟩).toList ++
        tags 0 (pre.length + 1 + Token.commandTail rest) (rest.drop (Token.commandTail rest)) := by
  obtain ⟨hbreak, hname⟩ := hclean
  have hbehind : ∀ more, rest = .scalar '\\' :: more → tagAt? (pre.length + 1) more = none := by
    rintro more rfl
    have hvalue : tail = [.scalar '\\'] := htail
    have hisBreak : (Token.mk .command (.scalar '\\' :: tail) place).isCommand "\\\\" = true := by
      rw [hvalue]
      rfl
    have hoffset : (Token.mk .command (.scalar '\\' :: tail) place).offset.toNat = pre.length := by
      rw [Token.offset, hplace, Int.toNat_natCast]
    rw [breakTag?, if_pos hisBreak, hoffset, hsource, List.drop_length_add_append] at hbreak
    exact Option.map_eq_none_iff.mp hbreak
  rw [tagOf?_command hsource hplace] at hname ⊢
  rw [← tags_behind_command hbehind, tags, if_pos rfl]
  cases htag : tagAt? pre.length rest with
  | none => rfl
  | some found =>
    have hjump := tags_of_tagAt? htag (hname found.1 (by rw [htag]; rfl)) (pre.length + 1)
    dsimp only
    rw [hjump]
    rfl

end Command

/-- The tags of a source are found at its commands, if no token is misleading. -/
theorem tags_eq_filterMap_scan {source pre t : Text} {place : Place} (hsource : source = pre ++ t)
    (hplace : place.offset = pre.length) (hclean : ∀ x ∈ Token.scan 0 place t, Clean source x) :
    tags 0 pre.length t = (Token.scan 0 place t).filterMap (tagOf? source) := by
  induction hn : t.length using Nat.strong_induction_on generalizing pre t place with
  | _ n ih =>
    subst hn
    cases t with
    | nil => rfl
    | cons c rest =>
      have later : ∀ k, (∀ x ∈ Token.scan 0 (place.after (c :: rest.take k)) (rest.drop k),
          Clean source x) → tags 0 (pre.length + (c :: rest.take k).length) (rest.drop k) =
          (Token.scan 0 (place.after (c :: rest.take k)) (rest.drop k)).filterMap
            (tagOf? source) := by
        intro k hclean
        have hlength : (rest.drop k).length < (c :: rest).length := by
          rw [List.length_drop, List.length_cons]
          omega
        have hparts : source = (pre ++ (c :: rest.take k)) ++ rest.drop k := by
          rw [hsource, List.append_assoc, List.cons_append, List.take_append_drop]
        rw [← List.length_append]
        refine ih _ hlength hparts ?_ hclean rfl
        rw [Place.offset_after, hplace, List.length_append]
        rfl
      by_cases hblank : c.isBlank = true
      · have hscan : Token.scan 0 place (c :: rest) = Token.scan 0 (place.after [c]) rest :=
          if_pos hblank
        rw [hscan] at hclean ⊢
        have hplain : .scalar '\\' ∉ [c] := by
          intro hmem
          rw [← List.mem_singleton.mp hmem] at hblank
          exact absurd hblank (by decide)
        exact (tags_append hplain _ rest).trans (later 0 hclean)
      rw [Bool.not_eq_true] at hblank
      rw [Token.scan_cons hblank] at hclean ⊢
      have hlater := later _ fun x hx => hclean x (List.mem_cons_of_mem _ hx)
      have hhead := hclean _ List.mem_cons_self
      by_cases hc : c = .scalar '\\'
      · subst hc
        have htoken : Token.lexeme (.scalar '\\') rest = (.command, Token.commandTail rest) :=
          if_pos rfl
        rw [htoken] at hlater hhead ⊢
        rw [tags_command hsource hplace rfl hhead, List.filterMap_cons, ← hlater, List.length_cons,
          List.length_take_of_le (Token.commandTail_le rest), Nat.add_right_comm, Nat.add_assoc]
        cases tagOf? source _ <;> rfl
      · -- A token that is no command holds no backslash, so the check sees no tag in it.
        have hplain : .scalar '\\' ∉ c :: rest.take (Token.lexeme c rest).2 := by
          simp only [List.mem_cons, not_or]
          exact ⟨Ne.symm hc, fun hmem => (inert_of_mem_lexeme hc hmem).1 rfl⟩
        have hjump := tags_append hplain pre.length (rest.drop (Token.lexeme c rest).2)
        rw [List.cons_append, List.take_append_drop] at hjump
        have hnone : tagOf? source ⟨(Token.lexeme c rest).1,
            c :: rest.take (Token.lexeme c rest).2, place⟩ = none :=
          if_neg (kind_lexeme_ne_command hc rest)
        rw [List.filterMap_cons_none hnone, ← hlater, hjump]

/-- The tags of a source are found at its commands, if no token is misleading. -/
theorem tags_eq_filterMap {source : Text} (hclean : ∀ x ∈ Token.tokenize source, Clean source x) :
    tags 0 0 source = (Token.tokenize source).filterMap (tagOf? source) := by
  show tags 0 ([] : Text).length source = _
  exact tags_eq_filterMap_scan rfl rfl hclean

/-! ## Tags and their tokens -/

theorem commandTail_tagBody (opens : Bool) {gap : Text} (hgap : ∀ b ∈ gap, b.isSpace = true)
    (name more : Text) :
    Token.commandTail (tagBody opens gap name ++ more) = (tagWord opens).length := by
  obtain ⟨c, behind, hbehind, hc⟩ : ∃ c behind,
      tagBody opens gap name ++ more = tagWord opens ++ c :: behind ∧ c.isAsciiLetter = false := by
    cases gap with
    | nil => exact ⟨_, _, List.append_assoc _ _ _, rfl⟩
    | cons b gap =>
      exact ⟨b, _, List.append_assoc _ _ _,
        CodePoint.isAsciiLetter_eq_false_of_isSpace (hgap b List.mem_cons_self)⟩
  rw [hbehind]
  cases opens <;> exact Token.commandTail_letters (by decide) (by decide) (by simpa using hc)

/-- The command of a tag. -/
def tagCommand (opens : Bool) : Text :=
  .scalar '\\' :: tagWord opens

section Tokens

variable {source : Text} {t b : Token}

/-- Only the commands of tags start one. -/
theorem isCommand_of_tagOf? (ht : t ∈ Token.tokenize source) {tag : Tag}
    (h : tagOf? source t = some tag) : ∃ opens, t.isCommand (tagCommand opens) = true := by
  obtain ⟨u, w, hsplit⟩ := List.append_of_mem ht
  obtain ⟨before, c, rest, hsource, hoffset, hkind, hvalue, -⟩ := Token.scan_eq_append_cons hsplit
  have hcommand : t.kind = .command := by
    by_contra hkind
    rw [tagOf?, if_neg hkind] at h
    cases h
  have hc : c = .scalar '\\' := by
    by_contra hc
    exact kind_lexeme_ne_command hc rest (hkind.symm.trans hcommand)
  subst hc
  have hlexeme : Token.lexeme (.scalar '\\') rest = (.command, Token.commandTail rest) := if_pos rfl
  rw [hlexeme] at hvalue
  obtain ⟨kind, value, place⟩ := t
  cases hcommand
  cases hvalue
  rw [tagOf?_command hsource (hoffset.trans (Int.zero_add _))] at h
  obtain ⟨⟨_, n⟩, hfound, rfl⟩ := Option.map_eq_some_iff.mp h
  obtain ⟨opens, gap, name, more, rfl, ⟨hgap, -⟩, -, -⟩ := tagAt?_eq_some_iff.mp hfound
  refine ⟨opens, Token.is_iff.mpr ⟨rfl, ?_⟩⟩
  show _ :: List.take _ _ = _
  rw [commandTail_tagBody opens hgap, tagBody, List.append_assoc, List.take_left]
  rfl

/-- A token of a name is a letter or an asterisk. -/
theorem not_mem_of_isNamePiece {c : CodePoint} (hc : c ∈ Text.ofString "\\\x7b\x7d")
    (ht : Parser.isNamePiece t = true) : c ∉ t.value := by
  intro hmem
  simp only [Parser.isNamePiece, Bool.and_eq_true, Bool.or_eq_true, decide_eq_true_eq] at ht
  rcases ht.2 with halpha | hstar
  · simp only [Text.isAlphabetic, Bool.and_eq_true, List.all_eq_true] at halpha
    have hletter := halpha.2 c hmem
    have hall : ∀ c ∈ Text.ofString "\\\x7b\x7d", c.isLetter = false := by decide +kernel
    rw [hall c hc] at hletter
    cases hletter
  · rw [hstar] at hmem
    revert c
    decide

/-- The tokens of a name as they stand in a text. -/
theorem exists_tagText_of_scan {n w : List Token} {name t : Text} {place : Place}
    (hn : Parser.NameGroup n name) (h : Token.scan 0 place t = n ++ w) :
    ∃ (d : Token) (gap inner more : Text), n.head? = some d ∧ d.isOpenBrace = true ∧
      d.place = place.after gap ∧ (∀ b ∈ gap, b.isBlank = true) ∧
      t = gap ++ .scalar '\x7b' :: (inner ++ .scalar '\x7d' :: more) ∧
      Text.unspaced inner = Text.unspaced name ∧
      ∀ c ∈ Text.ofString "\\\x7b\x7d", c ∉ inner := by
  obtain ⟨d, pieces, closing, rfl, hd, -, hpieces, hclosing, rfl⟩ := hn
  simp only [List.cons_append, List.append_assoc] at h
  obtain ⟨gap, c, rest, rfl, hgap, hblank, hfirst⟩ := Token.exists_of_scan_eq_cons h
  obtain rfl : c = .scalar '\x7b' := by
    have hvalue := (Token.is_iff.mp hd).2
    rw [hfirst] at hvalue
    exact (List.cons.inj hvalue).1
  rw [Token.scan_blanks hgap, Token.scan_cons hblank] at h
  obtain ⟨inner, c, more, hrest, -, hvalue, hinner⟩ :=
    Token.exists_of_scan_eq (List.cons.inj h).2
  obtain rfl : c = .scalar '\x7d' := by
    rw [(Token.is_iff.mp hclosing).2] at hvalue
    exact (List.cons.inj hvalue).1.symm
  refine ⟨d, gap, inner, more, rfl, hd, by rw [hfirst], hgap, ?_, ?_, ?_⟩
  · rw [← hrest]
    rfl
  · rw [hinner, List.flatMap_def]
  · -- What is no blank stands in one of the pieces, and these are letters and asterisks.
    intro c hc hmem
    have hall : ∀ c ∈ Text.ofString "\\\x7b\x7d", c.isBlank = false := by decide
    have hshown : c ∈ Text.unspaced inner := List.mem_filter.mpr ⟨hmem, by simp [hall c hc]⟩
    rw [hinner] at hshown
    obtain ⟨x, hx, hxc⟩ := List.mem_flatMap.mp (List.mem_filter.mp hshown).1
    exact not_mem_of_isNamePiece hc (hpieces x hx) hxc

/-- The name that the check reads behind a command of a tag is that of the tokens up to blanks, if
no information separator stands before its brace. -/
theorem tagOf?_of_nameGroup {n w : List Token} {name : Text}
    (hw : b :: (n ++ w) <:+ Token.tokenize source) (opens : Bool)
    (hb : b.isCommand (tagCommand opens) = true) (hn : Parser.NameGroup n name)
    (hparted : ∀ d, d.isOpenBrace = true → ¬ Parted source b d) :
    ∃ shown, tagOf? source b = some ⟨b.offset.toNat, opens, shown⟩ ∧
      Text.unspaced shown = Text.unspaced name ∧ .scalar '\\' ∉ shown := by
  obtain ⟨u, hu⟩ := hw
  obtain ⟨before, c, rest, hsource, hoffset, -, hvalue, hrest⟩ := Token.scan_eq_append_cons hu.symm
  obtain ⟨kind, value, place⟩ := b
  obtain ⟨hkind, hcommand⟩ := Token.is_iff.mp hb
  cases hkind
  rw [hcommand] at hvalue
  obtain ⟨rfl, htail⟩ := List.cons.inj hvalue
  rw [Token.scan_eq_scan_drop, ← htail] at hrest
  obtain ⟨d, gap, inner, more, hd, hopen, hplace, hgap, hdrop, hinner, hnone⟩ :=
    exists_tagText_of_scan hn hrest.symm
  have hparts : rest =
      tagWord opens ++ (gap ++ .scalar '\x7b' :: (inner ++ .scalar '\x7d' :: more)) := by
    rw [← hdrop, htail, List.take_append_drop]
  have hbefore : place.offset = before.length := hoffset.trans (Int.zero_add _)
  have hspace : ∀ x ∈ gap, x.isSpace = true := by
    intro x hx
    by_contra hx'
    refine hparted d hopen ⟨?_, x, ?_, by simpa using hx'⟩
    · obtain ⟨n', rfl⟩ := List.head?_eq_some_iff.mp hd
      exact ⟨u, n' ++ w, by rw [← hu]; simp⟩
    · obtain ⟨kind', value', place'⟩ := d
      cases hplace
      cases hcommand
      have hwhole : source = before ++ (tagCommand opens ++
          (gap ++ .scalar '\x7b' :: (inner ++ .scalar '\x7d' :: more))) := by
        rw [hsource, hparts]
        rfl
      have hbetween := gapBetween_eq .command kind' value' hwhole hbefore
      rw [← hbetween] at hx
      exact hx
  have hbody : rest = tagBody opens gap inner ++ more := by
    rw [hparts]
    simp [tagBody]
  have hbraces : ∀ c ∈ inner, ¬ Token.IsBrace c := by
    rintro c hc (rfl | rfl)
    · exact hnone _ (by decide) hc
    · exact hnone _ (by decide) hc
  have htag : tagAt? before.length rest =
      some (⟨before.length, opens, inner.trim CodePoint.isBlank⟩,
        (tagBody opens gap inner).length) :=
    tagAt?_eq_some_iff.mpr ⟨opens, gap, inner, more, hbody, ⟨hspace, hbraces⟩, rfl, rfl⟩
  refine ⟨inner.trim CodePoint.isBlank, ?_, (Text.unspaced_trim _).trans hinner,
    fun hmem => hnone _ (by decide) (Text.mem_of_mem_trim hmem)⟩
  cases hcommand
  rw [Token.offset, hbefore, Int.toNat_natCast]
  exact (tagOf?_command hsource hbefore).trans (congrArg _ htag)

end Tokens

/-! ## Where the check and the tokens differ -/

/-- An information separator parts a command of a tag from the brace behind it. -/
def PartsTag (source : Text) : Prop :=
  ∃ opens b d, b.isCommand (tagCommand opens) = true ∧ d.isOpenBrace = true ∧ Parted source b d

/-- The second backslash of a line break makes a tag with what stands behind it. -/
def BreaksIntoTag (source : Text) : Prop :=
  ∃ t ∈ Token.tokenize source, (breakTag? source t).isSome = true

/-- Two tags have the same name up to blanks inside, but not the same. -/
def VariesName (source : Text) : Prop :=
  ∃ s ∈ Token.tokenize source, ∃ t ∈ Token.tokenize source, ∃ a ∈ tagOf? source s,
    ∃ b ∈ tagOf? source t, a.name ≠ b.name ∧ Text.unspaced a.name = Text.unspaced b.name

/-! ## Balanced tokens -/

theorem tagErrors_opening {tag : Tag} (pending : List Tag) (h : tag.opens = true)
    (rest : List Tag) : tagErrors pending (tag :: rest) = tagErrors (tag :: pending) rest := by
  cases pending <;> rw [tagErrors, if_pos h]

theorem tagErrors_closing {opening tag : Tag} (outer : List Tag) (h : tag.opens = false)
    (hname : opening.name = tag.name) (rest : List Tag) :
    tagErrors (opening :: outer) (tag :: rest) = tagErrors outer rest := by
  simp [tagErrors, h, hname]

/-- The tags at the tokens leave the same environments open that were open before, and no backslash
stands in a name. -/
structure Neutral (source : Text) (w : List Token) : Prop where
  names : ∀ t ∈ w, ∀ tag ∈ tagOf? source t, .scalar '\\' ∉ tag.name
  errors : ∀ pending rest,
    tagErrors pending (w.filterMap (tagOf? source) ++ rest) = tagErrors pending rest

namespace Neutral

variable {source : Text} {b e t : Token} {n n' u v w : List Token} {name : Text}

theorem of_none (h : ∀ t ∈ w, tagOf? source t = none) : Neutral source w where
  names t ht tag htag := by
    rw [h t ht] at htag
    cases htag
  errors pending rest := by
    rw [List.filterMap_eq_nil_iff.mpr h, List.nil_append]

theorem append (hu : Neutral source u) (hv : Neutral source v) : Neutral source (u ++ v) where
  names t ht := (List.mem_append.mp ht).elim (hu.names t) (hv.names t)
  errors pending rest := by
    rw [List.filterMap_append, List.append_assoc, hu.errors, hv.errors]

theorem token (ht : t ∈ Token.tokenize source) (hbegin : t.isCommand "\\begin" = false)
    (hend : t.isCommand "\\end" = false) : Neutral source [t] := by
  refine of_none fun x hx => ?_
  rw [List.mem_singleton.mp hx, Option.eq_none_iff_forall_ne_some]
  intro tag htag
  obtain ⟨opens, hopens⟩ := isCommand_of_tagOf? ht htag
  cases opens
  · exact Bool.false_ne_true (hend.symm.trans hopens)
  · exact Bool.false_ne_true (hbegin.symm.trans hopens)

theorem of_role {g : Grammar} (ht : t ∈ Token.tokenize source) (hb : Parser.role g t ≠ .begins)
    (he : Parser.role g t ≠ .ends) : Neutral source [t] := by
  refine token ht ?_ ?_
  · rwa [← Bool.not_eq_true, Parser.isBegin_iff g]
  · rwa [← Bool.not_eq_true, Parser.isEnd_iff g]

theorem nameGroup (h : Parser.NameGroup n name) : Neutral source n :=
  of_none fun _ hx => if_neg (h.kind_of_mem hx).1

theorem environment (hparted : ¬ PartsTag source) (hvaries : ¬ VariesName source)
    (hb : b.isCommand "\\begin" = true) (hn : Parser.NameGroup n name) (hu : Neutral source u)
    (he : e.isCommand "\\end" = true) (hn' : Parser.NameGroup n' name)
    (hw : b :: (n ++ (u ++ e :: n')) <:+: Token.tokenize source) :
    Neutral source (b :: (n ++ (u ++ e :: n'))) := by
  obtain ⟨before, behind, htokens⟩ := hw
  have hstart : b :: (n ++ (u ++ e :: n' ++ behind)) <:+ Token.tokenize source :=
    ⟨before, by rw [← htokens]; simp⟩
  have hstop : e :: (n' ++ behind) <:+ Token.tokenize source :=
    ⟨before ++ (b :: (n ++ u)), by rw [← htokens]; simp⟩
  obtain ⟨shown, hopening, hshown, hplain⟩ := tagOf?_of_nameGroup hstart true hb hn
    fun d hd h => hparted ⟨true, b, d, hb, hd, h⟩
  obtain ⟨shown', hclosing, hshown', -⟩ := tagOf?_of_nameGroup hstop false he hn'
    fun d hd h => hparted ⟨false, e, d, he, hd, h⟩
  obtain rfl : shown = shown' := by
    by_contra hne
    exact hvaries ⟨b, hstart.subset List.mem_cons_self, e, hstop.subset List.mem_cons_self, _,
      hopening, _, hclosing, hne, hshown.trans hshown'.symm⟩
  have hname : Neutral source n := nameGroup hn
  have hname' : Neutral source n' := nameGroup hn'
  constructor
  · intro t ht tag htag
    have hmem : t = b ∨ t ∈ n ∨ t ∈ u ∨ t = e ∨ t ∈ n' := by simpa using ht
    rcases hmem with rfl | ht | ht | rfl | ht
    · cases hopening.symm.trans htag
      exact hplain
    · exact hname.names t ht tag htag
    · exact hu.names t ht tag htag
    · cases hclosing.symm.trans htag
      exact hplain
    · exact hname'.names t ht tag htag
  · intro pending rest
    -- The name of the opening tag waits on the stack while the content passes.
    rw [List.filterMap_cons_some hopening, List.filterMap_append, List.filterMap_append,
      List.filterMap_cons_some hclosing]
    simp only [List.cons_append, List.append_assoc]
    rw [tagErrors_opening _ rfl, hname.errors, hu.errors, tagErrors_closing, hname'.errors]
    · rfl
    · rfl

/-- The tags of balanced tokens match. -/
theorem of_balanced {g : Grammar} (hg : g.Regular) (hparted : ¬ PartsTag source)
    (hvaries : ¬ VariesName source) (h : Parser.Balanced g w) (hw : w <:+: Token.tokenize source) :
    Neutral source w := by
  revert hw
  refine h.of_parts (p := fun w => w <:+: Token.tokenize source → Neutral source w)
    (fun _ => of_none nofun) (fun hu hv hw => ?_) (fun ht hw => ?_) (fun hd hw => ?_)
    (fun {o c _} ho hu hc hw => ?_) fun hb hn hu he hn' hw => ?_
  · exact append (hu hw.left) (hv hw.right)
  · simp only [List.mem_cons, not_or] at ht
    exact of_role (hw.subset List.mem_cons_self) ht.2.2.1 ht.2.2.2.1
  · obtain ⟨-, -, hbegin, hend⟩ := Parser.isDelimiter_apart hg hd
    exact token (hw.subset List.mem_cons_self) hbegin hend
  · have hopen : Neutral source [o] :=
      of_role (hw.subset List.mem_cons_self) (by rw [ho]; decide) (by rw [ho]; decide)
    have hclose : Neutral source [c] :=
      of_role (hw.subset (by simp)) (by rw [hc]; decide) (by rw [hc]; decide)
    exact hopen.append ((hu hw.tail.left).append hclose)
  · exact environment hparted hvaries ((Parser.isBegin_iff g).mpr hb) hn (hu hw.tail.right.left)
      ((Parser.isEnd_iff g).mpr he) hn' hw

end Neutral

/-- Nothing is reported about the environments of a balanced source, if the check sees the tags that
the tokens make up. -/
theorem not_reports_tagHeads {g : Grammar} {source : Text} (hg : g.Regular)
    (hparted : ¬ PartsTag source) (hbreaks : ¬ BreaksIntoTag source) (hvaries : ¬ VariesName source)
    (h : Parser.Balanced g (Token.tokenize source)) (limit : Number) :
    ¬ Reports (check limit (.text source)) tagHeads := by
  have hneutral := Neutral.of_balanced hg hparted hvaries h (List.infix_refl _)
  have hclean : ∀ t ∈ Token.tokenize source, Clean source t := by
    refine fun t ht => ⟨?_, hneutral.names t ht⟩
    rw [← Option.not_isSome_iff_eq_none]
    exact fun hsome => hbreaks ⟨t, ht, hsome⟩
  rw [not_reports_tagHeads_iff, environmentErrors, tags_eq_filterMap hclean]
  have herrors := hneutral.errors [] []
  rw [List.append_nil] at herrors
  exact herrors

end InputCheck

end MathMarkup
