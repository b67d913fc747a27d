import Mathlib.Data.List.Infix
import MathMarkup.Proofs.Columns
import MathMarkup.Proofs.Parser.Standalone
import MathMarkup.Proofs.Token

/-!
# Spacing does not matter

Two sources with the same tokens, wherever these stand, are parsed alike. The places of tokens are
compared with each other only, and the one text that is read from the source itself, where no
command reads a raw group, is the column specification of an environment. It has the same code
points in both sources up to blanks, and blanks list no column.
-/

namespace MathMarkup

/-! ## Texts without their blanks -/

/-- The text without its blanks. -/
def Text.unspaced (t : Text) : Text :=
  t.filter fun c => !c.isBlank

namespace Text

theorem unspaced_cons_of_blank {c : CodePoint} (h : c.isBlank = true) (t : Text) :
    unspaced (c :: t) = unspaced t :=
  List.filter_cons_of_neg (by simp [h])

theorem unspaced_cons_of_not_blank {c : CodePoint} (h : c.isBlank = false) (t : Text) :
    unspaced (c :: t) = c :: unspaced t :=
  List.filter_cons_of_pos (by simp [h])

theorem unspaced_append (t u : Text) : unspaced (t ++ u) = unspaced t ++ unspaced u :=
  List.filter_append ..

end Text

/-! ## Column specifications -/

namespace Environment

theorem skipArgument?_unspaced (t : Text) :
    skipArgument? t.unspaced = (skipArgument? t).map Text.unspaced := by
  induction t with
  | nil => rfl
  | cons c t ih =>
    by_cases hblank : c.isBlank = true
    · have hclose : c ≠ .scalar '\x7d' := by
        rintro rfl
        exact absurd hblank (by decide)
      have hopen : c ≠ .scalar '\x7b' := by
        rintro rfl
        exact absurd hblank (by decide)
      rw [Text.unspaced_cons_of_blank hblank, ih, skipArgument?, if_neg hclose, if_neg hopen]
    · rw [Text.unspaced_cons_of_not_blank (by simpa using hblank)]
      simp only [skipArgument?]
      split
      · rfl
      · split
        · rfl
        · exact ih

theorem unspaced_dropArguments (t : Text) :
    (dropArguments 0 t).unspaced = dropArguments 0 t.unspaced := by
  induction t using passInduction with
  | nil => rfl
  | argument body rest hbody ih =>
    have hunspaced : ∀ c ∈ body.unspaced, c ≠ .scalar '\x7b' ∧ c ≠ .scalar '\x7d' :=
      fun c hc => hbody c (List.mem_of_mem_filter hc)
    rw [dropArguments_argument hbody, ih, Text.unspaced_cons_of_not_blank (by decide),
      Text.unspaced_append, Text.unspaced_cons_of_not_blank (by decide),
      dropArguments_argument hunspaced]
  | kept c rest hkeep ih =>
    rw [dropArguments_cons hkeep]
    by_cases hblank : c.isBlank = true
    · rw [Text.unspaced_cons_of_blank hblank, Text.unspaced_cons_of_blank hblank, ih]
    · rw [Bool.not_eq_true] at hblank
      have hkeep' : c = .scalar '\x7b' → skipArgument? (Text.unspaced rest) = none := fun hc => by
        rw [skipArgument?_unspaced, hkeep hc, Option.map_none]
      rw [Text.unspaced_cons_of_not_blank hblank, Text.unspaced_cons_of_not_blank hblank, ih,
        dropArguments_cons hkeep']

theorem columnLetter?_of_isBlank {c : CodePoint} (h : c.isBlank = true) :
    columnLetter? c = none := by
  unfold columnLetter?
  split
  · exact absurd h (by decide)
  · exact absurd h (by decide)
  · exact absurd h (by decide)
  · rfl

theorem filterMap_columnLetter?_unspaced (t : Text) :
    t.unspaced.filterMap columnLetter? = t.filterMap columnLetter? := by
  unfold Text.unspaced
  rw [List.filterMap_filter]
  refine List.filterMap_congr fun c _ => ?_
  by_cases hblank : c.isBlank = true
  · simp [hblank, columnLetter?_of_isBlank hblank]
  · simp [hblank]

/-- Blanks in a column specification do not count. -/
theorem columnAlignment_unspaced (spec : Text) :
    columnAlignment spec.unspaced = columnAlignment spec := by
  unfold columnAlignment
  rw [← unspaced_dropArguments, filterMap_columnLetter?_unspaced]

end Environment

/-! ## Tokens and the text between them -/

namespace Token

variable {source : Text} {opening closing : Token} {tokens tokens' body behind : List Token}

/-- The tokens of a text take in all its code points but blanks. -/
theorem unspaced_scan (taken : Nat) (p : Place) (t : Text) :
    Text.unspaced ((scan taken p t).flatMap value) = Text.unspaced (t.drop taken) := by
  induction t generalizing taken p with
  | nil => simp [scan]
  | cons c t ih =>
    cases taken with
    | succ taken => exact ih taken (p.next c)
    | zero =>
      simp only [scan]
      split
      · next hblank => rw [ih, List.drop_zero, List.drop_zero, Text.unspaced_cons_of_blank hblank]
      · rw [List.flatMap_cons, Text.unspaced_append, ih, ← Text.unspaced_append, List.cons_append,
          List.take_append_drop, List.drop_zero]

theorem between_of_offsets {before inner after : Text} {c : CodePoint}
    (hopening : opening.offset = before.length)
    (hclosing : closing.offset = opening.offset + 1 + inner.length) :
    Text.between (before ++ c :: (inner ++ after)) (opening.offset + 1) closing.offset = inner := by
  have hstart : opening.offset + 1 = ((before ++ [c]).length + 0 : Nat) := by
    rw [hopening, List.length_append, List.length_singleton]
    omega
  have hstop : closing.offset = ((before ++ [c]).length + inner.length : Nat) := by
    rw [hclosing, hopening, List.length_append, List.length_singleton]
    omega
  calc Text.between (before ++ c :: (inner ++ after)) (opening.offset + 1) closing.offset
    _ = Text.between ((before ++ [c]) ++ (inner ++ after)) (opening.offset + 1) closing.offset := by
      rw [List.append_assoc, List.singleton_append]
    _ = inner.between (0 : Nat) inner.length := by
      rw [hstart, hstop, Text.between_append (Nat.le_refl _)]
    _ = inner := by
      rw [Text.between_natCast, Text.slice, List.take_length, List.drop_zero]

/-- In front of a token stands what the tokens before it are, up to blanks. -/
theorem exists_of_scan_eq {t : Text} {p : Place} (h : scan 0 p t = body ++ closing :: behind) :
    ∃ inner c rest, t = inner ++ c :: rest ∧ closing.offset = p.offset + inner.length ∧
      closing.value = c :: rest.take (lexeme c rest).2 ∧
      Text.unspaced inner = Text.unspaced (body.flatMap value) := by
  obtain ⟨inner, c, rest, rfl, hoffset, -, hvalue, hbehind⟩ := scan_eq_append_cons h
  refine ⟨inner, c, rest, rfl, hoffset, hvalue, ?_⟩
  have hinside : Text.unspaced (body.flatMap value) ++
      Text.unspaced ((closing :: behind).flatMap value) =
      Text.unspaced inner ++ Text.unspaced (c :: rest) := by
    rw [← Text.unspaced_append, ← List.flatMap_append, ← h, unspaced_scan, List.drop_zero,
      Text.unspaced_append]
  have houtside :
      Text.unspaced ((closing :: behind).flatMap value) = Text.unspaced (c :: rest) := by
    rw [List.flatMap_cons, Text.unspaced_append, hbehind, unspaced_scan, hvalue,
      ← Text.unspaced_append, List.cons_append, List.take_append_drop]
  rw [houtside] at hinside
  exact (List.append_cancel_right hinside).symm

/-- Between a brace and a token stands what the tokens between them are, up to blanks. -/
theorem unspaced_between (h : opening :: (body ++ closing :: behind) <:+ tokenize source)
    (hopen : opening.isOpenBrace = true) :
    (source.between (opening.offset + 1) closing.offset).unspaced =
      Text.unspaced (body.flatMap value) := by
  obtain ⟨u, hu⟩ := h
  obtain ⟨before, c, rest, rfl, hoffset, -, hvalue, hrest⟩ := scan_eq_append_cons hu.symm
  -- The brace takes in nothing behind it.
  obtain rfl : c = .scalar '\x7b' := by
    rw [(is_iff.mp hopen).2] at hvalue
    exact (List.cons.inj hvalue).1.symm
  have hlexeme : lexeme (.scalar '\x7b') rest = (.brace, 0) := rfl
  rw [hlexeme] at hrest
  obtain ⟨inner, c', rest', rfl, hoffset', -, hinner⟩ := exists_of_scan_eq hrest.symm
  have hbetween : Text.between (before ++ .scalar '\x7b' :: (inner ++ c' :: rest'))
      (opening.offset + 1) closing.offset = inner :=
    between_of_offsets (by rw [hoffset]; exact Int.zero_add _) (by
      rw [hoffset', Place.offset_next]
      rfl)
  rw [hbetween]
  exact hinner

/-! ## Places of the same tokens -/

theorem pairwise_offset_scan (taken : Nat) (p : Place) (t : Text) :
    (scan taken p t).Pairwise fun x y => x.offset < y.offset := by
  induction t generalizing taken p with
  | nil => exact .nil
  | cons c t ih =>
    cases taken with
    | succ taken => exact ih taken (p.next c)
    | zero =>
      simp only [scan]
      split
      · exact ih 0 (p.next c)
      · refine .cons (fun y hy => ?_) (ih _ _)
        obtain ⟨k, -, hk⟩ := offset_of_mem_scan hy
        rw [hk, Place.offset_next]
        show p.offset < p.offset + 1 + k
        omega

theorem nodup_tokenize (source : Text) : (tokenize source).Nodup :=
  (pairwise_offset_scan 0 {} source).imp fun h heq => by
    rw [heq] at h
    exact Int.lt_irrefl _ h

/-- Tokens of the same kinds and values, wherever they stand. -/
def SameTokens (tokens tokens' : List Token) : Prop :=
  tokens.map (fun t => (t.kind, t.value)) = tokens'.map fun t => (t.kind, t.value)

/-- The place of the token that stands for the given one among others. -/
def placeAmong (tokens tokens' : List Token) (t : Token) : Place :=
  (tokens'[tokens.idxOf t]?.getD t).place

theorem SameTokens.map_moved (h : SameTokens tokens tokens') (hnodup : tokens.Nodup) :
    tokens.map (Parser.moved (placeAmong tokens tokens')) = tokens' := by
  have hlength : tokens.length = tokens'.length := by
    simpa using congrArg List.length h
  refine List.ext_getElem (by rw [List.length_map, hlength]) fun i hi hi' => ?_
  have hi : i < tokens.length := by rwa [hlength]
  have hkey : ((tokens[i]).kind, (tokens[i]).value) = ((tokens'[i]).kind, (tokens'[i]).value) := by
    simpa [hi, hi'] using congrArg (fun l => l[i]?) h
  rw [List.getElem_map]
  unfold Parser.moved placeAmong
  rw [hnodup.idxOf_getElem, List.getElem?_eq_getElem hi', Option.getD_some]
  obtain ⟨hkind, hvalue⟩ := Prod.mk.inj hkey
  rw [hkind, hvalue]

end Token

/-! ## Parses of the same tokens -/

namespace Parser

/-- The parse of a source on the left, and on the right that of another one with the same tokens at
other places. No failure is excused. Raw texts fit if they are the same up to blanks. -/
def respaced (tokens : List Token) (place : Token → Place) : Pairing where
  left := fun _ => False
  right := fun _ => False
  node := Eq
  raw := fun raw raw' => raw'.unspaced = raw.unspaced
  tokens := tokens
  place := place

variable {grammar : Grammar} {options : Options} {source source' : Text} {place : Token → Place}

theorem relates_respaced (hdebug : options.debugMode.isTruthy = false)
    (hmoved : (Token.tokenize source).map (moved place) = Token.tokenize source')
    (hraw : ∀ t ∈ Token.tokenize source, readsRaw grammar t = false) :
    Relates (respaced (Token.tokenize source) place) ⟨grammar, options, source⟩
      ⟨grammar, options, source'⟩ where
  closed := Or.inl ⟨rfl, rfl⟩
  fitting := fitting_eq
  grammar := rfl
  raw {opening closing rest n} hsuffix hopen hclosing := by
    obtain ⟨body, behind, rfl, -⟩ := closingBrace?_eq_some hclosing
    -- The same tokens stand between the two in either source.
    have hsuffix' := hsuffix.map (moved place)
    rw [List.map_cons, List.map_append, List.map_cons] at hsuffix'
    have hopen' : (moved place opening).isOpenBrace = true := hopen
    have hright := Token.unspaced_between (hmoved ▸ hsuffix') hopen'
    rw [List.flatMap_map] at hright
    exact hright.trans (Token.unspaced_between hsuffix hopen).symm
  commandText {t raw raw'} ht hreads _ := by
    rw [hraw t ht] at hreads
    cases hreads
  columns {raw raw'} h := by
    rw [← Environment.columnAlignment_unspaced raw', h, Environment.columnAlignment_unspaced]
  unknownCommand _ _ _ := Or.inl rfl
  unknownEnvironment _ _ _ _ := Or.inl rfl
  textNode _ _ := rfl
  placedNode {t n n'} _ h := by
    obtain rfl := h
    have hplain : ∀ source, Setup.debug ⟨grammar, options, source⟩ = false := fun _ => hdebug
    unfold placedNode
    rw [hplain, hplain]
    rfl

theorem matched_respaced (hdebug : options.debugMode.isTruthy = false)
    (hmoved : (Token.tokenize source).map (moved place) = Token.tokenize source')
    (hraw : ∀ t ∈ Token.tokenize source, readsRaw grammar t = false) :
    Matched (respaced (Token.tokenize source) place)
      (readTokens ⟨grammar, options, source⟩ (Token.tokenize source))
      (readTokens ⟨grammar, options, source'⟩ (Token.tokenize source')) :=
  matched_readTokens (relates_respaced hdebug hmoved hraw) ⟨rfl, rfl⟩ rfl rfl hmoved

end Parser

/-- Neither spacing nor places matter to a parse without tracing. Two sources with tokens of the
same kinds and values, among which is no command that reads a raw group, are parsed as the same
tree, or both parses fail with errors of one kind and with one text. -/
theorem parse_sameTokens (grammar : Grammar) {options : Options}
    (hdebug : options.debugMode.isTruthy = false) {source source' : Text}
    (hsame : Token.SameTokens (Token.tokenize source) (Token.tokenize source'))
    (hraw : ∀ t ∈ Token.tokenize source, Parser.readsRaw grammar t = false) :
    (∃ node, (parse grammar options source).value = .ok node ∧
        (parse grammar options source').value = .ok node) ∨
      ∃ e e', (parse grammar options source).value = .error e ∧
        (parse grammar options source').value = .error e' ∧
        e'.diagnostic.kind = e.diagnostic.kind ∧ e'.diagnostic.text = e.diagnostic.text := by
  have hmatched := Parser.matched_respaced hdebug (hsame.map_moved (Token.nodup_tokenize source))
    hraw
  rw [Parser.value_parse_eq_readTokens, Parser.value_parse_eq_readTokens]
  generalize Parser.readTokens ⟨grammar, options, source⟩ _ = result at hmatched ⊢
  generalize Parser.readTokens ⟨grammar, options, source'⟩ _ = result' at hmatched ⊢
  cases hmatched with
  | ok hnode =>
    obtain rfl := hnode
    exact Or.inl ⟨_, rfl, rfl⟩
  | error herror => exact Or.inr ⟨_, _, rfl, rfl, herror.kind, herror.text⟩
  | left _ hleft => exact hleft.elim
  | right _ hright => exact hright.elim

/-- The column specifications of an array are read from the source, and their blanks do not
count. -/
theorem parse_sameTokens_array :
    Token.SameTokens (Token.tokenize "\\begin\x7barray\x7d\x7blr\x7da&b\\end\x7barray\x7d")
      (Token.tokenize "\\begin\x7barray\x7d\n  \x7b l r \x7d a & b\n\\end\x7barray\x7d") ∧
    (∀ t ∈ Token.tokenize "\\begin\x7barray\x7d\x7blr\x7da&b\\end\x7barray\x7d",
      Parser.readsRaw (Grammar.ofSymbols ⟨fun _ => []⟩).value t = false) ∧
    (parse (Grammar.ofSymbols ⟨fun _ => []⟩).value {}
      "\\begin\x7barray\x7d\n  \x7b l r \x7d a & b\n\\end\x7barray\x7d").value =
      .ok (.element "mtable" [("columnalign", "left right")] [.element "mtr" []
        [.element "mtd" [] [.identifier "a"], .element "mtd" [] [.identifier "b"]]]) := by
  have hsame : Token.SameTokens
      (Token.tokenize "\\begin\x7barray\x7d\x7blr\x7da&b\\end\x7barray\x7d")
      (Token.tokenize "\\begin\x7barray\x7d\n  \x7b l r \x7d a & b\n\\end\x7barray\x7d") := by
    unfold Token.SameTokens
    decide +kernel
  have hraw : ∀ t ∈ Token.tokenize "\\begin\x7barray\x7d\x7blr\x7da&b\\end\x7barray\x7d",
      Parser.readsRaw (Grammar.ofSymbols ⟨fun _ => []⟩).value t = false := by
    rw [Grammar.ofSymbols_nil]
    decide +kernel
  have hparse : (parse (Grammar.ofSymbols ⟨fun _ => []⟩).value {}
      "\\begin\x7barray\x7d\x7blr\x7da&b\\end\x7barray\x7d").value =
      .ok (.element "mtable" [("columnalign", "left right")] [.element "mtr" []
        [.element "mtd" [] [.identifier "a"], .element "mtd" [] [.identifier "b"]]]) := by
    rw [Grammar.ofSymbols_nil]
    decide +kernel
  refine ⟨hsame, hraw, ?_⟩
  have hdebug : ({} : Options).debugMode.isTruthy = false := rfl
  rcases parse_sameTokens (Grammar.ofSymbols ⟨fun _ => []⟩).value hdebug hsame hraw
    with ⟨node, hnode, hnode'⟩ | ⟨e, _, he, -⟩
  · rw [hnode', ← hnode, hparse]
  · rw [hparse] at he
    cases he

end MathMarkup
