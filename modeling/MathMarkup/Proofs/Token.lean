import MathMarkup.Token.Lexer
import Mathlib.Data.List.TakeWhile

/-!
# Tokens of a part of a source

A part of a source has the same tokens as it has on its own, at other places, if what stands behind
it continues no name and no number, such as a brace or the marker of a script, and if it does not
end with a bare backslash (`Token.scan_append_separator`, `Token.scan_within`). A bare backslash
takes in the code point behind it.
-/

namespace MathMarkup

/-! ## Places -/

namespace Place

/-- A place in a part of a source, as a place in the source. The part starts at `start`. -/
def within (start p : Place) : Place where
  offset := start.offset + p.offset
  line := start.line + p.line - 1
  column := if p.line = 1 then start.column + p.column - 1 else p.column

theorem within_default (start : Place) : start.within {} = start := by
  simp [within]

theorem one_le_line_next {p : Place} (hp : 1 ≤ p.line) (c : CodePoint) : 1 ≤ (p.next c).line := by
  unfold next
  split
  · dsimp only
    omega
  · exact hp

/-- Only the first line of the part is moved to the side. -/
theorem next_within (start : Place) {p : Place} (hp : 1 ≤ p.line) (c : CodePoint) :
    (start.within p).next c = start.within (p.next c) := by
  unfold next
  split
  · have hline : p.line + 1 ≠ 1 := by omega
    simp only [within, if_neg hline]
    congr 1 <;> omega
  · simp only [within]
    split
    · congr 1 <;> omega
    · congr 1
      omega

end Place

/-! ## Code points before a separator -/

namespace Text

variable {sep : CodePoint} {t v : Text}

/-- What is taken while `p` holds ends before a code point without `p`. -/
theorem takeWhile_append_cons {p : CodePoint → Bool} (hsep : p sep = false) :
    (t ++ sep :: v).takeWhile p = t.takeWhile p := by
  induction t with
  | nil => simp [hsep]
  | cons c t ih =>
    rw [List.cons_append, List.takeWhile_cons, List.takeWhile_cons, ih]

/-- What is taken while `p` holds is a run of `p`, if the text behind it does not continue it. -/
theorem takeWhile_append_of_head? {p : CodePoint → Bool} (ht : ∀ d ∈ t, p d = true)
    (hv : ∀ d ∈ v.head?, p d = false) : (t ++ v).takeWhile p = t := by
  rw [List.takeWhile_append_of_pos ht]
  cases v with
  | nil => simp
  | cons d v => simp [hv d rfl]

theorem head?_dropWhile_eq_false (p : CodePoint → Bool) (t : Text) :
    ∀ d ∈ (t.dropWhile p).head?, p d = false := by
  intro d hd
  have h := List.head?_dropWhile_not p t
  rw [hd] at h
  simpa using h

/-- A text between two offsets inside a part of a larger one. -/
theorem between_append {u : Text} {i j : Nat} (hj : j ≤ t.length) :
    (u ++ (t ++ v)).between (u.length + i : Nat) (u.length + j : Nat) =
      t.between i j := by
  rw [between_natCast, between_natCast, slice, slice, List.take_length_add_append,
    List.take_append_of_le_length hj, List.drop_length_add_append]

end Text

namespace Token

variable {sep c : CodePoint} {rest t v : Text}

/-- The code points that continue no name and no number. -/
structure Separates (c : CodePoint) : Prop where
  letter : c.isAsciiLetter = false
  digit : c.isDigit = false
  point : c ≠ .scalar '.'

theorem separates_closeBrace : Separates (.scalar '\x7d') :=
  ⟨rfl, rfl, by decide⟩

theorem commandTail_append (hsep : Separates sep) (hrest : rest ≠ []) :
    commandTail (rest ++ sep :: v) = commandTail rest := by
  cases rest with
  | nil => exact absurd rfl hrest
  | cons c rest =>
    simp only [List.cons_append, commandTail, Text.takeWhile_append_cons hsep.letter]

theorem numberTail_append (hsep : Separates sep) :
    numberTail (rest ++ sep :: v) = numberTail rest := by
  have hwhole := (List.takeWhile_prefix (l := rest) CodePoint.isDigit).length_le
  simp only [numberTail]
  rw [Text.takeWhile_append_cons hsep.digit, List.drop_append_of_le_length hwhole]
  cases rest.drop (rest.takeWhile CodePoint.isDigit).length with
  | nil => simp [hsep.point]
  | cons c places =>
    by_cases hc : c = .scalar '.'
    · simp [hc, Text.takeWhile_append_cons hsep.digit]
    · simp [hc]

/-- Before a separator a token is the same, unless it is a backslash that would take in the
separator. -/
theorem lexeme_append (hsep : Separates sep) (h : c = .scalar '\\' → rest ≠ []) :
    lexeme c (rest ++ sep :: v) = lexeme c rest := by
  unfold lexeme
  rw [numberTail_append hsep]
  by_cases hc : c = .scalar '\\'
  · rw [if_pos hc, if_pos hc, commandTail_append hsep (h hc)]
  · rw [if_neg hc, if_neg hc]

/-- A command ends with its letters. -/
theorem commandTail_letters {name behind : Text} (hne : name ≠ [])
    (hname : ∀ d ∈ name, d.isAsciiLetter = true)
    (hbehind : ∀ d ∈ behind.head?, d.isAsciiLetter = false) :
    commandTail (name ++ behind) = name.length := by
  cases name with
  | nil => exact absurd rfl hne
  | cons d name =>
    obtain ⟨hd, hrest⟩ := List.forall_mem_cons.mp hname
    rw [List.cons_append, commandTail, if_pos hd, Text.takeWhile_append_of_head? hrest hbehind,
      List.length_cons, Nat.add_comm]

theorem commandTail_le (rest : Text) : commandTail rest ≤ rest.length := by
  unfold commandTail
  cases rest with
  | nil => exact Nat.le_refl 0
  | cons c rest =>
    have hletters := (List.takeWhile_prefix (l := rest) CodePoint.isAsciiLetter).length_le
    simp only [List.length_cons]
    split
    · omega
    · split <;> omega

theorem numberTail_le (rest : Text) : numberTail rest ≤ rest.length := by
  have hwhole := (List.takeWhile_prefix (l := rest) CodePoint.isDigit).length_le
  simp only [numberTail]
  split
  · next places hdrop =>
    have hplaces := (List.takeWhile_prefix (l := places) CodePoint.isDigit).length_le
    have hlen := congrArg List.length hdrop
    rw [List.length_drop, List.length_cons] at hlen
    omega
  · exact hwhole

theorem lexeme_le (c : CodePoint) (rest : Text) : (lexeme c rest).2 ≤ rest.length := by
  unfold lexeme
  split_ifs
  · exact commandTail_le rest
  · exact Nat.zero_le _
  · exact Nat.zero_le _
  · exact numberTail_le rest
  · exact Nat.zero_le _

/-! ## Tokens -/

/-- A token of a part of a source, as a token of the source. The part starts at `start`. -/
def within (start : Place) (t : Token) : Token :=
  { t with place := start.within t.place }

/-- A bare backslash: a command without a name. -/
def isBareBackslash (t : Token) : Bool :=
  t.isCommand "\\"

/-- The tokens of a part of a source are those that it has on its own, at other places. -/
theorem scan_within (start : Place) {p : Place} (hp : 1 ≤ p.line) (taken : Nat) (t : Text) :
    scan taken (start.within p) t =
      (scan taken p t).map (within start) := by
  induction t generalizing taken p with
  | nil => rfl
  | cons c t ih =>
    have hnext := Place.one_le_line_next hp c
    cases taken with
    | succ taken =>
      simp only [scan]
      rw [Place.next_within start hp, ih hnext]
    | zero =>
      simp only [scan]
      split
      · rw [Place.next_within start hp, ih hnext]
      · rw [Place.next_within start hp, ih hnext]
        rfl

/-! ## The first token -/

/-- Blanks in front of the tokens only move the place. -/
theorem scan_blanks {gap : Text} (hgap : ∀ c ∈ gap, c.isBlank = true) (place : Place) (t : Text) :
    scan 0 place (gap ++ t) = scan 0 (place.after gap) t := by
  induction gap generalizing place with
  | nil => rfl
  | cons c gap ih =>
    have hc := hgap c List.mem_cons_self
    rw [List.cons_append, scan, if_pos hc, ih fun x hx => hgap x (List.mem_cons_of_mem _ hx)]
    rfl

/-- A token is cut off as a whole. -/
theorem scan_cons {c : CodePoint} (hc : c.isBlank = false) (place : Place) (rest : Text) :
    scan 0 place (c :: rest) =
      ⟨(lexeme c rest).1, c :: rest.take (lexeme c rest).2, place⟩ ::
        scan 0 (place.after (c :: rest.take (lexeme c rest).2)) (rest.drop (lexeme c rest).2) := by
  rw [scan, if_neg (by simp [hc])]
  exact congrArg (_ :: ·) (scan_eq_scan_drop _ _ _)

/-- What stands in front of the first token. -/
theorem exists_of_scan_eq_cons {x : Token} {place : Place} {w : List Token}
    (h : scan 0 place t = x :: w) :
    ∃ gap c rest, t = gap ++ c :: rest ∧ (∀ b ∈ gap, b.isBlank = true) ∧ c.isBlank = false ∧
      x = ⟨(lexeme c rest).1, c :: rest.take (lexeme c rest).2, place.after gap⟩ := by
  have hsplit := List.takeWhile_append_dropWhile (p := CodePoint.isBlank) (l := t)
  have hgap : ∀ b ∈ t.takeWhile CodePoint.isBlank, b.isBlank = true :=
    fun b hb => List.mem_takeWhile_imp hb
  rw [← hsplit, scan_blanks hgap] at h
  cases hrest : t.dropWhile CodePoint.isBlank with
  | nil =>
    rw [hrest] at h
    cases h
  | cons c rest =>
    have hc : c.isBlank = false :=
      Text.head?_dropWhile_eq_false CodePoint.isBlank t c (by rw [hrest]; rfl)
    rw [hrest, scan_cons hc] at h
    exact ⟨_, c, rest, by rw [← hrest, hsplit], hgap, hc, (List.cons.inj h).1.symm⟩

/-! ## Places and values -/

/-- A token stands where the text before it ends. -/
theorem place_of_mem_scan {x : Token} {p : Place} {taken : Nat} (hx : x ∈ scan taken p t) :
    ∃ k < t.length, x.place = p.after (t.take k) := by
  induction t generalizing taken p with
  | nil =>
    simp only [scan] at hx
    cases hx
  | cons c t ih =>
    have hlater : ∀ {taken}, x ∈ scan taken (p.next c) t →
        ∃ k < (c :: t).length, x.place = p.after ((c :: t).take k) := by
      intro taken hx
      obtain ⟨k, hk, hplace⟩ := ih hx
      exact ⟨k + 1, Nat.succ_lt_succ hk, hplace⟩
    cases taken with
    | succ taken => exact hlater hx
    | zero =>
      simp only [scan] at hx
      split at hx
      · exact hlater hx
      · rcases List.mem_cons.mp hx with rfl | hx
        · exact ⟨0, Nat.zero_lt_succ _, rfl⟩
        · exact hlater hx

/-- A token starts at a code point of the text. -/
theorem offset_of_mem_scan {x : Token} {p : Place} {taken : Nat} (hx : x ∈ scan taken p t) :
    ∃ k < t.length, x.offset = p.offset + k := by
  obtain ⟨k, hk, hplace⟩ := place_of_mem_scan hx
  refine ⟨k, hk, ?_⟩
  rw [offset, hplace, Place.offset_after, List.length_take_of_le (Nat.le_of_lt hk)]

/-- A token and those behind it are read off from where it starts. -/
theorem scan_eq_append_cons {x : Token} {u w : List Token} {p : Place} {taken : Nat}
    (h : scan taken p t = u ++ x :: w) :
    ∃ before c rest, t = before ++ c :: rest ∧ x.offset = p.offset + before.length ∧
      x.kind = (lexeme c rest).1 ∧ x.value = c :: rest.take (lexeme c rest).2 ∧
      w = scan (lexeme c rest).2 (x.place.next c) rest := by
  induction t generalizing taken p u with
  | nil => simp [scan] at h
  | cons c t ih =>
    have hlater : ∀ {taken u}, scan taken (p.next c) t = u ++ x :: w →
        ∃ before c' rest, c :: t = before ++ c' :: rest ∧ x.offset = p.offset + before.length ∧
          x.kind = (lexeme c' rest).1 ∧ x.value = c' :: rest.take (lexeme c' rest).2 ∧
          w = scan (lexeme c' rest).2 (x.place.next c') rest := by
      intro taken u h
      obtain ⟨before, c', rest, rfl, hoffset, hx⟩ := ih h
      refine ⟨c :: before, c', rest, rfl, ?_, hx⟩
      rw [hoffset, Place.offset_next, List.length_cons]
      omega
    cases taken with
    | succ taken => exact hlater h
    | zero =>
      simp only [scan] at h
      split at h
      · exact hlater h
      · cases u with
        | nil =>
          obtain ⟨rfl, rfl⟩ := List.cons.inj h
          exact ⟨[], c, t, rfl, (Int.add_zero _).symm, rfl, rfl, rfl⟩
        | cons y u => exact hlater (List.cons.inj h).2

/-- A token of a source is a lexeme. -/
theorem lexeme_of_mem_tokenize {x : Token} {source : Text} (hx : x ∈ tokenize source) :
    ∃ c rest, x.kind = (lexeme c rest).1 ∧ x.value = c :: rest.take (lexeme c rest).2 := by
  obtain ⟨u, w, h⟩ := List.append_of_mem hx
  obtain ⟨_, c, rest, -, -, hkind, hvalue, -⟩ := scan_eq_append_cons h
  exact ⟨c, rest, hkind, hvalue⟩

/-- A token starts with no blank. -/
theorem isBlank_of_mem_scan {x : Token} {p : Place} {taken : Nat} (hx : x ∈ scan taken p t) :
    ∀ c ∈ x.value.head?, c.isBlank = false := by
  induction t generalizing taken p with
  | nil =>
    simp only [scan] at hx
    cases hx
  | cons c t ih =>
    cases taken with
    | succ taken => exact ih hx
    | zero =>
      simp only [scan] at hx
      split at hx
      · exact ih hx
      · next hc =>
        rcases List.mem_cons.mp hx with rfl | hx
        · rintro _ ⟨⟩
          exact Bool.eq_false_iff.mpr hc
        · exact ih hx

theorem kind_ne_text_of_mem_tokenize {x : Token} {source : Text} (hx : x ∈ tokenize source) :
    x.kind ≠ .text := by
  obtain ⟨c, rest, hkind, -⟩ := lexeme_of_mem_tokenize hx
  rw [hkind]
  unfold lexeme
  split_ifs <;> simp

/-- The commands of a source are the tokens that start with a backslash. -/
theorem startsWith_backslash_iff {x : Token} {source : Text} (hx : x ∈ tokenize source) :
    x.value.startsWith "\\" = true ↔ x.kind = .command := by
  obtain ⟨c, rest, hkind, hvalue⟩ := lexeme_of_mem_tokenize hx
  have hstarts : x.value.startsWith "\\" = (CodePoint.scalar '\\' == c) := by
    rw [hvalue]
    exact Bool.and_true _
  rw [hstarts, hkind, beq_iff_eq, eq_comm]
  unfold lexeme
  split_ifs with h <;> simp [h]

theorem isBracket_of_mem_tokenize {x : Token} {source : Text} (hx : x ∈ tokenize source)
    (hkind : x.kind = .bracket) : x.isOpenBracket = true ∨ x.isCloseBracket = true := by
  obtain ⟨c, rest, hlexeme, hvalue⟩ := lexeme_of_mem_tokenize hx
  rw [hlexeme] at hkind
  unfold lexeme at hkind hvalue
  split_ifs at hkind hvalue with h1 h2 h3
  rcases h3 with rfl | rfl
  · exact Or.inl (is_iff.mpr ⟨by rw [hlexeme]; rfl, hvalue⟩)
  · exact Or.inr (is_iff.mpr ⟨by rw [hlexeme]; rfl, hvalue⟩)

theorem isBrace_of_mem_tokenize {x : Token} {source : Text} (hx : x ∈ tokenize source)
    (hkind : x.kind = .brace) : x.isOpenBrace = true ∨ x.isCloseBrace = true := by
  obtain ⟨c, rest, hlexeme, hvalue⟩ := lexeme_of_mem_tokenize hx
  rw [hlexeme] at hkind
  unfold lexeme at hkind hvalue
  split_ifs at hkind hvalue with h1 h2
  rcases h2 with rfl | rfl
  · exact Or.inl (is_iff.mpr ⟨by rw [hlexeme]; rfl, hvalue⟩)
  · exact Or.inr (is_iff.mpr ⟨by rw [hlexeme]; rfl, hvalue⟩)

/-- A separator behind a text changes none of its tokens, unless the last one is a bare
backslash. -/
theorem scan_append_separator (hsep : Separates sep) {taken : Nat} (htaken : taken ≤ t.length)
    (p : Place) (hlast : ∀ x ∈ (scan taken p t).getLast?, x.isBareBackslash = false) :
    scan taken p (t ++ sep :: v) = scan taken p t ++ scan 0 (p.after t) (sep :: v) := by
  induction t generalizing taken p with
  | nil =>
    rw [Nat.le_zero.mp htaken]
    rfl
  | cons c t ih =>
    cases taken with
    | succ taken => exact ih (Nat.le_of_succ_le_succ htaken) _ hlast
    | zero =>
      -- A token starts here, or a blank. The token ends before the separator, so that what is left
      -- of it to count down is still inside the text.
      simp only [List.cons_append, scan] at hlast ⊢
      by_cases hblank : c.isBlank
      · simp only [if_pos hblank] at hlast ⊢
        exact ih (Nat.zero_le _) _ hlast
      · simp only [if_neg hblank] at hlast ⊢
        have hbare : c = .scalar '\\' → t ≠ [] := by
          rintro rfl rfl
          have h : (⟨.command, "\\", p⟩ : Token).isBareBackslash = false := hlast _ rfl
          simp [isBareBackslash, isCommand, is] at h
        have hlater : ∀ x ∈ (scan (lexeme c t).2 (p.next c) t).getLast?,
            x.isBareBackslash = false := by
          intro x hx
          refine hlast x ?_
          rw [List.getLast?_cons, hx]
          rfl
        rw [lexeme_append hsep hbare, List.take_append_of_le_length (lexeme_le c t),
          ih (lexeme_le c t) _ hlater]
        rfl

/-- A text has the tokens that it has on its own wherever it starts. -/
theorem scan_eq_map_within (start : Place) (t : Text) :
    scan 0 start t = (tokenize t).map (within start) := by
  have h := scan_within start (p := {}) (Int.le_refl 1) 0 t
  rwa [Place.within_default] at h

theorem length_scan (start : Place) (t : Text) :
    (scan 0 start t).length = (tokenize t).length := by
  rw [scan_eq_map_within, List.length_map]

/-- Up to a separator behind it, a part of a source has the tokens that it has on its own. -/
theorem scan_part (hsep : Separates sep) (start : Place)
    (hlast : ∀ x ∈ (tokenize t).getLast?, x.isBareBackslash = false) :
    scan 0 start (t ++ sep :: v) =
      (tokenize t).map (within start) ++ scan 0 (start.after t) (sep :: v) := by
  rw [← scan_eq_map_within]
  refine scan_append_separator hsep (Nat.zero_le _) start fun x hx => ?_
  rw [scan_eq_map_within, List.getLast?_map] at hx
  obtain ⟨y, hy, rfl⟩ := Option.map_eq_some_iff.mp hx
  exact hlast y hy

/-- The place behind a text at the start of a source. -/
def behind (before : Text) : Place :=
  Place.after {} before

theorem offset_within_behind (before : Text) (t : Token) :
    (t.within (behind before)).offset = before.length + t.offset := by
  show (behind before).offset + t.offset = _
  rw [behind, Place.offset_after]
  exact congrArg (· + t.offset) (Int.zero_add _)

/-- The text between two tokens of a part of a source is the same in the source. -/
theorem between_within {x y : Token} (hx : x ∈ tokenize t) (hy : y ∈ tokenize t) (before : Text) :
    (before ++ (t ++ v)).between ((x.within (behind before)).offset + 1)
        (y.within (behind before)).offset =
      t.between (x.offset + 1) y.offset := by
  obtain ⟨i, _, hi⟩ := offset_of_mem_scan hx
  obtain ⟨j, hj, hj'⟩ := offset_of_mem_scan hy
  have hxi : x.offset + 1 = (i + 1 : Nat) := by
    rw [hi]
    show (0 : Int) + i + 1 = _
    omega
  have hyj : y.offset = (j : Nat) := hj'.trans (Int.zero_add _)
  have hshift : ∀ k : Nat, (before.length : Int) + k = (before.length + k : Nat) := fun _ => rfl
  rw [offset_within_behind, offset_within_behind, Int.add_assoc, hxi, hyj, hshift, hshift]
  exact Text.between_append (Nat.le_of_lt hj)

/-! ## Sources in braces -/

/-- The tokens `v` between an opener and a closer. -/
inductive Delimited (opens closes : Token → Bool) (v : List Token) : List Token → Prop where
  | intro {opening closing : Token} : opens opening = true → closes closing = true →
    Delimited opens closes v (opening :: (v ++ [closing]))

/-- The tokens in braces. -/
abbrev Braced (v w : List Token) : Prop :=
  Delimited isOpenBrace isCloseBrace v w

/-- The tokens in brackets. -/
abbrev Bracketed (v w : List Token) : Prop :=
  Delimited isOpenBracket isCloseBracket v w

theorem Delimited.length_lt {opens closes : Token → Bool} {v w : List Token}
    (h : Delimited opens closes v w) : v.length < w.length := by
  obtain ⟨-, -⟩ := h
  simp only [List.length_cons, List.length_append, List.length_nil]
  omega

/-- The tokens of a source in braces. -/
theorem tokenize_braces {source : Text}
    (hlast : ∀ x ∈ (tokenize source).getLast?, x.isBareBackslash = false) :
    Braced ((tokenize source).map (within (behind "\x7b")))
      (tokenize ("\x7b" ++ (source ++ "\x7d"))) := by
  have htokens : tokenize ("\x7b" ++ (source ++ "\x7d")) =
      ⟨.brace, "\x7b", {}⟩ :: scan 0 (behind "\x7b") (source ++ .scalar '\x7d' :: []) := rfl
  rw [htokens, scan_part separates_closeBrace (behind "\x7b") hlast]
  exact .intro rfl rfl

/-- The tokens of a fraction of two sources. -/
theorem tokenize_fraction {upper lower : Text}
    (hupper : ∀ x ∈ (tokenize upper).getLast?, x.isBareBackslash = false)
    (hlower : ∀ x ∈ (tokenize lower).getLast?, x.isBareBackslash = false) :
    ∃ t g₁ g₂, tokenize ("\\frac\x7b" ++ (upper ++ ("\x7d\x7b" ++ (lower ++ "\x7d")))) =
        t :: (g₁ ++ g₂) ∧ t.isCommand "\\frac" = true ∧
      Braced ((tokenize upper).map (within (behind "\\frac\x7b"))) g₁ ∧
      Braced ((tokenize lower).map
        (within (behind ("\\frac\x7b" ++ (upper ++ "\x7d\x7b"))))) g₂ := by
  -- The tokens outside the two parts, each at the place where the text before it ends.
  let start := behind "\\frac\x7b"
  let t : Token := ⟨.command, "\\frac", {}⟩
  let o₁ : Token := ⟨.brace, "\x7b", Place.after {} (Text.ofString "\\frac")⟩
  let c₁ : Token := ⟨.brace, "\x7d", start.after upper⟩
  let o₂ : Token := ⟨.brace, "\x7b", (start.after upper).next (.scalar '\x7d')⟩
  let second : Place := o₂.place.next (.scalar '\x7b')
  let c₂ : Token := ⟨.brace, "\x7d", second.after lower⟩
  have hsecond : behind ("\\frac\x7b" ++ (upper ++ "\x7d\x7b")) = second := by
    simp only [behind, Place.after, List.foldl_append]
    rfl
  refine ⟨t, o₁ :: ((tokenize upper).map (within start) ++ [c₁]),
    o₂ :: ((tokenize lower).map (within second) ++ [c₂]), ?_, rfl, .intro rfl rfl,
    hsecond ▸ .intro rfl rfl⟩
  calc tokenize ("\\frac\x7b" ++ (upper ++ ("\x7d\x7b" ++ (lower ++ "\x7d"))))
    _ = t :: o₁ :: scan 0 start (upper ++ .scalar '\x7d' ::
          (Text.ofString "\x7b" ++ (lower ++ Text.ofString "\x7d"))) := rfl
    _ = t :: o₁ :: ((tokenize upper).map (within start) ++
          c₁ :: o₂ :: scan 0 second (lower ++ .scalar '\x7d' :: [])) := by
      rw [scan_part separates_closeBrace start hupper]
      rfl
    _ = t :: o₁ :: ((tokenize upper).map (within start) ++
          c₁ :: o₂ :: ((tokenize lower).map (within second) ++ [c₂])) := by
      rw [scan_part separates_closeBrace second hlower]
      rfl
    _ = _ := by simp

end Token

end MathMarkup
