import Mathlib.Data.List.Chain
import MathMarkup.Proofs.Token

/-!
# The decomposition of a source into tokens

A list of tokens decomposes a source if the tokens stand in it in order, none runs into the next,
nothing but blanks is left between them, and each is a value of its kind that cannot be continued
(`Token.Decomposition`). The tokens that the scan gives are such a list, and they are the only one
(`Token.tokenize_decomposition`).

What starts at a code point decides how a decomposition goes on there: nothing, if it is blank, and
otherwise a token, which can be cut off in one way only (`Token.maximal_iff`).
-/

namespace MathMarkup.Token

/-! ## Single tokens -/

/-- The code points that start a command, or are a brace or a bracket. -/
def specials : Text :=
  "\\\x7b\x7d[]"

/-- The values that a token of each kind may have, with the text behind them: the value cannot be
continued into that text. -/
inductive Maximal : Kind → Text → Text → Prop where
  /-- A backslash alone stands at the end, or before a space other than the plain one. -/
  | bare {behind : Text} (hbehind : ∀ d ∈ behind.head?, d.isSpace = true ∧ d ≠ .scalar ' ') :
    Maximal .command [.scalar '\\'] behind
  /-- A backslash and letters, with no letter behind them. -/
  | named {name behind : Text} (hname : name ≠ []) (hletters : ∀ d ∈ name, d.isAsciiLetter = true)
    (hbehind : ∀ d ∈ behind.head?, d.isAsciiLetter = false) :
    Maximal .command (.scalar '\\' :: name) behind
  /-- A backslash and one code point that is no letter and no space. -/
  | control {d : CodePoint} {behind : Text} (hletter : d.isAsciiLetter = false)
    (hspace : d.isSpace = false) : Maximal .command [.scalar '\\', d] behind
  /-- A backslash and a plain space. -/
  | space {behind : Text} : Maximal .command [.scalar '\\', .scalar ' '] behind
  | brace {c : CodePoint} {behind : Text} (hc : c = .scalar '\x7b' ∨ c = .scalar '\x7d') :
    Maximal .brace [c] behind
  | bracket {c : CodePoint} {behind : Text} (hc : c = .scalar '[' ∨ c = .scalar ']') :
    Maximal .bracket [c] behind
  /-- Digits with at most one point, which is not the first of them. There is no digit behind them,
  and a point only if they hold one already. -/
  | number {c : CodePoint} {tail behind : Text} (hfirst : c.isDigit = true)
    (htail : ∀ d ∈ tail, d.isDigit = true ∨ d = .scalar '.')
    (hpoint : tail.count (.scalar '.') ≤ 1)
    (hbehind : ∀ d ∈ behind.head?, d.isDigit = false ∧ (d = .scalar '.' → .scalar '.' ∈ tail)) :
    Maximal .number (c :: tail) behind
  /-- Any code point that starts no other token. -/
  | symbol {c : CodePoint} {behind : Text} (hblank : c.isBlank = false)
    (hplain : c ∉ specials) (hdigit : c.isDigit = false) :
    Maximal .symbol [c] behind

variable {kind : Kind} {c : CodePoint} {tail behind : Text}

/-- A number takes in all its digits and its point. -/
theorem numberTail_of_digits (htail : ∀ d ∈ tail, d.isDigit = true ∨ d = .scalar '.')
    (hpoint : tail.count (.scalar '.') ≤ 1)
    (hbehind : ∀ d ∈ behind.head?, d.isDigit = false ∧ (d = .scalar '.' → .scalar '.' ∈ tail)) :
    numberTail (tail ++ behind) = tail.length := by
  have hend : ∀ d ∈ behind.head?, d.isDigit = false := fun d hd => (hbehind d hd).1
  by_cases hmem : .scalar '.' ∈ tail
  · obtain ⟨whole, places, rfl⟩ := List.append_of_mem hmem
    have hnone : .scalar '.' ∉ whole ∧ .scalar '.' ∉ places := by
      rw [List.count_append, List.count_cons_self] at hpoint
      exact ⟨List.count_eq_zero.mp (by omega), List.count_eq_zero.mp (by omega)⟩
    have hwhole : ∀ d ∈ whole, d.isDigit = true := fun d hd =>
      (htail d (by simp [hd])).resolve_right fun h => hnone.1 (h ▸ hd)
    have hplaces : ∀ d ∈ places, d.isDigit = true := fun d hd =>
      (htail d (by simp [hd])).resolve_right fun h => hnone.2 (h ▸ hd)
    have hfirst : (whole ++ .scalar '.' :: (places ++ behind)).takeWhile CodePoint.isDigit =
        whole := Text.takeWhile_append_of_head? hwhole (by simp; rfl)
    simp only [List.append_assoc, List.cons_append, numberTail, hfirst, List.drop_left,
      Text.takeWhile_append_of_head? hplaces hend, List.length_append, List.length_cons]
    omega
  · have hdigits : ∀ d ∈ tail, d.isDigit = true := fun d hd =>
      (htail d hd).resolve_right fun h => hmem (h ▸ hd)
    simp only [numberTail, Text.takeWhile_append_of_head? hdigits hend, List.drop_left]
    split
    · exact absurd ((hbehind _ rfl).2 rfl) hmem
    · rfl

theorem lexeme_of_not_mem_specials (hc : c ∉ specials) (rest : Text) :
    lexeme c rest = if c.isDigit then (.number, numberTail rest) else (.symbol, 0) := by
  have hspecials : specials = Text.ofString "\\\x7b\x7d[]" := rfl
  simp only [hspecials, Text.ofString, String.reduceToList, List.map_cons, List.map_nil,
    List.mem_cons, List.not_mem_nil, or_false, not_or] at hc
  simp [lexeme, hc]

theorem not_mem_specials_of_isDigit (hc : c.isDigit = true) : c ∉ specials := by
  have hall : ∀ d ∈ specials, d.isDigit = false := by decide
  intro hmem
  rw [hall c hmem] at hc
  cases hc

/-- A token takes in what follows its first code point up to where it cannot be continued. -/
theorem Maximal.lexeme_eq (h : Maximal kind (c :: tail) behind) :
    lexeme c (tail ++ behind) = (kind, tail.length) := by
  cases h with
  | bare hbehind =>
    rw [lexeme, if_pos rfl, List.nil_append]
    cases behind with
    | nil => rfl
    | cons d behind =>
      obtain ⟨hspace, hplain⟩ := hbehind d rfl
      have hletter := CodePoint.isAsciiLetter_eq_false_of_isSpace hspace
      simp [commandTail, hletter, hspace, hplain]
  | named hname hletters hbehind =>
    rw [lexeme, if_pos rfl, commandTail_letters hname hletters hbehind]
  | control hletter hspace => simp [lexeme, commandTail, hletter, hspace]
  | space => rfl
  | brace hc => rcases hc with rfl | rfl <;> rfl
  | bracket hc => rcases hc with rfl | rfl <;> rfl
  | number hfirst htail hpoint hbehind =>
    rw [lexeme_of_not_mem_specials (not_mem_specials_of_isDigit hfirst), if_pos hfirst,
      numberTail_of_digits htail hpoint hbehind]
  | symbol hblank hplain hdigit =>
    rw [lexeme_of_not_mem_specials hplain, hdigit]
    rfl

theorem Maximal.isBlank_eq_false (h : Maximal kind (c :: tail) behind) : c.isBlank = false := by
  cases h with
  | bare | named | control | space => decide
  | brace hc | bracket hc => rcases hc with rfl | rfl <;> decide
  | number hfirst => exact CodePoint.isBlank_eq_false_of_isDigit hfirst
  | symbol hblank => exact hblank

theorem Maximal.ne_nil {value : Text} (h : Maximal kind value behind) : value ≠ [] := by
  cases h <;> exact List.cons_ne_nil _ _

/-! ### What can be cut off -/

theorem exists_number (hc : c.isDigit = true) (rest : Text) :
    ∃ tail behind, rest = tail ++ behind ∧ Maximal .number (c :: tail) behind := by
  have hdigits : ∀ t : Text, ∀ d ∈ t.takeWhile CodePoint.isDigit, d.isDigit = true :=
    fun t d hd => List.mem_takeWhile_imp hd
  have hpoint : ∀ t : Text, (t.takeWhile CodePoint.isDigit).count (.scalar '.') = 0 :=
    fun t => List.count_eq_zero.mpr fun hmem => absurd (hdigits t _ hmem) (by decide)
  have hrest := List.takeWhile_append_dropWhile (p := CodePoint.isDigit) (l := rest)
  have hend := Text.head?_dropWhile_eq_false CodePoint.isDigit rest
  by_cases hdrop : ∃ places, rest.dropWhile CodePoint.isDigit = .scalar '.' :: places
  · -- The digits of `rest`, a point, and the digits behind the point.
    obtain ⟨places, hdrop⟩ := hdrop
    have hplaces := List.takeWhile_append_dropWhile (p := CodePoint.isDigit) (l := places)
    refine ⟨rest.takeWhile CodePoint.isDigit ++ .scalar '.' :: places.takeWhile CodePoint.isDigit,
      places.dropWhile CodePoint.isDigit, ?_, .number hc ?_ ?_ ?_⟩
    · rw [List.append_assoc, List.cons_append, hplaces, ← hdrop, hrest]
    · simp only [List.forall_mem_append, List.forall_mem_cons]
      exact ⟨fun d hd => Or.inl (hdigits _ d hd), Or.inr trivial,
        fun d hd => Or.inl (hdigits _ d hd)⟩
    · rw [List.count_append, List.count_cons_self, hpoint, hpoint]
    · exact fun d hd => ⟨Text.head?_dropWhile_eq_false _ _ d hd, fun _ => by simp⟩
  · refine ⟨_, _, hrest.symm, .number hc (fun d hd => Or.inl (hdigits _ d hd)) ?_ ?_⟩
    · rw [hpoint]
      exact Nat.zero_le 1
    · refine fun d hd => ⟨hend d hd, ?_⟩
      rintro rfl
      obtain ⟨places, hplaces⟩ := List.head?_eq_some_iff.mp hd
      exact absurd ⟨places, hplaces⟩ hdrop

theorem exists_command (rest : Text) :
    ∃ tail behind, rest = tail ++ behind ∧ Maximal .command (.scalar '\\' :: tail) behind := by
  cases rest with
  | nil => exact ⟨[], [], rfl, .bare (by simp)⟩
  | cons d rest =>
    by_cases hletter : d.isAsciiLetter = true
    · have hname : (d :: rest).takeWhile CodePoint.isAsciiLetter ≠ [] := by
        rw [List.takeWhile_cons_of_pos hletter]
        exact List.cons_ne_nil _ _
      exact ⟨_, _, List.takeWhile_append_dropWhile.symm, .named hname
        (fun _ hb => List.mem_takeWhile_imp hb) (Text.head?_dropWhile_eq_false _ _)⟩
    rw [Bool.not_eq_true] at hletter
    by_cases hspace : d.isSpace = true
    · by_cases hplain : d = .scalar ' '
      · subst hplain
        exact ⟨[_], rest, rfl, .space⟩
      · refine ⟨[], d :: rest, rfl, .bare fun b hb => ?_⟩
        rw [← Option.some.inj hb]
        exact ⟨hspace, hplain⟩
    · exact ⟨[d], rest, rfl, .control hletter (by simpa using hspace)⟩

/-- Whatever starts with no blank, one token can be cut off from it. -/
theorem exists_maximal (hc : c.isBlank = false) (rest : Text) :
    ∃ kind tail behind, rest = tail ++ behind ∧ Maximal kind (c :: tail) behind := by
  by_cases hspecial : c ∈ specials
  · have hall : ∀ d ∈ specials, d = .scalar '\\' ∨ (d = .scalar '\x7b' ∨ d = .scalar '\x7d') ∨
        (d = .scalar '[' ∨ d = .scalar ']') := by decide
    rcases hall c hspecial with rfl | hbrace | hbracket
    · exact ⟨.command, exists_command rest⟩
    · exact ⟨.brace, [], rest, rfl, .brace hbrace⟩
    · exact ⟨.bracket, [], rest, rfl, .bracket hbracket⟩
  · by_cases hdigit : c.isDigit = true
    · exact ⟨.number, exists_number hdigit rest⟩
    · exact ⟨.symbol, [], rest, rfl, .symbol hc hspecial (by simpa using hdigit)⟩

/-- The lexeme at a code point is the one token that can be cut off there. -/
theorem maximal_iff (hc : c.isBlank = false) {rest : Text} (hrest : rest = tail ++ behind) :
    Maximal kind (c :: tail) behind ↔ lexeme c rest = (kind, tail.length) := by
  subst hrest
  refine ⟨Maximal.lexeme_eq, fun h => ?_⟩
  obtain ⟨kind', tail', behind', happend, hmaximal⟩ := exists_maximal hc (tail ++ behind)
  have heq := hmaximal.lexeme_eq
  rw [← happend, h, Prod.mk.injEq] at heq
  obtain ⟨rfl, hlength⟩ := heq
  obtain ⟨rfl, rfl⟩ := List.append_inj happend hlength
  exact hmaximal

/-! ## Decompositions -/

/-- Whether the token takes in the code point at an offset of the source. -/
def Covers (t : Token) (i : Nat) : Prop :=
  t.offset ≤ i ∧ (i : Int) < t.offset + t.value.length

/-- The tokens decompose the source from the offset `start` on. -/
structure Decomposition (source : Text) (start : Nat) (tokens : List Token) : Prop where
  inside : ∀ t ∈ tokens, (start : Int) ≤ t.offset
  increasing : tokens.Pairwise fun (s t : Token) => s.offset < t.offset
  /-- No token runs into the next one. -/
  apart : tokens.IsChain fun (s t : Token) => s.offset + s.value.length ≤ t.offset
  /-- Each token covers its own text in the source. -/
  value_eq : ∀ t ∈ tokens, t.value = source.between t.offset (t.offset + t.value.length)
  /-- Each token is of its kind and cannot be continued. -/
  maximal : ∀ t ∈ tokens,
    Maximal t.kind t.value (source.drop (t.offset + t.value.length).toNat)
  /-- What no token takes in is blank. -/
  blank : ∀ i c, start ≤ i → source[i]? = some c → (∀ t ∈ tokens, ¬t.Covers i) →
    c.isBlank = true

variable {source rest : Text} {start : Nat} {x : Token} {tokens : List Token}

/-- The source from a token on is the value of the token and the source behind it. -/
theorem eq_between_iff {k : Nat} {value : Text} :
    value = source.between k (k + value.length) ↔
      source.drop k = value ++ source.drop (k + value.length) := by
  have hbetween : source.between k (k + value.length) = (source.drop k).take value.length := by
    refine (Text.between_natCast source k (k + value.length)).trans ?_
    rw [Text.slice, List.drop_take, Nat.add_sub_cancel_left]
  rw [hbetween, ← List.drop_drop, ← List.prefix_iff_eq_take, List.prefix_iff_eq_append, eq_comm]

namespace Decomposition

theorem exists_offset (h : Decomposition source start tokens) (hx : x ∈ tokens) :
    ∃ k : Nat, start ≤ k ∧ x.offset = k ∧
      source.drop k = x.value ++ source.drop (k + x.value.length) ∧
      Maximal x.kind x.value (source.drop (k + x.value.length)) := by
  have hstart := h.inside x hx
  obtain ⟨k, hk⟩ := Int.eq_ofNat_of_zero_le (Int.le_trans (Int.natCast_nonneg start) hstart)
  have hvalue := h.value_eq x hx
  have hmaximal := h.maximal x hx
  rw [hk] at hstart hvalue hmaximal
  exact ⟨k, Int.ofNat_le.mp hstart, hk, eq_between_iff.mp hvalue, hmaximal⟩

theorem nil_iff (hdrop : source.drop start = []) :
    Decomposition source start tokens ↔ tokens = [] := by
  rw [List.drop_eq_nil_iff] at hdrop
  constructor
  · intro h
    refine List.eq_nil_iff_forall_not_mem.mpr fun x hx => ?_
    obtain ⟨k, hk, -, hvalue, hmaximal⟩ := h.exists_offset hx
    rw [List.drop_eq_nil_of_le (hdrop.trans hk)] at hvalue
    exact hmaximal.ne_nil (List.append_eq_nil_iff.mp hvalue.symm).1
  · rintro rfl
    refine ⟨by simp, .nil, .nil, by simp, by simp, fun i c hi hc => ?_⟩
    rw [List.getElem?_eq_none (hdrop.trans hi)] at hc
    cases hc

theorem blank_iff (hdrop : source.drop start = c :: rest) (hc : c.isBlank = true) :
    Decomposition source start tokens ↔ Decomposition source (start + 1) tokens := by
  have hget : source[start]? = some c := by
    rw [← List.head?_drop, hdrop, List.head?_cons]
  constructor
  · intro h
    refine ⟨fun x hx => ?_, h.increasing, h.apart, h.value_eq, h.maximal,
      fun i d hi => h.blank i d (by omega)⟩
    obtain ⟨k, hk, hoffset, hvalue, hmaximal⟩ := h.exists_offset hx
    have hne : start ≠ k := by
      rintro rfl
      obtain ⟨d, tail, hd⟩ := List.exists_cons_of_ne_nil hmaximal.ne_nil
      rw [hd] at hvalue hmaximal
      have hblank := hmaximal.isBlank_eq_false
      rw [hdrop, List.cons_append, List.cons.injEq] at hvalue
      rw [← hvalue.1, hc] at hblank
      cases hblank
    rw [hoffset]
    omega
  · intro h
    refine ⟨fun x hx => ?_, h.increasing, h.apart, h.value_eq, h.maximal, fun i d hi hd => ?_⟩
    · have hx := h.inside x hx
      omega
    · by_cases hstart : i = start
      · rw [hstart, hget] at hd
        cases hd
        exact fun _ => hc
      · exact h.blank i d (by omega) hd

/-- The tokens behind the first one start behind its end. -/
theorem end_le (h : Decomposition source start (x :: tokens)) :
    ∀ t ∈ tokens, x.offset + x.value.length ≤ t.offset := by
  intro t ht
  obtain ⟨y, w, rfl⟩ := List.exists_cons_of_ne_nil (List.ne_nil_of_mem ht)
  have hnext := (List.isChain_cons_cons.mp h.apart).1
  have hlater := (List.pairwise_cons.mp (List.pairwise_cons.mp h.increasing).2).1
  rcases List.mem_cons.mp ht with rfl | hw
  · exact hnext
  · exact Int.le_trans hnext (Int.le_of_lt (hlater t hw))

/-- A token in front of a decomposition. -/
theorem cons (h : Decomposition source (start + x.value.length) tokens) (hoffset : x.offset = start)
    (hvalue : source.drop start = x.value ++ source.drop (start + x.value.length))
    (hmaximal : Maximal x.kind x.value (source.drop (start + x.value.length))) :
    Decomposition source start (x :: tokens) := by
  have hlength : 0 < x.value.length := List.length_pos_iff.mpr hmaximal.ne_nil
  have hbehind : ∀ t ∈ tokens, x.offset + x.value.length ≤ t.offset := by
    intro t ht
    have ht := h.inside t ht
    omega
  refine ⟨List.forall_mem_cons.mpr ⟨Int.le_of_eq hoffset.symm, fun t ht => ?_⟩,
    List.pairwise_cons.mpr ⟨fun t ht => ?_, h.increasing⟩,
    List.isChain_cons.mpr ⟨fun t ht => hbehind t (List.mem_of_mem_head? ht), h.apart⟩,
    List.forall_mem_cons.mpr ⟨?_, h.value_eq⟩, List.forall_mem_cons.mpr ⟨?_, h.maximal⟩,
    fun i d hi hd hnone => ?_⟩
  · have hle := hbehind t ht
    omega
  · have hle := hbehind t ht
    omega
  · rw [hoffset]
    exact eq_between_iff.mpr hvalue
  · rw [hoffset]
    exact hmaximal
  · obtain ⟨hx, hnone⟩ := List.forall_mem_cons.mp hnone
    have hend : ¬i < start + x.value.length := fun hlt => hx ⟨by omega, by omega⟩
    exact h.blank i d (Nat.not_lt.mp hend) hd hnone

/-- The tokens behind the first one. -/
theorem of_cons (h : Decomposition source start (x :: tokens)) (hoffset : x.offset = start) :
    Decomposition source (start + x.value.length) tokens := by
  refine ⟨fun t ht => ?_, (List.pairwise_cons.mp h.increasing).2, h.apart.tail,
    fun t ht => h.value_eq t (List.mem_cons_of_mem x ht),
    fun t ht => h.maximal t (List.mem_cons_of_mem x ht), fun i d hi hd hnone => ?_⟩
  · have hle := h.end_le t ht
    omega
  · have hx : ¬x.Covers i := by
      rintro ⟨-, hlt⟩
      omega
    exact h.blank i d (by omega) hd (List.forall_mem_cons.mpr ⟨hx, hnone⟩)

theorem token_iff (hdrop : source.drop start = c :: rest) (hc : c.isBlank = false) :
    Decomposition source start tokens ↔ ∃ x w, tokens = x :: w ∧
      x.kind = (lexeme c rest).1 ∧ x.value = c :: rest.take (lexeme c rest).2 ∧ x.offset = start ∧
      Decomposition source (start + x.value.length) w := by
  have hget : source[start]? = some c := by
    rw [← List.head?_drop, hdrop, List.head?_cons]
  constructor
  · intro h
    -- Some token takes in the code point at `start`, and no token starts before the first one.
    obtain ⟨t, ht, hcovers⟩ : ∃ t ∈ tokens, t.Covers start := by
      by_contra hnone
      have hblank := h.blank start c le_rfl hget fun t ht hcovers => hnone ⟨t, ht, hcovers⟩
      rw [hc] at hblank
      cases hblank
    obtain ⟨x, w, rfl⟩ := List.exists_cons_of_ne_nil (List.ne_nil_of_mem ht)
    obtain ⟨hbefore, hincreasing⟩ := List.pairwise_cons.mp h.increasing
    have hoffset : x.offset = start := by
      have hx := h.inside x List.mem_cons_self
      have hle := hcovers.1
      rcases List.mem_cons.mp ht with rfl | hw
      · omega
      · have hlt := hbefore t hw
        omega
    obtain ⟨k, -, hk, hvalue, hmaximal⟩ := h.exists_offset List.mem_cons_self
    obtain rfl : k = start := by omega
    obtain ⟨d, tail, hd⟩ := List.exists_cons_of_ne_nil hmaximal.ne_nil
    rw [hdrop, hd, List.cons_append, List.cons.injEq] at hvalue
    obtain ⟨rfl, hrest⟩ := hvalue
    rw [hd] at hmaximal
    have hlexeme := (maximal_iff hc hrest).mp hmaximal
    refine ⟨x, w, rfl, (congrArg Prod.fst hlexeme).symm, ?_, hoffset, h.of_cons hoffset⟩
    rw [hd, hlexeme, hrest, List.take_left]
  · rintro ⟨x, w, rfl, hkind, hvalue, hoffset, h⟩
    have hrest := List.take_append_drop (lexeme c rest).2 rest
    have hbehind : source.drop (start + x.value.length) = rest.drop (lexeme c rest).2 := by
      rw [← List.drop_drop, hdrop, hvalue, List.length_cons, List.drop_succ_cons,
        List.length_take_of_le (lexeme_le c rest)]
    refine h.cons hoffset ?_ ?_
    · rw [hdrop, hbehind, hvalue, List.cons_append, hrest]
    · rw [hbehind, hvalue, maximal_iff hc hrest.symm, List.length_take_of_le (lexeme_le c rest),
        hkind]

end Decomposition

/-- What a token says of its source, without its line and its column. -/
def piece (t : Token) : Kind × Text × Int :=
  (t.kind, t.value, t.offset)

/-- From any offset on the scan gives the one decomposition, by induction on what is left of the
source. -/
theorem decomposition_iff_scan {place : Place} (hplace : place.offset = start) :
    Decomposition source start tokens ↔
      tokens.map piece = (scan 0 place (source.drop start)).map piece := by
  induction hn : (source.drop start).length using Nat.strong_induction_on
    generalizing start place tokens with
  | _ n ih =>
    subst hn
    cases hdrop : source.drop start with
    | nil => rw [Decomposition.nil_iff hdrop, scan, List.map_nil, List.map_eq_nil_iff]
    | cons c rest =>
      have later : ∀ (k : Nat) {place : Place} {w : List Token},
          place.offset = (start + (k + 1) : Nat) → (Decomposition source (start + (k + 1)) w ↔
            w.map piece = (scan 0 place (rest.drop k)).map piece) := by
        intro k place w hplace
        have hrest : source.drop (start + (k + 1)) = rest.drop k := by
          rw [← List.drop_drop, hdrop, List.drop_succ_cons]
        rw [← hrest]
        refine ih _ ?_ hplace rfl
        rw [hrest, hdrop, List.length_drop, List.length_cons]
        omega
      by_cases hc : c.isBlank = true
      · rw [Decomposition.blank_iff hdrop hc, scan, if_pos hc]
        exact later 0 (by rw [Place.offset_next, hplace]; rfl)
      · rw [Bool.not_eq_true] at hc
        have hlength : (c :: rest.take (lexeme c rest).2).length = (lexeme c rest).2 + 1 := by
          rw [List.length_cons, List.length_take_of_le (lexeme_le c rest)]
        have hbehind : (place.after (c :: rest.take (lexeme c rest).2)).offset =
            (start + ((lexeme c rest).2 + 1) : Nat) := by
          rw [Place.offset_after, hplace, hlength]
          rfl
        rw [Decomposition.token_iff hdrop hc, scan_cons hc, List.map_cons, List.map_eq_cons_iff]
        refine exists₂_congr fun x w => and_congr_right fun _ => ?_
        simp only [piece, Prod.mk.injEq, and_assoc]
        refine and_congr_right fun _ => and_congr_right fun hvalue => and_congr ?_ ?_
        · rw [← hplace]
          rfl
        · rw [hvalue, hlength]
          exact later _ hbehind

theorem decomposition_iff : Decomposition source 0 tokens ↔
    tokens.map piece = (tokenize source).map piece :=
  decomposition_iff_scan (show Place.offset {} = (0 : Nat) from rfl)

/-- The tokens of a source are a decomposition of it, and the only one, up to the lines and the
columns. -/
theorem tokenize_decomposition (source : Text) :
    Decomposition source 0 (tokenize source) ∧
      ∀ tokens, Decomposition source 0 tokens →
        tokens.map piece = (tokenize source).map piece :=
  ⟨decomposition_iff.mpr rfl, fun _ => decomposition_iff.mp⟩

/-- A symbol and a number that ends with its point, both without their columns. -/
theorem tokenize_decomposition_number :
    Decomposition "a 1." 0 [⟨.symbol, "a", {}⟩, ⟨.number, "1.", { offset := 2 }⟩] ∧
    [(⟨.symbol, "a", {}⟩ : Token), ⟨.number, "1.", { offset := 2 }⟩].map piece =
      (tokenize "a 1.").map piece := by
  have h : Decomposition "a 1." 0 [⟨.symbol, "a", {}⟩, ⟨.number, "1.", { offset := 2 }⟩] :=
    decomposition_iff.mpr rfl
  exact ⟨h, (tokenize_decomposition _).2 _ h⟩

end MathMarkup.Token
