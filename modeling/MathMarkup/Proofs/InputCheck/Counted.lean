import MathMarkup.InputCheck
import MathMarkup.Proofs.Decomposition

/-!
# The delimiters that count

The check of a source looks for delimiters without cutting the source into tokens: it passes over
the code point behind a backslash, or over all of a sized delimiter. The delimiters that it finds
are tokens nevertheless, in the same order: all the tokens that are delimiters but those behind a
sized command from which only spaces part them (`InputCheck.marks_eq_counted`).

Both scans start at the same code point of each token. A command takes in more than the one code
point that the check passes over, and a number more than the one at which the check looks, but what
they take in counts as nothing for the check.
-/

namespace MathMarkup

namespace InputCheck

/-! ## What counts as nothing -/

/-- The code points at which the check of the delimiters stops. -/
def stops : Text :=
  "\\\x7b\x7d[]()"

/-- A code point that the check of the delimiters passes over. -/
def Inert (c : CodePoint) : Prop :=
  c ≠ .scalar '\\' ∧ ∀ offset, markAt? offset c = none

/-- The code points of a class without the stops are passed over. -/
theorem inert_of_class {p : CodePoint → Bool} (hp : ∀ d ∈ stops, p d = false) {c : CodePoint}
    (hc : p c = true) : Inert c := by
  have hne : ∀ d ∈ stops, c ≠ d := by
    rintro d hd rfl
    rw [hp c hd] at hc
    cases hc
  refine ⟨hne _ (by decide), fun offset => ?_⟩
  rw [markAt?, Option.map_eq_none_iff, List.find?_eq_none]
  intro p _
  have hopening := hne (.scalar p.opening) (by cases p <;> decide)
  have hclosing := hne (.scalar p.closing) (by cases p <;> decide)
  simp [hopening, hclosing]

theorem inert_of_isBlank {c : CodePoint} (hc : c.isBlank = true) : Inert c :=
  inert_of_class (by decide) hc

theorem inert_of_isAsciiLetter {c : CodePoint} (hc : c.isAsciiLetter = true) : Inert c :=
  inert_of_class (by decide) hc

theorem inert_of_isDigit {c : CodePoint} (hc : c.isDigit = true) : Inert c :=
  inert_of_class (by decide) hc

theorem inert_point : Inert (.scalar '.') :=
  inert_of_class (p := fun c => c = .scalar '.') (by decide) (by decide)

/-- Counting down is jumping. -/
theorem marks_eq_marks_drop (taken offset : Nat) (t : Text) :
    marks taken offset t = marks 0 (offset + taken) (t.drop taken) := by
  induction t generalizing taken offset with
  | nil => simp [marks]
  | cons c t ih =>
    cases taken with
    | zero => rfl
    | succ taken =>
      rw [marks, ih, List.drop_succ_cons]
      congr 1
      omega

theorem marks_inert {u : Text} (hu : ∀ c ∈ u, Inert c) (offset : Nat) (t : Text) :
    marks 0 offset (u ++ t) = marks 0 (offset + u.length) t := by
  induction u generalizing offset with
  | nil => rfl
  | cons c u ih =>
    obtain ⟨hc, hmark⟩ := hu c List.mem_cons_self
    have hrest := ih (fun x hx => hu x (List.mem_cons_of_mem _ hx)) (offset + 1)
    rw [Nat.add_assoc, Nat.add_comm 1] at hrest
    simp only [List.cons_append, marks, if_neg hc, hmark, hrest, List.length_cons]

/-- Behind a backslash the check passes over what belongs to the command, or counts nothing
there. -/
theorem marks_behind_command (offset : Nat) (rest : Text) :
    marks 1 offset rest =
      marks 0 (offset + Token.commandTail rest) (rest.drop (Token.commandTail rest)) := by
  cases rest with
  | nil => rfl
  | cons c rest =>
    simp only [Token.commandTail]
    split_ifs with hletter hone
    · have hinert : ∀ d ∈ rest.takeWhile CodePoint.isAsciiLetter, Inert d :=
        fun d hd => inert_of_isAsciiLetter (List.mem_takeWhile_imp hd)
      have hjump := marks_inert hinert (offset + 1)
        (rest.drop (rest.takeWhile CodePoint.isAsciiLetter).length)
      rw [List.prefix_iff_eq_append.mp (List.takeWhile_prefix _), Nat.add_assoc] at hjump
      rw [Nat.add_comm 1, List.drop_succ_cons, Nat.add_comm _ 1, ← hjump]
      rfl
    · rfl
    · have hspace : c.isSpace = true := by
        simp only [not_or, Bool.not_eq_true', Bool.not_eq_false] at hone
        exact hone.2
      have hinert : ∀ d ∈ [c], Inert d := by
        simpa using inert_of_isBlank (CodePoint.isBlank_of_isSpace hspace)
      exact (marks_inert hinert offset rest).symm

/-- What a number takes in counts as nothing. -/
theorem inert_of_mem_numberTail {rest : Text} {c : CodePoint}
    (hc : c ∈ rest.take (Token.numberTail rest)) : Inert c := by
  obtain ⟨tail, behind, rfl, hnumber⟩ := Token.exists_number (c := .scalar '0') rfl rest
  cases hnumber with
  | number _ htail hpoint hbehind =>
    rw [Token.numberTail_of_digits htail hpoint hbehind, List.take_left] at hc
    rcases htail c hc with hdigit | rfl
    · exact inert_of_isDigit hdigit
    · exact inert_point

/-! ## Sized delimiters -/

/-- Whether a token is a command whose delimiter does not count. -/
def isSizedCommand (t : Token) : Bool :=
  t.kind = .command && sizedCommands.contains t.value.tail

/-- What stands in a source between two tokens. -/
def gapBetween (source : Text) (s t : Token) : Text :=
  source.slice (s.offset.toNat + s.value.length) t.offset.toNat

/-- Neighbouring tokens that an information separator parts. The lexer passes over it as over any
blank, and the check does not. -/
def Parted (source : Text) (s t : Token) : Prop :=
  [s, t] <:+: Token.tokenize source ∧ ∃ b ∈ gapBetween source s t, b.isSpace = false

/-- Whether a token is one that a sized command takes for its delimiter. -/
def isSizedDelimiter (t : Token) : Bool :=
  (Text.ofString "()[]").any fun c => t.value = [c]

/-- Whether a token is the delimiter of the sized command in front of it. -/
def isSizedBy (source : Text) (s t : Token) : Bool :=
  isSizedCommand s && (gapBetween source s t).all CodePoint.isSpace && isSizedDelimiter t

/-- The delimiter that a token is. -/
def tokenMark? (t : Token) : Option Mark :=
  match t.value with
  | [c] => markAt? t.offset.toNat c
  | _ => none

/-- The tokens that are delimiters and count, in order, with a token before them. -/
def counted (source : Text) : (before : Option Token) → List Token → List Mark
  | _, [] => []
  | before, t :: rest =>
    if before.any (isSizedBy source · t) then counted source (some t) rest
    else (tokenMark? t).toList ++ counted source (some t) rest

/-! ### Commands -/

section Command

variable {rest : Text} {n : Nat}

theorem length_of_mem_sizedCommands {name : Text} (h : sizedCommands.contains name = true) :
    1 < name.length := by
  have hall : ∀ name ∈ sizedCommands, 1 < name.length := by decide
  exact hall name (List.contains_iff_mem.mp h)

/-- The name of a sized command is all the letters behind the backslash. -/
theorem isSizedCommand_command (rest : Text) (place : Place) :
    isSizedCommand ⟨.command, .scalar '\\' :: rest.take (Token.commandTail rest), place⟩ =
      sizedCommands.contains (rest.takeWhile CodePoint.isAsciiLetter) := by
  have hshort : ∀ name : Text, name.length ≤ 1 → sizedCommands.contains name = false := by
    intro name hname
    rw [← Bool.not_eq_true]
    intro h
    have hlength := length_of_mem_sizedCommands h
    omega
  show sizedCommands.contains (rest.take (Token.commandTail rest)) = _
  cases rest with
  | nil => rfl
  | cons c rest =>
    simp only [Token.commandTail]
    split_ifs with hletter hone
    · rw [Nat.add_comm 1, List.take_succ_cons, List.takeWhile_cons, if_pos hletter,
        ← List.prefix_iff_eq_take.mp (List.takeWhile_prefix _)]
    · rw [List.takeWhile_cons, if_neg hletter, hshort _ (by simp), hshort _ (by simp)]
    · rw [List.takeWhile_cons, if_neg hletter, List.take_zero]

theorem commandTail_eq
    (h : sizedCommands.contains (rest.takeWhile CodePoint.isAsciiLetter) = true) :
    Token.commandTail rest = (rest.takeWhile CodePoint.isAsciiLetter).length := by
  have hlength := length_of_mem_sizedCommands h
  cases rest with
  | nil => rfl
  | cons c rest =>
    rw [List.takeWhile_cons] at hlength ⊢
    simp only [Token.commandTail]
    split_ifs at hlength ⊢ with hletter
    · rw [List.length_cons, Nat.add_comm]
    · cases hlength
    · cases hlength

/-- A sized delimiter is what a sized command, spaces and one of its delimiters make up. -/
theorem sizedTail?_eq_some_iff : sizedTail? rest = some n ↔
    sizedCommands.contains (rest.takeWhile CodePoint.isAsciiLetter) = true ∧
      ∃ gap c more, rest.drop (Token.commandTail rest) = gap ++ c :: more ∧
        (∀ b ∈ gap, b.isSpace = true) ∧ c ∈ Text.ofString "()[]" ∧
        n = Token.commandTail rest + gap.length + 1 := by
  constructor
  · intro h
    simp only [sizedTail?] at h
    split at h
    · next hcommand =>
      split at h
      · next c more hdrop =>
        split at h
        · next hc =>
          rw [Option.some.injEq] at h
          rw [commandTail_eq hcommand, ← h]
          refine ⟨hcommand, _, c, more, ?_, fun b hb => List.mem_takeWhile_imp hb,
            List.contains_iff_mem.mp hc, rfl⟩
          rw [← hdrop, List.prefix_iff_eq_append.mp (List.takeWhile_prefix _)]
        · cases h
      · cases h
    · cases h
  · rintro ⟨hcommand, gap, c, more, hdrop, hgap, hc, rfl⟩
    rw [commandTail_eq hcommand] at hdrop ⊢
    have hspaces : (gap ++ c :: more).takeWhile CodePoint.isSpace = gap := by
      have hall : ∀ c ∈ Text.ofString "()[]", c.isSpace = false := by decide
      rw [Text.takeWhile_append_cons (hall c hc), List.takeWhile_eq_self_iff.mpr hgap]
    simp only [sizedTail?]
    rw [if_pos hcommand, hdrop, hspaces, List.drop_left]
    exact if_pos (List.contains_iff_mem.mpr hc)

end Command

/-! ### Other tokens -/

section Lexeme

variable {c : CodePoint}

/-- What a token takes in behind its first code point counts as nothing, if it is no command. -/
theorem inert_of_mem_lexeme (hc : c ≠ .scalar '\\') {rest : Text} {d : CodePoint}
    (hd : d ∈ rest.take (Token.lexeme c rest).2) : Inert d := by
  unfold Token.lexeme at hd
  rw [if_neg hc] at hd
  split_ifs at hd
  · cases hd
  · cases hd
  · exact inert_of_mem_numberTail hd
  · cases hd

theorem tokenMark?_lexeme (hc : c ≠ .scalar '\\') (rest : Text) (place : Place) :
    tokenMark? ⟨(Token.lexeme c rest).1, c :: rest.take (Token.lexeme c rest).2, place⟩ =
      markAt? place.offset.toNat c := by
  cases htail : rest.take (Token.lexeme c rest).2 with
  | nil => rfl
  | cons d tail =>
    have hdigit : c.isDigit = true := by
      unfold Token.lexeme at htail
      rw [if_neg hc] at htail
      split_ifs at htail with hbrace hbracket hdigit
      · cases htail
      · cases htail
      · exact hdigit
      · cases htail
    exact ((inert_of_isDigit hdigit).2 _).symm

theorem tokenMark?_command (tail : Text) (place : Place) :
    tokenMark? ⟨.command, .scalar '\\' :: tail, place⟩ = none := by
  cases tail <;> rfl

theorem marks_lexeme (hc : c ≠ .scalar '\\') (offset : Nat) (rest : Text) :
    marks 0 offset (c :: rest) = (markAt? offset c).toList ++
      marks 0 (offset + (1 + (rest.take (Token.lexeme c rest).2).length))
        (rest.drop (Token.lexeme c rest).2) := by
  have hinert : ∀ d ∈ rest.take (Token.lexeme c rest).2, Inert d :=
    fun d hd => inert_of_mem_lexeme hc hd
  have hjump := marks_inert hinert (offset + 1) (rest.drop (Token.lexeme c rest).2)
  rw [List.take_append_drop, Nat.add_assoc] at hjump
  rw [← hjump, marks, if_neg hc]
  cases markAt? offset c <;> rfl

end Lexeme

/-! ## The marks of a source -/

section Counted

variable {source : Text} {before : Option Token} {s t : Token} {w : List Token}

theorem counted_cons (h : ∀ s ∈ before, isSizedBy source s t = false) :
    counted source before (t :: w) = (tokenMark? t).toList ++ counted source (some t) w := by
  rw [counted, if_neg]
  cases before with
  | none => exact Bool.false_ne_true
  | some s => simp [h s rfl]

theorem counted_cons_sized (h : isSizedBy source s t = true) :
    counted source (some s) (t :: w) = counted source (some t) w :=
  if_pos h

theorem isSizedBy_of_not_isSizedCommand (h : isSizedCommand s = false) :
    isSizedBy source s t = false := by
  simp [isSizedBy, h]

theorem gapBetween_eq {pre value gap rest : Text} {place : Place} (kind kind' : Token.Kind)
    (value' : Text) (hsource : source = pre ++ (value ++ (gap ++ rest)))
    (hplace : place.offset = pre.length) :
    gapBetween source ⟨kind, value, place⟩ ⟨kind', value', (place.after value).after gap⟩ =
      gap := by
  have hstart : (Token.mk kind value place).offset.toNat = pre.length := by
    rw [Token.offset, hplace, Int.toNat_natCast]
  have hstop : (Token.mk kind' value' ((place.after value).after gap)).offset.toNat =
      pre.length + value.length + gap.length := by
    rw [Token.offset, Place.offset_after, Place.offset_after, hplace]
    rfl
  rw [gapBetween, hstart, hstop, hsource, Text.slice, ← List.length_append, ← List.append_assoc,
    List.take_length_add_append, List.drop_left, List.take_left]

end Counted

theorem kind_lexeme_ne_command {c : CodePoint} (hc : c ≠ .scalar '\\') (rest : Text) :
    (Token.lexeme c rest).1 ≠ .command := by
  unfold Token.lexeme
  rw [if_neg hc]
  split_ifs <;> simp

theorem isSizedCommand_lexeme {c : CodePoint} (hc : c ≠ .scalar '\\') (rest value : Text)
    (place : Place) : isSizedCommand ⟨(Token.lexeme c rest).1, value, place⟩ = false := by
  simp [isSizedCommand, kind_lexeme_ne_command hc]

theorem lexeme_of_mem_sizedDelimiters {c : CodePoint} (hc : c ∈ Text.ofString "()[]") :
    c.isBlank = false ∧ c ≠ .scalar '\\' ∧ ∀ rest, (Token.lexeme c rest).2 = 0 := by
  have hall : ∀ c ∈ Text.ofString "()[]", c.isBlank = false ∧ c ≠ .scalar '\\' ∧
      c.isDigit = false := by decide
  obtain ⟨hblank, hne, hdigit⟩ := hall c hc
  refine ⟨hblank, hne, fun rest => ?_⟩
  unfold Token.lexeme
  rw [if_neg hne, hdigit, if_neg Bool.false_ne_true]
  split_ifs <;> rfl

theorem isSizedDelimiter_iff :
    isSizedDelimiter t = true ↔ ∃ c ∈ Text.ofString "()[]", t.value = [c] := by
  simp [isSizedDelimiter]

section Command

variable {source pre rest : Text} {place : Place}

/-- The token behind a command is no sized delimiter if the check sees none there. -/
theorem isSizedBy_of_sizedTail?_eq_none (hsource : source = pre ++ .scalar '\\' :: rest)
    (hplace : place.offset = pre.length) (hnone : sizedTail? rest = none) {tail : Text}
    (htail : tail = rest.take (Token.commandTail rest)) {x : Token}
    (hx : x ∈ (Token.scan 0 (place.after (.scalar '\\' :: tail))
      (rest.drop (Token.commandTail rest))).head?) :
    isSizedBy source ⟨.command, .scalar '\\' :: tail, place⟩ x = false := by
  rw [← Bool.not_eq_true]
  intro hsized
  simp only [isSizedBy, Bool.and_eq_true] at hsized
  obtain ⟨⟨hcommand, hspaces⟩, hdelimiter⟩ := hsized
  obtain ⟨w, hscan⟩ := List.head?_eq_some_iff.mp hx
  obtain ⟨gap, c, more, hdrop, -, -, rfl⟩ := Token.exists_of_scan_eq_cons hscan
  have hparts : source = pre ++ ((.scalar '\\' :: tail) ++ (gap ++ c :: more)) := by
    rw [hsource, htail, ← hdrop, List.cons_append, List.take_append_drop]
  rw [gapBetween_eq _ _ _ hparts hplace, List.all_eq_true] at hspaces
  obtain ⟨d, hd, hvalue⟩ := isSizedDelimiter_iff.mp hdelimiter
  obtain ⟨rfl, -⟩ := List.cons.inj hvalue
  rw [htail, isSizedCommand_command] at hcommand
  have hsome := sizedTail?_eq_some_iff.mpr ⟨hcommand, gap, c, more, hdrop, hspaces, hd, rfl⟩
  rw [hnone] at hsome
  cases hsome

/-- The token behind a command is a sized delimiter if the check sees one there. -/
theorem scan_sized (hsource : source = pre ++ .scalar '\\' :: rest)
    (hplace : place.offset = pre.length) {n : Nat} (hsome : sizedTail? rest = some n) {tail : Text}
    (htail : tail = rest.take (Token.commandTail rest)) :
    n ≤ rest.length ∧ ∃ x,
      Token.scan 0 (place.after (.scalar '\\' :: tail)) (rest.drop (Token.commandTail rest)) =
        x :: Token.scan 0 (place.after (.scalar '\\' :: rest.take n)) (rest.drop n) ∧
      isSizedBy source ⟨.command, .scalar '\\' :: tail, place⟩ x = true ∧
      isSizedCommand x = false := by
  obtain ⟨hcommand, gap, c, more, hdrop, hspaces, hc, rfl⟩ := sizedTail?_eq_some_iff.mp hsome
  obtain ⟨hblank, hne, hlexeme⟩ := lexeme_of_mem_sizedDelimiters hc
  have hblanks : ∀ b ∈ gap, b.isBlank = true :=
    fun b hb => CodePoint.isBlank_of_isSpace (hspaces b hb)
  have hrest : rest.drop (Token.commandTail rest + gap.length + 1) = more := by
    rw [Nat.add_assoc, ← List.drop_drop, hdrop, List.drop_length_add_append]
    rfl
  have hbehind : rest.take (Token.commandTail rest + gap.length + 1) = tail ++ (gap ++ [c]) := by
    rw [Nat.add_assoc, List.take_add, hdrop, List.take_length_add_append, htail]
    rfl
  have hafter : place.after (.scalar '\\' :: (tail ++ (gap ++ [c]))) =
      ((place.after (.scalar '\\' :: tail)).after gap).after [c] := by
    simp only [Place.after, List.foldl_cons, List.foldl_append]
  rw [hrest, hbehind, hafter, hdrop, Token.scan_blanks hblanks, Token.scan_cons hblank,
    hlexeme more]
  have hlength : Token.commandTail rest + gap.length + 1 ≤ rest.length := by
    have hle := Token.commandTail_le rest
    have heq := congrArg List.length hdrop
    rw [List.length_drop, List.length_append, List.length_cons] at heq
    omega
  refine ⟨hlength, _, rfl, ?_, isSizedCommand_lexeme hne _ _ _⟩
  have hparts : source = pre ++ ((.scalar '\\' :: tail) ++ (gap ++ c :: more)) := by
    rw [hsource, htail, ← hdrop, List.cons_append, List.take_append_drop]
  have hall : gap.all CodePoint.isSpace = true := List.all_eq_true.mpr hspaces
  rw [isSizedBy, gapBetween_eq _ _ _ hparts hplace, hall, htail, isSizedCommand_command, hcommand]
  exact isSizedDelimiter_iff.mpr ⟨c, hc, rfl⟩

end Command

/-- From a point of the source on, the check counts the delimiters among the tokens. A token may
start there, but not the delimiter of a sized command. -/
def CountsFrom (source pre t : Text) : Prop :=
  ∀ (place : Place) (before : Option Token), place.offset = pre.length →
    (∀ s ∈ before, ∀ x ∈ (Token.scan 0 place t).head?, isSizedBy source s x = false) →
    marks 0 pre.length t = counted source before (Token.scan 0 place t)

namespace CountsFrom

variable {source pre rest : Text} {c : CodePoint}

/-- The marks behind some code points, if they count as they should. -/
theorem later {u v : Text} (h : CountsFrom source (pre ++ u) v) {place : Place}
    (hplace : place.offset = pre.length) {before : Option Token}
    (hbefore : ∀ s ∈ before, ∀ x ∈ (Token.scan 0 (place.after u) v).head?,
      isSizedBy source s x = false) :
    marks 0 (pre.length + u.length) v =
      counted source before (Token.scan 0 (place.after u) v) := by
  rw [← List.length_append]
  refine h _ _ ?_ hbefore
  rw [Place.offset_after, hplace, List.length_append]
  rfl

theorem blank (hblank : c.isBlank = true) (h : CountsFrom source (pre ++ [c]) rest) :
    CountsFrom source pre (c :: rest) := by
  intro place before hplace hbefore
  have hscan : Token.scan 0 place (c :: rest) = Token.scan 0 (place.after [c]) rest := if_pos hblank
  rw [hscan] at hbefore ⊢
  rw [← h.later hplace hbefore]
  exact marks_inert (u := [c]) (by simpa using inert_of_isBlank hblank) pre.length rest

/-- A token that is no command. -/
theorem lexeme (hblank : c.isBlank = false) (hc : c ≠ .scalar '\\')
    (h : CountsFrom source (pre ++ (c :: rest.take (Token.lexeme c rest).2))
      (rest.drop (Token.lexeme c rest).2)) : CountsFrom source pre (c :: rest) := by
  intro place before hplace hbefore
  rw [Token.scan_cons hblank] at hbefore ⊢
  rw [counted_cons fun s hs => hbefore s hs _ rfl, ← h.later hplace]
  · rw [tokenMark?_lexeme hc, hplace, Int.toNat_natCast, marks_lexeme hc, List.length_cons,
      Nat.add_comm 1]
  · intro s hs x _
    rw [← Option.mem_some_iff.mp hs]
    exact isSizedBy_of_not_isSizedCommand (isSizedCommand_lexeme hc _ _ _)

theorem counted_command {place : Place} {before : Option Token}
    (hbefore : ∀ s ∈ before, ∀ x ∈ (Token.scan 0 place (.scalar '\\' :: rest)).head?,
      isSizedBy source s x = false) :
    counted source before (Token.scan 0 place (.scalar '\\' :: rest)) =
      counted source
        (some ⟨.command, .scalar '\\' :: rest.take (Token.commandTail rest), place⟩)
        (Token.scan 0 (place.after (.scalar '\\' :: rest.take (Token.commandTail rest)))
          (rest.drop (Token.commandTail rest))) := by
  have hscan := Token.scan_cons (c := .scalar '\\') (by decide) place rest
  have htoken : Token.lexeme (.scalar '\\') rest = (.command, Token.commandTail rest) := if_pos rfl
  rw [htoken] at hscan
  rw [hscan] at hbefore ⊢
  rw [counted_cons fun s hs => hbefore s hs _ rfl, tokenMark?_command]
  rfl

/-- A command without a sized delimiter. -/
theorem command (hsource : source = pre ++ .scalar '\\' :: rest) (hnone : sizedTail? rest = none)
    (h : CountsFrom source (pre ++ (.scalar '\\' :: rest.take (Token.commandTail rest)))
      (rest.drop (Token.commandTail rest))) : CountsFrom source pre (.scalar '\\' :: rest) := by
  intro place before hplace hbefore
  rw [counted_command hbefore, ← h.later hplace]
  · have hstart : marks 0 pre.length (.scalar '\\' :: rest) = marks 1 (pre.length + 1) rest := by
      rw [marks, if_pos rfl, hnone]
      rfl
    rw [hstart, marks_behind_command, List.length_cons,
      List.length_take_of_le (Token.commandTail_le rest), Nat.add_right_comm, Nat.add_assoc]
  · intro s hs x hx
    rw [← Option.mem_some_iff.mp hs]
    exact isSizedBy_of_sizedTail?_eq_none hsource hplace hnone rfl hx

/-- A command with its sized delimiter. -/
theorem sized (hsource : source = pre ++ .scalar '\\' :: rest) {n : Nat}
    (hsome : sizedTail? rest = some n)
    (h : CountsFrom source (pre ++ (.scalar '\\' :: rest.take n)) (rest.drop n)) :
    CountsFrom source pre (.scalar '\\' :: rest) := by
  intro place before hplace hbefore
  obtain ⟨hn, x, hscan, hby, hplain⟩ := scan_sized hsource hplace hsome rfl
  rw [counted_command hbefore, hscan, counted_cons_sized hby, ← h.later hplace]
  · have hstart : marks 0 pre.length (.scalar '\\' :: rest) = marks n (pre.length + 1) rest := by
      rw [marks, if_pos rfl, hsome]
      rfl
    rw [hstart, marks_eq_marks_drop, List.length_cons, List.length_take_of_le hn,
      Nat.add_right_comm, Nat.add_assoc]
  · intro s hs y _
    rw [← Option.mem_some_iff.mp hs]
    exact isSizedBy_of_not_isSizedCommand hplain

end CountsFrom

theorem countsFrom {source pre t : Text} (hsource : source = pre ++ t) :
    CountsFrom source pre t := by
  induction hn : t.length using Nat.strong_induction_on generalizing pre t with
  | _ n ih =>
    subst hn
    have later : ∀ {u v : Text}, t = u ++ v → u ≠ [] → CountsFrom source (pre ++ u) v := by
      intro u v huv hu
      have hpos := List.length_pos_iff.mpr hu
      have hlength : v.length < t.length := by
        rw [huv, List.length_append]
        omega
      exact ih v.length hlength (by rw [hsource, huv, List.append_assoc]) rfl
    -- The next piece is a blank, a token, or a sized command together with its delimiter.
    cases t with
    | nil => exact fun _ _ _ _ => rfl
    | cons c rest =>
      have behind : ∀ k, CountsFrom source (pre ++ (c :: rest.take k)) (rest.drop k) := fun k =>
        later (by rw [List.cons_append, List.take_append_drop]) (List.cons_ne_nil _ _)
      by_cases hblank : c.isBlank = true
      · exact .blank hblank (behind 0)
      rw [Bool.not_eq_true] at hblank
      by_cases hc : c = .scalar '\\'
      · subst hc
        cases hsized : sizedTail? rest with
        | none => exact .command hsource hsized (behind _)
        | some n => exact .sized hsource hsized (behind n)
      · exact .lexeme hblank hc (behind _)

/-- The delimiters that count are tokens: all that are delimiters but those of sized commands. -/
theorem marks_eq_counted (source : Text) :
    marks 0 0 source = counted source none (Token.tokenize source) := by
  have h : CountsFrom source [] source := countsFrom rfl
  exact h {} none rfl (by simp)

end InputCheck

end MathMarkup
