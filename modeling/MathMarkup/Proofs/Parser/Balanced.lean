import MathMarkup.Proofs.Command
import MathMarkup.Proofs.Parser.Derivation

/-!
# Balanced tokens

`Balanced` is the grammar of properly nested tokens: braces, brackets, `\left` with its `\right`,
and environments with one name at both ends. The token behind `\left`, `\right`, `\middle` or a
command of a size is a delimiter and nests nothing, even if it is a bracket.

Two scans look ahead without parsing: that for the brace that closes a raw group, and that for the
`\end` of an environment. Both pass over balanced tokens.
-/

namespace MathMarkup.Parser

/-! ## The roles of tokens -/

/-- The part that a token has in the nesting. -/
inductive Role where
  /-- It nests nothing and takes no delimiter. -/
  | plain
  | openBrace
  | closeBrace
  | openBracket
  | closeBracket
  | left
  | right
  /-- It takes a delimiter and nests nothing. -/
  | sizes
  | begins
  | ends
  /-- A brace or bracket that is none of the four. -/
  | foreign
deriving DecidableEq, Repr

/-- Whether a token is a command that sets the size of a delimiter. -/
def isSized (g : Grammar) (t : Token) : Bool :=
  t.kind = .command && match g.commands.get? t.value with
    | some (.sized _) => true
    | _ => false

/-- The tokens that have a part in the nesting whatever the symbols are. -/
def marks : Assoc (Token.Kind × Text) Role :=
  [((.brace, "\x7b"), .openBrace), ((.brace, "\x7d"), .closeBrace),
   ((.bracket, "["), .openBracket), ((.bracket, "]"), .closeBracket),
   ((.command, "\\left"), .left), ((.command, "\\right"), .right),
   ((.command, "\\begin"), .begins), ((.command, "\\end"), .ends),
   ((.command, "\\middle"), .sizes)]

/-- The part of a token in the nesting. -/
def role (g : Grammar) (t : Token) : Role :=
  match marks.get? (t.kind, t.value) with
  | some r => r
  | none =>
    if t.kind = .brace ∨ t.kind = .bracket then .foreign
    else if isSized g t then .sizes else .plain

/-- Whether a token is a delimiter: a symbol, a bracket, or a fence. -/
def isDelimiter (g : Grammar) (t : Token) : Bool :=
  match t.kind with
  | .symbol | .bracket => true
  | .command =>
    match g.commands.get? t.value with
    | some (.fence _) => true
    | _ => false
  | _ => false

/-- Properly nested tokens. -/
inductive Balanced (g : Grammar) : List Token → Prop where
  | nil : Balanced g []
  | plain {t : Token} {w : List Token} : role g t = .plain → Balanced g w → Balanced g (t :: w)
  | braces {o c : Token} {u w : List Token} : role g o = .openBrace → Balanced g u →
      role g c = .closeBrace → Balanced g w → Balanced g (o :: (u ++ c :: w))
  | brackets {o c : Token} {u w : List Token} : role g o = .openBracket → Balanced g u →
      role g c = .closeBracket → Balanced g w → Balanced g (o :: (u ++ c :: w))
  | pair {l d r d' : Token} {u w : List Token} : role g l = .left → isDelimiter g d = true →
      Balanced g u → role g r = .right → isDelimiter g d' = true → Balanced g w →
      Balanced g (l :: d :: (u ++ r :: d' :: w))
  | sized {t d : Token} {w : List Token} : role g t = .sizes → isDelimiter g d = true →
      Balanced g w → Balanced g (t :: d :: w)
  | environment {b e : Token} {n n' u w : List Token} {name : Text} : role g b = .begins →
      NameGroup n name → Balanced g u → role g e = .ends → NameGroup n' name → Balanced g w →
      Balanced g (b :: (n ++ (u ++ e :: (n' ++ w))))

variable {g : Grammar} {t : Token}

/-! ## Roles and tests -/

/-- A role that only one spelling has is told by that spelling. -/
theorem is_iff_role (g : Grammar) {kind : Token.Kind} {value : Text} {r : Role}
    (hr : r ∉ [Role.plain, .sizes, .foreign])
    (h : marks.filter (fun m => m.2 = r) = [((kind, value), r)]) :
    t.is kind value = true ↔ role g t = r := by
  have hkeys : (marks.map Prod.fst).Nodup := by simp [marks]
  have hmarks : role g t = r ↔ marks.get? (t.kind, t.value) = some r := by
    unfold role
    cases marks.get? (t.kind, t.value) with
    | some r' => simp
    | none =>
      simp only [List.mem_cons, List.not_mem_nil, or_false, not_or] at hr
      dsimp only
      split
      · simp [Ne.symm hr.2.2]
      · split
        · simp [Ne.symm hr.2.1]
        · simp [Ne.symm hr.1]
  have hmem : ((t.kind, t.value), r) ∈ marks ↔ (t.kind, t.value) = (kind, value) := by
    have hfilter : ((t.kind, t.value), r) ∈ marks ↔
        ((t.kind, t.value), r) ∈ marks.filter fun m => m.2 = r := by simp
    rw [hfilter, h]
    simp
  rw [hmarks, Assoc.get?_eq_some_iff hkeys, hmem, Token.is_iff, Prod.mk.injEq]

theorem isOpenBrace_iff (g : Grammar) : t.isOpenBrace = true ↔ role g t = .openBrace :=
  is_iff_role g (by decide) (by decide)

theorem isCloseBrace_iff (g : Grammar) : t.isCloseBrace = true ↔ role g t = .closeBrace :=
  is_iff_role g (by decide) (by decide)

theorem isOpenBracket_iff (g : Grammar) : t.isOpenBracket = true ↔ role g t = .openBracket :=
  is_iff_role g (by decide) (by decide)

theorem isCloseBracket_iff (g : Grammar) : t.isCloseBracket = true ↔ role g t = .closeBracket :=
  is_iff_role g (by decide) (by decide)

theorem isLeft_iff (g : Grammar) : t.isCommand "\\left" = true ↔ role g t = .left :=
  is_iff_role g (by decide) (by decide)

theorem isRight_iff (g : Grammar) : t.isCommand "\\right" = true ↔ role g t = .right :=
  is_iff_role g (by decide) (by decide)

theorem isBegin_iff (g : Grammar) : t.isCommand "\\begin" = true ↔ role g t = .begins :=
  is_iff_role g (by decide) (by decide)

theorem isEnd_iff (g : Grammar) : t.isCommand "\\end" = true ↔ role g t = .ends :=
  is_iff_role g (by decide) (by decide)

/-- Whether a token of this role closes something. -/
def Role.closes : Role → Bool
  | .closeBrace | .closeBracket | .right | .ends => true
  | _ => false

theorem isSome_closedBy? (g : Grammar) (t : Token) :
    (Scope.closedBy? t).isSome = (role g t).closes := by
  unfold Scope.closedBy?
  split
  · next h => rw [(isCloseBrace_iff g).mp h]; rfl
  · next hbrace =>
    split
    · next h => rw [(isCloseBracket_iff g).mp h]; rfl
    · next hbracket =>
      split
      · next h => rw [(isEnd_iff g).mp h]; rfl
      · next hend =>
        split
        · next h => rw [(isRight_iff g).mp h]; rfl
        · next hright =>
          rw [isCloseBrace_iff g] at hbrace
          rw [isCloseBracket_iff g] at hbracket
          rw [isEnd_iff g] at hend
          rw [isRight_iff g] at hright
          cases hr : role g t <;> simp_all [Role.closes]

/-! ## The roles of commands -/

/-- The commands that have a part in the nesting. -/
def nests : Command → Bool
  | .left | .middle | .sized _ | .beginEnvironment | .closer => true
  | _ => false

/-- A command is among the marks only if it is one of four kinds. -/
theorem get?_marks_command (hg : g.Regular) (ht : t.kind = .command)
    (h : ∀ m ∈ [Command.left, .middle, .beginEnvironment, .closer],
      g.commands.get? t.value ≠ some m) : marks.get? (t.kind, t.value) = none := by
  rw [Assoc.get?_eq_none_iff]
  intro hmem
  rw [ht] at hmem
  simp only [marks, List.map_cons, List.map_nil, List.mem_cons, Prod.mk.injEq, reduceCtorEq,
    false_and, true_and, false_or, List.not_mem_nil, or_false] at hmem
  rcases hmem with hv | hv | hv | hv | hv
  · exact h _ (by simp) (hg.get?_eq_left_iff.mpr hv)
  · exact h _ (by simp) (hg.get?_eq_closer_iff.mpr (Or.inr hv))
  · exact h _ (by simp) (hg.get?_eq_beginEnvironment_iff.mpr hv)
  · exact h _ (by simp) (hg.get?_eq_closer_iff.mpr (Or.inl hv))
  · exact h _ (by simp) (hg.get?_eq_middle_iff.mpr hv)

theorem role_command_plain (hg : g.Regular) (ht : t.kind = .command)
    (h : ∀ m, g.commands.get? t.value = some m → nests m = false) : role g t = .plain := by
  have hmarks : marks.get? (t.kind, t.value) = none := by
    refine get?_marks_command hg ht fun m hm hget => ?_
    have hall : ∀ m ∈ [Command.left, .middle, .beginEnvironment, .closer], nests m = true := by
      decide
    have hnot := h m hget
    rw [hall m hm] at hnot
    cases hnot
  have hsized : isSized g t = false := by
    rw [isSized, ht]
    split
    · next size hget => cases h _ hget
    · rfl
  unfold role
  rw [hmarks]
  simp [ht, hsized]

theorem role_command_sizes (hg : g.Regular) (ht : t.kind = .command) {m : Command}
    (hget : g.commands.get? t.value = some m) (hm : m = .middle ∨ ∃ size, m = .sized size) :
    role g t = .sizes := by
  rcases hm with rfl | ⟨size, rfl⟩
  · unfold role
    rw [ht, hg.get?_eq_middle_iff.mp hget]
    rfl
  · have hmarks : marks.get? (t.kind, t.value) = none := by
      refine get?_marks_command hg ht fun m hm hget' => ?_
      rw [hget] at hget'
      cases hget'
      simp at hm
    have hsized : isSized g t = true := by
      simp [isSized, hget, ht]
    unfold role
    rw [hmarks]
    simp [ht, hsized]

theorem role_command_left (hg : g.Regular) (ht : t.kind = .command)
    (hget : g.commands.get? t.value = some .left) : role g t = .left :=
  (isLeft_iff g).mp (Token.is_iff.mpr ⟨ht, hg.get?_eq_left_iff.mp hget⟩)

theorem role_command_begins (hg : g.Regular) (ht : t.kind = .command)
    (hget : g.commands.get? t.value = some .beginEnvironment) : role g t = .begins :=
  (isBegin_iff g).mp (Token.is_iff.mpr ⟨ht, hg.get?_eq_beginEnvironment_iff.mp hget⟩)

theorem role_command_closes (hg : g.Regular) (ht : t.kind = .command)
    (hget : g.commands.get? t.value = some .closer) : (role g t).closes = true := by
  rcases hg.get?_eq_closer_iff.mp hget with hv | hv
  · rw [(isEnd_iff g).mp (Token.is_iff.mpr ⟨ht, hv⟩)]
    rfl
  · rw [(isRight_iff g).mp (Token.is_iff.mpr ⟨ht, hv⟩)]
    rfl

/-- A token that is neither a command nor a brace or bracket has no part in the nesting. -/
theorem role_of_kind (ht : t.kind ∉ [Token.Kind.command, .brace, .bracket]) :
    role g t = .plain := by
  simp only [List.mem_cons, List.not_mem_nil, or_false, not_or] at ht
  have hmarks : marks.get? (t.kind, t.value) = none := by
    rw [Assoc.get?_eq_none_iff]
    simp [marks, ht]
  have hsized : isSized g t = false := by simp [isSized, ht.1]
  unfold role
  rw [hmarks]
  simp [ht, hsized]

theorem role_of_script {script : Script} (h : Script.ofToken? t = some script) :
    role g t = .plain := by
  refine role_of_kind ?_
  rw [(Script.value_of_ofToken? h).1]
  decide

theorem role_of_limits (hg : g.Regular) {movable : Bool} (h : limits? g t = some movable) :
    role g t = .plain := by
  unfold limits? at h
  split at h
  · next hk =>
    split at h
    · next hget =>
      refine role_command_plain hg hk fun m hm => ?_
      rw [hget] at hm
      cases hm
      rfl
    · cases h
  · cases h

theorem role_of (h : t.isCommand "\\of" = true) : role g t = .plain ∨ role g t = .sizes := by
  obtain ⟨hk, hv⟩ := Token.is_iff.mp h
  have hmarks : marks.get? (Token.Kind.command, Text.ofString "\\of") = none := by decide
  unfold role
  rw [hk, hv, hmarks]
  cases isSized g t
  · exact Or.inl rfl
  · exact Or.inr rfl

/-- A brace or bracket has the role of a mark of its kind, or none. -/
theorem role_of_paired (ht : t.kind = .brace ∨ t.kind = .bracket) :
    role g t = .foreign ∨ ∃ m ∈ marks, m.1.1 = t.kind ∧ m.2 = role g t := by
  unfold role
  cases hget : marks.get? (t.kind, t.value) with
  | none => exact Or.inl (if_pos ht)
  | some r => exact Or.inr ⟨_, Assoc.mem_of_get? hget, rfl, rfl⟩

/-! ## Taking balanced tokens apart -/

/-- What stands behind a token in balanced tokens, by the role of the token. -/
def After (g : Grammar) : Role → List Token → Prop
  | .plain, w => Balanced g w
  | .openBrace, w => ∃ u c v, w = u ++ c :: v ∧ Balanced g u ∧ role g c = .closeBrace ∧
      Balanced g v
  | .openBracket, w => ∃ u c v, w = u ++ c :: v ∧ Balanced g u ∧ role g c = .closeBracket ∧
      Balanced g v
  | .left, w => ∃ d u r d' v, w = d :: (u ++ r :: d' :: v) ∧ isDelimiter g d = true ∧
      Balanced g u ∧ role g r = .right ∧ isDelimiter g d' = true ∧ Balanced g v
  | .sizes, w => ∃ d v, w = d :: v ∧ isDelimiter g d = true ∧ Balanced g v
  | .begins, w => ∃ n u e n' v name, w = n ++ (u ++ e :: (n' ++ v)) ∧ NameGroup n name ∧
      Balanced g u ∧ role g e = .ends ∧ NameGroup n' name ∧ Balanced g v
  | _, _ => False

theorem Balanced.after {w : List Token} (h : Balanced g (t :: w)) : After g (role g t) w := by
  cases h with
  | plain ht hw =>
    rw [ht]
    exact hw
  | braces ho hu hc hw =>
    rw [ho]
    exact ⟨_, _, _, rfl, hu, hc, hw⟩
  | brackets ho hu hc hw =>
    rw [ho]
    exact ⟨_, _, _, rfl, hu, hc, hw⟩
  | pair hl hd hu hr hd' hw =>
    rw [hl]
    exact ⟨_, _, _, _, _, rfl, hd, hu, hr, hd', hw⟩
  | sized ht hd hw =>
    rw [ht]
    exact ⟨_, _, rfl, hd, hw⟩
  | environment hb hn hu he hn' hw =>
    rw [hb]
    exact ⟨_, _, _, _, _, _, rfl, hn, hu, he, hn', hw⟩

/-- Balanced tokens do not start with a closer. -/
theorem Balanced.not_closes {w : List Token} (h : Balanced g (t :: w)) :
    (role g t).closes = false := by
  have hafter := h.after
  cases hr : role g t with
  | closeBrace | closeBracket | right | ends =>
    rw [hr] at hafter
    cases hafter
  | _ => rfl

/-- A brace among balanced tokens that closes nothing opens a group. -/
theorem After.isOpenBrace {w : List Token} (h : After g (role g t) w)
    (hc : (role g t).closes = false) (ht : t.kind = .brace) : t.isOpenBrace = true := by
  have hmarks : ∀ m ∈ marks, m.1.1 = .brace → m.2.closes = false → m.2 = .openBrace := by decide
  rcases role_of_paired (g := g) (Or.inl ht) with hr | ⟨m, hm, hk, hr⟩
  · rw [hr] at h
    cases h
  · rw [isOpenBrace_iff g, ← hr]
    exact hmarks m hm (hk.trans ht) (hr ▸ hc)

/-- A bracket among balanced tokens that closes nothing opens a group. -/
theorem After.isOpenBracket {w : List Token} (h : After g (role g t) w)
    (hc : (role g t).closes = false) (ht : t.kind = .bracket) : t.isOpenBracket = true := by
  have hmarks : ∀ m ∈ marks, m.1.1 = .bracket → m.2.closes = false → m.2 = .openBracket := by
    decide
  rcases role_of_paired (g := g) (Or.inr ht) with hr | ⟨m, hm, hk, hr⟩
  · rw [hr] at h
    cases h
  · rw [isOpenBracket_iff g, ← hr]
    exact hmarks m hm (hk.trans ht) (hr ▸ hc)

/-- A property that goes over from parts to the whole holds of balanced tokens, if it holds of the
single tokens in them and of groups in braces and environments whose content has it. -/
theorem Balanced.of_parts {p : List Token → Prop} (nil : p [])
    (append : ∀ {u v}, p u → p v → p (u ++ v))
    (single : ∀ {t}, role g t ∉ [Role.openBrace, .closeBrace, .begins, .ends] → p [t])
    (delimiter : ∀ {d}, isDelimiter g d = true → p [d])
    (braces : ∀ {o c u}, role g o = .openBrace → p u → role g c = .closeBrace →
      p (o :: (u ++ [c])))
    (environment : ∀ {b e n n' u name}, role g b = .begins → NameGroup n name → p u →
      role g e = .ends → NameGroup n' name → p (b :: (n ++ (u ++ e :: n'))))
    {w : List Token} (h : Balanced g w) : p w := by
  have other : ∀ {t r}, role g t = r → r ∉ [Role.openBrace, .closeBrace, .begins, .ends] →
      p [t] := by
    rintro t r rfl hr
    exact single hr
  induction h with
  | nil => exact nil
  | plain ht _ ih => exact append (other ht (by decide)) ih
  | braces ho _ hc _ ihu ihw => simpa using append (braces ho ihu hc) ihw
  | brackets ho _ hc _ ihu ihw =>
    have hopen := other ho (by decide)
    have hclose := other hc (by decide)
    simpa using append hopen (append ihu (append hclose ihw))
  | pair hl hd _ hr hd' _ ihu ihw =>
    have hleft := append (other hl (by decide)) (delimiter hd)
    have hright := append (other hr (by decide)) (delimiter hd')
    simpa using append hleft (append ihu (append hright ihw))
  | sized ht hd _ ihw => exact append (append (other ht (by decide)) (delimiter hd)) ihw
  | environment hb hn _ he hn' _ ihu ihw => simpa using append (environment hb hn ihu he hn') ihw

/-! ## Names in braces -/

theorem not_isCloseBrace_of_isNamePiece (h : isNamePiece t = true) : t.isCloseBrace = false := by
  simp only [isNamePiece, Bool.and_eq_true, decide_eq_true_eq] at h
  simp [Token.isCloseBrace, Token.isBrace, Token.is, h.1]

theorem scanPieces?_append {run : List Token} (hrun : ∀ x ∈ run, isNamePiece x = true)
    {closing : Token} (hc : closing.isCloseBrace = true) (rest : List Token) :
    scanPieces? (run ++ closing :: rest) = some (run.map Token.value, run.length + 1) := by
  induction run with
  | nil => simp [scanPieces?, hc]
  | cons x run ih =>
    have hx := hrun x List.mem_cons_self
    have hmore := ih fun y hy => hrun y (List.mem_cons_of_mem _ hy)
    simp [scanPieces?, not_isCloseBrace_of_isNamePiece hx, hx, hmore]

theorem readPieces_append (command opening : Token) {run : List Token}
    (hrun : ∀ x ∈ run, isNamePiece x = true) {closing : Token} (hc : closing.isCloseBrace = true)
    (rest : List Token) : readPieces command opening (run ++ closing :: rest) =
      .ok (run.map Token.value, run.length + 1) := by
  induction run with
  | nil => simp [readPieces, hc]
  | cons x run ih =>
    have hx := hrun x List.mem_cons_self
    have hmore := ih fun y hy => hrun y (List.mem_cons_of_mem _ hy)
    simp [readPieces, not_isCloseBrace_of_isNamePiece hx, hx, hmore]

/-- A name in braces is found at the start of the tokens. -/
theorem NameGroup.scanName? {n : List Token} {name : Text} (h : NameGroup n name)
    (rest : List Token) : Parser.scanName? (n ++ rest) = some (name, n.length) := by
  obtain ⟨opening, pieces, closing, rfl, ho, hne, hrun, hc, rfl⟩ := h
  obtain ⟨piece, more, rfl⟩ := List.exists_cons_of_ne_nil hne
  have hscan := scanPieces?_append hrun hc rest
  rw [List.map_cons, List.cons_append] at hscan
  simp [Parser.scanName?, ho, hscan]

theorem NameGroup.readName {n : List Token} {name : Text} (h : NameGroup n name)
    (command : Token) (rest : List Token) :
    Parser.readName command (n ++ rest) = .ok (name, n.length) := by
  obtain ⟨opening, pieces, closing, rfl, ho, hne, hrun, hc, rfl⟩ := h
  obtain ⟨piece, more, rfl⟩ := List.exists_cons_of_ne_nil hne
  have hread := readPieces_append command opening hrun hc rest
  rw [List.map_cons, List.cons_append] at hread
  simp [Parser.readName, ho, hread]

/-- The tokens of a name in braces: a brace at both ends and pieces between them. -/
theorem NameGroup.mem {n : List Token} {name : Text} (h : NameGroup n name) {x : Token}
    (hx : x ∈ n) : x.isOpenBrace = true ∨ isNamePiece x = true ∨ x.isCloseBrace = true := by
  obtain ⟨opening, pieces, closing, rfl, ho, _, hrun, hc, _⟩ := h
  rcases List.mem_cons.mp hx with rfl | hx
  · exact Or.inl ho
  · rcases List.mem_append.mp hx with hx | hx
    · exact Or.inr (Or.inl (hrun x hx))
    · rw [List.mem_singleton.mp hx]
      exact Or.inr (Or.inr hc)

theorem NameGroup.kind_of_mem {n : List Token} {name : Text} (h : NameGroup n name) {x : Token}
    (hx : x ∈ n) : x.kind ≠ .command ∧ x.kind ≠ .bracket := by
  rcases h.mem hx with ho | hp | hc
  · rw [(Token.is_iff.mp ho).1]
    decide
  · simp only [isNamePiece, Bool.and_eq_true, decide_eq_true_eq] at hp
    rw [hp.1]
    decide
  · rw [(Token.is_iff.mp hc).1]
    decide

/-! ## The scan for a closing brace -/

theorem closingBrace?_open {o : Token} (ho : o.isOpenBrace = true) (depth : Nat)
    (rest : List Token) : closingBrace? depth (o :: rest) =
      (closingBrace? (depth + 1) rest).map fun found => (found.1, found.2 + 1) := by
  cases depth <;> simp [closingBrace?, ho]

theorem closingBrace?_close {c : Token} (ho : c.isOpenBrace = false) (hc : c.isCloseBrace = true)
    (depth : Nat) (rest : List Token) : closingBrace? (depth + 1) (c :: rest) =
      (closingBrace? depth rest).map fun found => (found.1, found.2 + 1) := by
  simp [closingBrace?, ho, hc]

theorem not_isOpenBrace_of_isCloseBrace (h : t.isCloseBrace = true) : t.isOpenBrace = false := by
  have hv := (Token.is_iff.mp h).2
  have hne : Text.ofString "\x7d" ≠ Text.ofString "\x7b" := by decide
  simp [Token.isOpenBrace, Token.isBrace, Token.is, hv, hne]

/-- The scan for a closing brace goes over the tokens and on behind them, at the same depth. -/
def BracesPass (u : List Token) : Prop :=
  ∀ depth rest, closingBrace? depth (u ++ rest) =
    (closingBrace? depth rest).map fun found => (found.1, found.2 + u.length)

namespace BracesPass

variable {u v : List Token}

theorem nil : BracesPass [] := by
  intro depth rest
  simp

theorem append (hu : BracesPass u) (hv : BracesPass v) : BracesPass (u ++ v) := by
  intro depth rest
  rw [List.append_assoc, hu, hv, Option.map_map]
  congr 1
  funext found
  simp only [Function.comp, List.length_append]
  congr 1
  omega

theorem token (ho : t.isOpenBrace = false) (hc : t.isCloseBrace = false) : BracesPass [t] := by
  intro depth rest
  simp [closingBrace?, ho, hc]

theorem cons (ht : BracesPass [t]) (hu : BracesPass u) : BracesPass (t :: u) :=
  ht.append hu

/-- A brace and the one that closes it change the depth and change it back. -/
theorem braces {o c : Token} (ho : o.isOpenBrace = true) (hc : c.isCloseBrace = true)
    (hu : BracesPass u) : BracesPass (o :: (u ++ [c])) := by
  intro depth rest
  have hclose := closingBrace?_close (not_isOpenBrace_of_isCloseBrace hc) hc depth rest
  rw [List.cons_append, List.append_assoc, List.singleton_append, closingBrace?_open ho, hu, hclose,
    Option.map_map, Option.map_map]
  congr 1
  funext found
  simp only [Function.comp, List.length_cons, List.length_append, List.length_nil]
  congr 1
  omega

theorem names {pieces : List Token} (h : ∀ x ∈ pieces, isNamePiece x = true) :
    BracesPass pieces := by
  induction pieces with
  | nil => exact nil
  | cons x pieces ih =>
    have hx := h x List.mem_cons_self
    have hkind : x.isOpenBrace = false := by
      simp only [isNamePiece, Bool.and_eq_true, decide_eq_true_eq] at hx
      simp [Token.isOpenBrace, Token.isBrace, Token.is, hx.1]
    exact cons (token hkind (not_isCloseBrace_of_isNamePiece hx))
      (ih fun y hy => h y (List.mem_cons_of_mem _ hy))

theorem nameGroup {n : List Token} {name : Text} (h : NameGroup n name) : BracesPass n := by
  obtain ⟨opening, pieces, closing, rfl, ho, _, hrun, hc, _⟩ := h
  exact braces ho hc (names hrun)

end BracesPass

theorem isDelimiter_of_delimiter? {d : Token} {shown : Option Text}
    (h : delimiter? g d = some shown) : isDelimiter g d = true := by
  unfold delimiter? at h
  split at h
  · next hk => simp [isDelimiter, hk]
  · next hk => simp [isDelimiter, hk]
  · next hk =>
    split at h
    · next hget => simp [isDelimiter, hk, hget]
    · cases h
  · cases h

/-- A delimiter is no brace and does not begin or end an environment. -/
theorem isDelimiter_apart (hg : g.Regular) (h : isDelimiter g t = true) :
    t.isOpenBrace = false ∧ t.isCloseBrace = false ∧ t.isCommand "\\begin" = false ∧
      t.isCommand "\\end" = false := by
  unfold isDelimiter at h
  split at h
  · next hk =>
    simp [Token.isOpenBrace, Token.isCloseBrace, Token.isBrace, Token.isCommand, Token.is, hk]
  · next hk =>
    simp [Token.isOpenBrace, Token.isCloseBrace, Token.isBrace, Token.isCommand, Token.is, hk]
  · next hk =>
    split at h
    · next value hget =>
      have hbegin : t.value ≠ Text.ofString "\\begin" := by
        intro hv
        rw [hg.get?_eq_beginEnvironment_iff.mpr hv] at hget
        cases hget
      have hend : t.value ≠ Text.ofString "\\end" := by
        intro hv
        rw [hg.get?_eq_closer_iff.mpr (Or.inl hv)] at hget
        cases hget
      simp [Token.isOpenBrace, Token.isCloseBrace, Token.isBrace, Token.isCommand, Token.is, hk,
        hbegin, hend]
    · cases h
  · cases h

theorem BracesPass.of_role (ho : role g t ≠ .openBrace) (hc : role g t ≠ .closeBrace) :
    BracesPass [t] := by
  refine token ?_ ?_
  · rw [← Bool.not_eq_true, isOpenBrace_iff g]
    exact ho
  · rw [← Bool.not_eq_true, isCloseBrace_iff g]
    exact hc

/-- The scan for a closing brace passes over balanced tokens. -/
theorem Balanced.bracesPass (hg : g.Regular) {w : List Token} (h : Balanced g w) :
    BracesPass w := by
  refine h.of_parts .nil .append (fun ht => ?_) (fun hd => ?_) (fun ho hu hc => ?_)
    fun hb hn hu he hn' => ?_
  · simp only [List.mem_cons, not_or] at ht
    exact .of_role ht.1 ht.2.1
  · exact .token (isDelimiter_apart hg hd).1 (isDelimiter_apart hg hd).2.1
  · exact .braces ((isOpenBrace_iff g).mpr ho) ((isCloseBrace_iff g).mpr hc) hu
  · have hbegin : BracesPass [_] := .of_role (by rw [hb]; decide) (by rw [hb]; decide)
    have hend : BracesPass [_] := .of_role (by rw [he]; decide) (by rw [he]; decide)
    have hopened := hbegin.append (.nameGroup hn)
    have hclosed := hend.append (.nameGroup hn')
    simpa using hopened.append (hu.append hclosed)

/-- In balanced tokens the brace that closes a group is found. -/
theorem Balanced.closingBrace?_eq (hg : g.Regular) {u : List Token} (h : Balanced g u) {c : Token}
    (hc : role g c = .closeBrace) (rest : List Token) :
    closingBrace? 0 (u ++ c :: rest) = some (c, u.length + 1) := by
  have hclose := (isCloseBrace_iff g).mpr hc
  have hfound : closingBrace? 0 (c :: rest) = some (c, 1) := by
    simp [closingBrace?, not_isOpenBrace_of_isCloseBrace hclose, hclose]
  rw [h.bracesPass hg, hfound, Option.map_some, Nat.add_comm]

/-! ## The scan for the end of an environment -/

/-- The scan for the end of an environment goes over the tokens and on behind them, with the same
environments open. -/
def EndsPass (u : List Token) : Prop :=
  ∀ name opening inner position rest, findEnd name opening inner position (u ++ rest) =
    findEnd name opening inner (position + u.length) rest

namespace EndsPass

variable {u v : List Token}

theorem nil : EndsPass [] := by
  intro name opening inner position rest
  rfl

theorem append (hu : EndsPass u) (hv : EndsPass v) : EndsPass (u ++ v) := by
  intro name opening inner position rest
  rw [List.append_assoc, hu, hv, List.length_append, Nat.add_assoc]

theorem token (hb : t.isCommand "\\begin" = false) (he : t.isCommand "\\end" = false) :
    EndsPass [t] := by
  intro name opening inner position rest
  rw [List.singleton_append]
  cases inner <;> simp [findEnd, hb, he]

theorem nameGroup {n : List Token} {name : Text} (h : NameGroup n name) : EndsPass n := by
  have hall : ∀ x ∈ n, x.isCommand "\\begin" = false ∧ x.isCommand "\\end" = false := by
    intro x hx
    simp [Token.isCommand, Token.is, (h.kind_of_mem hx).1]
  clear h
  induction n with
  | nil => exact nil
  | cons x n ih =>
    have hx := hall x List.mem_cons_self
    exact (token hx.1 hx.2).append (ih fun y hy => hall y (List.mem_cons_of_mem _ hy))

/-- The scan enters an environment that is begun. -/
theorem findEnd_begin {b : Token} {n : List Token} {name : Text}
    (hb : b.isCommand "\\begin" = true) (hn : NameGroup n name) (outer : Text) (opening : Token)
    (inner : List (Text × Token)) (position : Nat) (rest : List Token) :
    findEnd outer opening inner position (b :: (n ++ rest)) =
      findEnd outer opening ((name, b) :: inner) (position + 1 + n.length) rest := by
  rw [← nameGroup hn]
  cases inner <;> simp [findEnd, hb, hn.scanName? rest]

/-- The scan leaves an environment that is ended, if it bears the name of the innermost one. -/
theorem findEnd_end {e : Token} {n : List Token} {name : Text} (he : e.isCommand "\\end" = true)
    (hn : NameGroup n name) (outer : Text) (opening : Token) (expected : Text) (token : Token)
    (inner : List (Text × Token)) (position : Nat) (rest : List Token) :
    findEnd outer opening ((expected, token) :: inner) position (e :: (n ++ rest)) =
      if name = expected then findEnd outer opening inner (position + 1 + n.length) rest
      else .error (.named (.closedBy expected token.offset name) expected token) := by
  have hbegin : e.isCommand "\\begin" = false := by
    have hne : Text.ofString "\\end" ≠ Text.ofString "\\begin" := by decide
    simp [Token.isCommand, Token.is, (Token.is_iff.mp he).2, hne]
  rw [← nameGroup hn]
  simp [findEnd, hbegin, he, hn.scanName? rest]

/-- An environment inside is opened and closed again on the way. -/
theorem environment {b e : Token} {n n' : List Token} {name : Text}
    (hb : b.isCommand "\\begin" = true) (hn : NameGroup n name) (hu : EndsPass u)
    (he : e.isCommand "\\end" = true) (hn' : NameGroup n' name) :
    EndsPass (b :: (n ++ (u ++ e :: n'))) := by
  intro outer opening inner position rest
  simp only [List.cons_append, List.append_assoc]
  rw [findEnd_begin hb hn, hu, findEnd_end he hn', if_pos rfl]
  congr 1
  simp only [List.length_cons, List.length_append]
  omega

theorem of_role (hb : role g t ≠ .begins) (he : role g t ≠ .ends) : EndsPass [t] := by
  refine token ?_ ?_
  · rw [← Bool.not_eq_true, isBegin_iff g]
    exact hb
  · rw [← Bool.not_eq_true, isEnd_iff g]
    exact he

end EndsPass

/-- The scan for the end of an environment passes over balanced tokens. -/
theorem Balanced.endsPass (hg : g.Regular) {w : List Token} (h : Balanced g w) : EndsPass w := by
  refine h.of_parts .nil .append (fun ht => ?_) (fun hd => ?_) (fun ho hu hc => ?_)
    fun hb hn hu he hn' => ?_
  · simp only [List.mem_cons, not_or] at ht
    exact .of_role ht.2.2.1 ht.2.2.2.1
  · exact .token (isDelimiter_apart hg hd).2.2.1 (isDelimiter_apart hg hd).2.2.2
  · have hopen : EndsPass [_] := .of_role (by rw [ho]; decide) (by rw [ho]; decide)
    have hclose : EndsPass [_] := .of_role (by rw [hc]; decide) (by rw [hc]; decide)
    exact hopen.append (hu.append hclose)
  · exact .environment ((isBegin_iff g).mpr hb) hn hu ((isEnd_iff g).mpr he) hn'

/-- In balanced tokens the end of an environment is found. -/
theorem Balanced.findEnd_eq (hg : g.Regular) {u n : List Token} (h : Balanced g u) {e : Token}
    (he : role g e = .ends) {name : Text} (hn : NameGroup n name) (opening : Token)
    (position : Nat) (rest : List Token) :
    findEnd name opening [] position (u ++ e :: (n ++ rest)) = .ok (position + u.length, e) := by
  have hend := (isEnd_iff g).mpr he
  have hbegin : e.isCommand "\\begin" = false := by
    rw [← Bool.not_eq_true, isBegin_iff g, he]
    decide
  rw [h.endsPass hg]
  simp [findEnd, hbegin, hend, hn.scanName? rest]

end MathMarkup.Parser
