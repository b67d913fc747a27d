import Mathlib.Combinatorics.Enumerative.DyckWord
import MathMarkup.Proofs.Parser.Balanced

/-!
# The braces of a source

The braces among tokens balance when they form a Dyck word, with an opening brace for a step up and
a closing one for a step down. Going over the tokens one keeps the number of braces that are open
(`braceLevel`), and tokens at whose end it is back at zero have balanced braces. The scan for the
brace that closes a group ends behind such tokens.
-/

namespace MathMarkup.Parser

/-- The step of a brace: an opening one goes up and a closing one down. -/
def braceStep? (t : Token) : Option DyckStep :=
  if t.isOpenBrace then some .U else if t.isCloseBrace then some .D else none

/-- The braces among the tokens form a Dyck word. -/
def BracesBalance (w : List Token) : Prop :=
  ∃ d : DyckWord, d.toList = w.filterMap braceStep?

/-- How many braces are open behind the tokens, if `depth` are open before them. There is no such
number if one of the braces closes nothing. -/
def braceLevel : (depth : Nat) → List Token → Option Nat
  | depth, [] => some depth
  | depth, t :: rest =>
    if t.isOpenBrace then braceLevel (depth + 1) rest
    else if t.isCloseBrace then
      match depth with
      | 0 => none
      | depth + 1 => braceLevel depth rest
    else braceLevel depth rest

variable {g : Grammar} {t : Token} {u v w : List Token} {d e : Nat}

theorem braceLevel_open (h : t.isOpenBrace = true) :
    braceLevel d (t :: w) = braceLevel (d + 1) w := by
  cases d <;> simp [braceLevel, h]

theorem braceLevel_close (h : t.isCloseBrace = true) :
    braceLevel (d + 1) (t :: w) = braceLevel d w := by
  simp [braceLevel, not_isOpenBrace_of_isCloseBrace h, h]

theorem braceLevel_other (ho : t.isOpenBrace = false) (hc : t.isCloseBrace = false) :
    braceLevel d (t :: w) = braceLevel d w := by
  cases d <;> simp [braceLevel, ho, hc]

theorem braceLevel_append : braceLevel d (u ++ v) = (braceLevel d u).bind (braceLevel · v) := by
  fun_induction braceLevel d u with
  | case1 d => rfl
  | case2 d t u ho ih => rw [List.cons_append, braceLevel_open ho, ih]
  | case3 t u ho hc => simp [braceLevel, ho, hc]
  | case4 t u ho hc d ih => rw [List.cons_append, braceLevel_close hc, ih]
  | case5 d t u ho hc ih =>
    rw [Bool.not_eq_true] at ho hc
    rw [List.cons_append, braceLevel_other ho hc, ih]

/-- Further braces that are open before the tokens are open behind them. -/
theorem braceLevel_add (h : braceLevel d w = some e) (k : Nat) :
    braceLevel (d + k) w = some (e + k) := by
  fun_induction braceLevel d w with
  | case1 d =>
    cases h
    rfl
  | case2 d t w ho ih =>
    rw [braceLevel_open ho, Nat.add_right_comm]
    exact ih h
  | case3 => cases h
  | case4 t w ho hc d ih =>
    rw [Nat.succ_eq_add_one, Nat.add_right_comm, braceLevel_close hc]
    exact ih h
  | case5 d t w ho hc ih =>
    rw [Bool.not_eq_true] at ho hc
    rw [braceLevel_other ho hc]
    exact ih h

/-- The tokens leave as many braces open as they find. -/
def Level (w : List Token) : Prop :=
  braceLevel 0 w = some 0

namespace Level

theorem nil : Level [] := rfl

theorem at_depth (h : Level w) (d : Nat) : braceLevel d w = some d := by
  have hd := braceLevel_add h d
  rwa [Nat.zero_add] at hd

theorem append (hu : Level u) (hv : Level v) : Level (u ++ v) := by
  rw [Level, braceLevel_append, hu, Option.bind_some]
  exact hv

theorem token (ho : t.isOpenBrace = false) (hc : t.isCloseBrace = false) : Level [t] :=
  braceLevel_other ho hc

theorem braces {o c : Token} (ho : o.isOpenBrace = true) (hw : Level w)
    (hc : c.isCloseBrace = true) : Level (o :: (w ++ [c])) := by
  rw [Level, braceLevel_open ho, braceLevel_append, hw.at_depth, Option.bind_some,
    braceLevel_close hc]
  rfl

end Level

theorem level_of_role (ho : role g t ≠ .openBrace) (hc : role g t ≠ .closeBrace) : Level [t] := by
  refine .token ?_ ?_
  · rw [← Bool.not_eq_true, isOpenBrace_iff g]
    exact ho
  · rw [← Bool.not_eq_true, isCloseBrace_iff g]
    exact hc

theorem level_of_isDelimiter (hg : g.Regular) (h : isDelimiter g t = true) : Level [t] :=
  .token (isDelimiter_apart hg h).1 (isDelimiter_apart hg h).2.1

theorem NameGroup.level {name : Text} (h : NameGroup w name) : Level w := by
  obtain ⟨opening, pieces, closing, rfl, ho, -, hrun, hc, -⟩ := h
  refine .braces ho ?_ hc
  clear ho hc
  induction pieces with
  | nil => exact .nil
  | cons x pieces ih =>
    have hx := hrun x List.mem_cons_self
    have hk : x.kind = .symbol := by
      simp only [isNamePiece, Bool.and_eq_true, decide_eq_true_eq] at hx
      exact hx.1
    have hlevel : Level [x] := .token (by simp [Token.isOpenBrace, Token.isBrace, Token.is, hk])
      (not_isCloseBrace_of_isNamePiece hx)
    exact hlevel.append (ih fun y hy => hrun y (List.mem_cons_of_mem _ hy))

/-- Up to the brace that closes a group all its inner braces are closed. -/
theorem braceLevel_of_closingBrace? {c : Token} {n : Nat}
    (h : closingBrace? d (w ++ [c]) = some (c, n)) (hn : n = w.length + 1) :
    c.isCloseBrace = true ∧ braceLevel d w = some 0 := by
  induction w generalizing d n with
  | nil =>
    rw [List.nil_append] at h
    unfold closingBrace? at h
    cases d <;> split_ifs at h with ho hc <;> simp_all [closingBrace?, braceLevel]
  | cons t w ih =>
    -- Behind a brace or another token the search goes on over the other tokens.
    have step : ∀ {d'}, (closingBrace? d' (w ++ [c])).map (fun x => (x.1, x.2 + 1)) = some (c, n) →
        c.isCloseBrace = true ∧ braceLevel d' w = some 0 := by
      intro d' h'
      obtain ⟨⟨found, m⟩, hm, heq⟩ := Option.map_eq_some_iff.mp h'
      cases heq
      exact ih hm (by simpa using hn)
    rw [List.cons_append] at h
    by_cases ho : t.isOpenBrace = true
    · rw [closingBrace?_open ho] at h
      rw [braceLevel_open ho]
      exact step h
    · by_cases hc : t.isCloseBrace = true
      · cases d with
        | zero =>
          simp only [closingBrace?, ho, hc, if_true, Bool.false_eq_true, if_false,
            Option.some.injEq, Prod.mk.injEq] at h
          simp [← h.2] at hn
        | succ d =>
          rw [closingBrace?_close (Bool.not_eq_true _ ▸ ho) hc] at h
          rw [braceLevel_close hc]
          exact step h
      · rw [Bool.not_eq_true] at ho hc
        rw [braceLevel_other ho hc]
        refine step ?_
        simpa [closingBrace?, ho, hc] using h

/-- The scan for the brace that closes a group goes over the tokens and on behind them, at the level
to which they lead. -/
theorem closingBrace?_of_braceLevel (h : braceLevel d w = some e) (rest : List Token) :
    closingBrace? d (w ++ rest) =
      (closingBrace? e rest).map fun found => (found.1, found.2 + w.length) := by
  fun_induction braceLevel d w with
  | case1 d =>
    cases h
    simp
  | case2 d t w ho ih =>
    rw [List.cons_append, closingBrace?_open ho, ih h, Option.map_map]
    rfl
  | case3 => cases h
  | case4 t w ho hc d ih =>
    rw [List.cons_append, closingBrace?_close (Bool.not_eq_true _ ▸ ho) hc, ih h, Option.map_map]
    rfl
  | case5 d t w ho hc ih =>
    rw [Bool.not_eq_true] at ho hc
    have hpass := BracesPass.token ho hc d (w ++ rest)
    rw [List.singleton_append, ih h, Option.map_map] at hpass
    exact hpass

/-! ## Steps -/

/-- The steps lead from one level to another and never below the ground. -/
structure Climbs (steps : List DyckStep) (d e : Nat) : Prop where
  count_eq : steps.count .U + d = steps.count .D + e
  count_le : ∀ i, (steps.take i).count .D ≤ (steps.take i).count .U + d

namespace Climbs

variable {steps : List DyckStep}

theorem nil_iff : Climbs [] d e ↔ d = e := by
  refine ⟨fun h => by simpa using h.count_eq, ?_⟩
  rintro rfl
  exact ⟨rfl, by simp⟩

theorem up_iff : Climbs (.U :: steps) d e ↔ Climbs steps (d + 1) e := by
  constructor <;> intro h
  · refine ⟨?_, fun i => ?_⟩
    · have hcount := h.count_eq
      rw [List.count_cons_self, List.count_cons_of_ne (by decide)] at hcount
      omega
    · have hi := h.count_le (i + 1)
      rw [List.take_succ_cons, List.count_cons_self, List.count_cons_of_ne (by decide)] at hi
      omega
  · refine ⟨?_, fun
      | 0 => by simp
      | i + 1 => ?_⟩
    · have hcount := h.count_eq
      rw [List.count_cons_self, List.count_cons_of_ne (by decide)]
      omega
    · have hi := h.count_le i
      rw [List.take_succ_cons, List.count_cons_self, List.count_cons_of_ne (by decide)]
      omega

theorem down_iff : Climbs (.D :: steps) (d + 1) e ↔ Climbs steps d e := by
  constructor <;> intro h
  · refine ⟨?_, fun i => ?_⟩
    · have hcount := h.count_eq
      rw [List.count_cons_self, List.count_cons_of_ne (by decide)] at hcount
      omega
    · have hi := h.count_le (i + 1)
      rw [List.take_succ_cons, List.count_cons_self, List.count_cons_of_ne (by decide)] at hi
      omega
  · refine ⟨?_, fun
      | 0 => by simp
      | i + 1 => ?_⟩
    · have hcount := h.count_eq
      rw [List.count_cons_self, List.count_cons_of_ne (by decide)]
      omega
    · have hi := h.count_le i
      rw [List.take_succ_cons, List.count_cons_self, List.count_cons_of_ne (by decide)]
      omega

/-- No step leads down from the ground. -/
theorem not_down : ¬ Climbs (.D :: steps) 0 e := by
  intro h
  have hfirst := h.count_le 1
  simp at hfirst

end Climbs

/-- The level to which the steps lead from the given one. There is none if they lead below the
ground. -/
def climb : (level : Nat) → List DyckStep → Option Nat
  | level, [] => some level
  | level, .U :: steps => climb (level + 1) steps
  | 0, .D :: _ => none
  | level + 1, .D :: steps => climb level steps

theorem climb_append (d : Nat) (u v : List DyckStep) :
    climb d (u ++ v) = (climb d u).bind (climb · v) := by
  fun_induction climb d u with
  | case1 d => rfl
  | case2 d steps ih => exact ih
  | case3 steps => rfl
  | case4 d steps ih => exact ih

theorem climb_eq_some_iff {steps : List DyckStep} : climb d steps = some e ↔ Climbs steps d e := by
  fun_induction climb d steps with
  | case1 d => rw [Climbs.nil_iff, Option.some.injEq]
  | case2 d steps ih => rw [ih, Climbs.up_iff]
  | case3 steps => simp [Climbs.not_down]
  | case4 d steps ih => rw [ih, Climbs.down_iff]

/-- Steps make up a Dyck word if they lead from the ground back to it. -/
theorem exists_dyckWord_iff {steps : List DyckStep} :
    (∃ d : DyckWord, d.toList = steps) ↔ climb 0 steps = some 0 := by
  rw [climb_eq_some_iff]
  constructor
  · rintro ⟨d, rfl⟩
    exact ⟨d.count_U_eq_count_D, d.count_D_le_count_U⟩
  · intro h
    exact ⟨⟨steps, h.count_eq, h.count_le⟩, rfl⟩

theorem braceLevel_eq_climb (d : Nat) (w : List Token) :
    braceLevel d w = climb d (w.filterMap braceStep?) := by
  fun_induction braceLevel d w with
  | case1 d => rfl
  | case2 d t w ho ih =>
    rw [ih, List.filterMap_cons_some (b := .U) (by simp [braceStep?, ho]), climb]
  | case3 t w ho hc =>
    rw [List.filterMap_cons_some (b := .D) (by simp [braceStep?, ho, hc]), climb]
  | case4 t w ho hc d ih =>
    rw [ih, List.filterMap_cons_some (b := .D) (by simp [braceStep?, ho, hc]), climb]
  | case5 d t w ho hc ih =>
    rw [ih, List.filterMap_cons_none (by simp [braceStep?, ho, hc])]

theorem bracesBalance_iff : BracesBalance w ↔ Level w := by
  rw [BracesBalance, Level, braceLevel_eq_climb, exists_dyckWord_iff]

theorem Level.bracesBalance (h : Level w) : BracesBalance w :=
  bracesBalance_iff.mpr h

end MathMarkup.Parser
