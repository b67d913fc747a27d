import MathMarkup.InputCheck
import MathMarkup.Proofs.Parser.Braces

/-!
# What the check of a source reports

The kinds of messages are told apart by how they begin. A message about a kind of delimiter is there
exactly if the delimiters of that kind, taken by themselves, do not lead from the ground back to it
(`InputCheck.not_reports_heads_iff`), and a message about an environment exactly if the tags do not
match.
-/

namespace MathMarkup.InputCheck

/-- How the messages about a kind of delimiter begin. -/
def Pair.heads (p : Pair) : List Text :=
  ["Unmatched closing " ++ p.name, "Unmatched opening " ++ p.name]

/-- How the messages about environments begin. -/
def tagHeads : List Text :=
  ["\\begin\x7b", "\\end\x7b"]

/-- Whether a message begins in one of the given ways. -/
def isAbout (heads : List Text) (message : Text) : Bool :=
  heads.any message.startsWith

/-- A check has a message that begins in one of the given ways. -/
def Reports (v : Validation) (heads : List Text) : Prop :=
  ∃ message ∈ v.errors, isAbout heads message = true

/-! ## Delimiters of one kind -/

/-- The step of a delimiter of the kind: an opening one goes up and a closing one down. -/
def Mark.step? (p : Pair) (m : Mark) : Option DyckStep :=
  if m.pair = p then some (if m.opens then .U else .D) else none

/-- The delimiters of the kind are matched, and so many are left open, if that is where they lead
from those that are pending. -/
theorem unmatched_eq_iff (p : Pair) (pending : Pending) (marks : List Mark) (e : Nat) :
    ((∀ m ∈ (unmatched pending marks).1, m.pair ≠ p) ∧
        ((unmatched pending marks).2.get p).length = e) ↔
      Parser.climb (pending.get p).length (marks.filterMap (Mark.step? p)) = some e := by
  fun_induction unmatched pending marks with
  | case1 pending => simp [Parser.climb]
  | case2 pending m rest ho ih =>
    rw [ih]
    by_cases hp : m.pair = p
    · subst hp
      rw [List.filterMap_cons_some (b := .U) (by simp [Mark.step?, ho]), Parser.climb]
      simp
    · rw [List.filterMap_cons_none (by simp [Mark.step?, hp]), Pending.get_set_of_ne _ hp]
  | case3 pending m rest ho offset earlier hget ih =>
    rw [ih]
    by_cases hp : m.pair = p
    · subst hp
      rw [List.filterMap_cons_some (b := .D) (by simp [Mark.step?, ho]), hget]
      simp [Parser.climb]
    · rw [List.filterMap_cons_none (by simp [Mark.step?, hp]), Pending.get_set_of_ne _ hp]
  | case4 pending m rest ho hget closers left hrest ih =>
    -- The mark is set aside and the scan goes on, while from the ground no step leads down.
    by_cases hp : m.pair = p
    · subst hp
      rw [List.filterMap_cons_some (b := .D) (by simp [Mark.step?, ho]), hget]
      simp [Parser.climb]
    · rw [List.filterMap_cons_none (by simp [Mark.step?, hp]), ← ih, hrest]
      simp [hp]

/-! ## Messages -/

theorem isAbout_delimiterMessage {word : String} (hword : word = "closing" ∨ word = "opening")
    (p q : Pair) (shown : Char) (offset : Nat) :
    isAbout p.heads (delimiterMessage word q shown offset) = decide (q = p) := by
  rcases hword with rfl | rfl <;> cases p <;> cases q <;> rfl

theorem isAbout_tagText {word : String} (hword : word = "\\begin" ∨ word = "\\end") (p : Pair)
    (name more : Text) (offset : Nat) :
    isAbout tagHeads (tagText word name offset ++ more) = true ∧
      isAbout p.heads (tagText word name offset ++ more) = false := by
  rcases hword with rfl | rfl <;> cases p <;> exact ⟨rfl, rfl⟩

/-- A message about an environment shows a tag first. -/
theorem exists_of_mem_tagErrors {pending ts : List Tag} {m : Text} (hm : m ∈ tagErrors pending ts) :
    ∃ word name offset more, (word = "\\begin" ∨ word = "\\end") ∧
      m = tagText word name offset ++ more := by
  fun_induction tagErrors pending ts with
  | case1 pending =>
    obtain ⟨t, -, rfl⟩ := List.mem_map.mp hm
    exact ⟨_, _, _, _, Or.inl rfl, rfl⟩
  | case2 pending tag rest _ ih => exact ih hm
  | case3 tag rest _ ih =>
    rcases List.mem_cons.mp hm with rfl | hm
    · exact ⟨_, _, _, _, Or.inr rfl, rfl⟩
    · exact ih hm
  | case4 tag rest _ opening outer _ ih => exact ih hm
  | case5 tag rest _ opening outer _ ih =>
    rcases List.mem_cons.mp hm with rfl | hm
    · exact ⟨_, _, _, _, Or.inr rfl, List.append_assoc _ _ _⟩
    · exact ih hm

/-- The messages about the code points of a source are about no delimiter and no environment. -/
theorem isAbout_of_mem_inputErrors {limit : Number} {source m : Text}
    (hm : m ∈ lengthErrors limit source ++ nullErrors source ++ surrogateErrors source) (p : Pair) :
    isAbout p.heads m = false ∧ isAbout tagHeads m = false := by
  rcases List.mem_append.mp hm with hm | hm
  · rcases List.mem_append.mp hm with hm | hm
    · unfold lengthErrors at hm
      split at hm
      · rw [List.mem_singleton.mp hm]
        cases p <;> exact ⟨rfl, rfl⟩
      · cases hm
    · unfold nullErrors at hm
      split at hm
      · rw [List.mem_singleton.mp hm]
        cases p <;> exact ⟨rfl, rfl⟩
      · cases hm
  · unfold surrogateErrors at hm
    split at hm
    · rw [List.mem_singleton.mp hm]
      cases p <;> exact ⟨rfl, rfl⟩
    · cases hm

/-! ## Reports -/

theorem reports_heads_iff (limit : Number) (source : Text) (p : Pair) :
    Reports (check limit (.text source)) p.heads ↔
      ∃ m ∈ delimiterErrors source, isAbout p.heads m = true := by
  constructor
  · rintro ⟨m, hm, habout⟩
    rcases List.mem_append.mp hm with hm | hm
    · rcases List.mem_append.mp hm with hm | hm
      · rw [(isAbout_of_mem_inputErrors hm p).1] at habout
        cases habout
      · exact ⟨m, hm, habout⟩
    · obtain ⟨word, name, offset, more, hword, rfl⟩ := exists_of_mem_tagErrors hm
      rw [(isAbout_tagText hword p name more offset).2] at habout
      cases habout
  · rintro ⟨m, hm, habout⟩
    exact ⟨m, List.mem_append_left _ (List.mem_append_right _ hm), habout⟩

/-- Nothing is reported about a kind of delimiter exactly if its delimiters lead from the ground
back to it. -/
theorem not_reports_heads_iff (limit : Number) (source : Text) (p : Pair) :
    ¬ Reports (check limit (.text source)) p.heads ↔
      Parser.climb 0 ((marks 0 0 source).filterMap (Mark.step? p)) = some 0 := by
  have hmatched := unmatched_eq_iff p {} (marks 0 0 source) 0
  have hpending : (Pending.get {} p).length = 0 := by cases p <;> rfl
  rw [hpending, List.length_eq_zero_iff] at hmatched
  rw [← hmatched, reports_heads_iff, delimiterErrors]
  generalize unmatched {} (marks 0 0 source) = result
  constructor
  · intro h
    constructor
    · intro m hm hp
      refine h ⟨_, List.mem_append_left _ (List.mem_map_of_mem hm), ?_⟩
      rw [isAbout_delimiterMessage (Or.inl rfl), decide_eq_true hp]
    · rw [List.eq_nil_iff_forall_not_mem]
      intro offset hoffset
      have hp : p ∈ Pair.all := by cases p <;> decide
      refine h ⟨_, List.mem_append_right _ (List.mem_flatMap_of_mem hp
        (List.mem_map_of_mem (List.mem_reverse.mpr hoffset))), ?_⟩
      rw [isAbout_delimiterMessage (Or.inr rfl), decide_eq_true rfl]
  · rintro ⟨hclosers, hleft⟩ ⟨m, hm, habout⟩
    rcases List.mem_append.mp hm with hm | hm
    · obtain ⟨mark, hmark, rfl⟩ := List.mem_map.mp hm
      rw [isAbout_delimiterMessage (Or.inl rfl), decide_eq_true_iff] at habout
      exact hclosers mark hmark habout
    · obtain ⟨q, -, hm⟩ := List.mem_flatMap.mp hm
      obtain ⟨offset, hoffset, rfl⟩ := List.mem_map.mp hm
      rw [isAbout_delimiterMessage (Or.inr rfl), decide_eq_true_iff] at habout
      subst habout
      rw [hleft] at hoffset
      cases hoffset

theorem isAbout_tagHeads_of_mem_delimiterErrors {source m : Text}
    (hm : m ∈ delimiterErrors source) :
    isAbout tagHeads m = false := by
  rcases List.mem_append.mp hm with hm | hm
  · obtain ⟨mark, -, rfl⟩ := List.mem_map.mp hm
    rfl
  · obtain ⟨q, -, hm⟩ := List.mem_flatMap.mp hm
    obtain ⟨offset, -, rfl⟩ := List.mem_map.mp hm
    rfl

/-- Nothing is reported about an environment exactly if the tags match. -/
theorem not_reports_tagHeads_iff (limit : Number) (source : Text) :
    ¬ Reports (check limit (.text source)) tagHeads ↔ environmentErrors source = [] := by
  constructor
  · intro h
    rw [List.eq_nil_iff_forall_not_mem]
    intro m hm
    obtain ⟨word, name, offset, more, hword, rfl⟩ := exists_of_mem_tagErrors hm
    exact h ⟨_, List.mem_append_right _ hm, (isAbout_tagText hword .brace name more offset).1⟩
  · rintro htags ⟨m, hm, habout⟩
    rcases List.mem_append.mp hm with hm | hm
    · rcases List.mem_append.mp hm with hm | hm
      · rw [(isAbout_of_mem_inputErrors hm .brace).2] at habout
        cases habout
      · rw [isAbout_tagHeads_of_mem_delimiterErrors hm] at habout
        cases habout
    · rw [htags] at hm
      cases hm

end MathMarkup.InputCheck
