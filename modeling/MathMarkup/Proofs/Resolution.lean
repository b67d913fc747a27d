import MathMarkup.Options
import MathMarkup.Proofs.Entries

/-!
# Options from entries

A field has the value of the last entry that names it, in either spelling, and without such an entry
it keeps its value. The entries are refused exactly if one of the two limits that come out is less
than 1 or no number. Hence options changed by one mapping after the other are the options changed by
all the entries in a row (`resolution`).
-/

namespace MathMarkup.Options

open Entries

variable {o o' : Options} {entries a b : List (Scalar × Value)} {f : Field} {v : Value}

/-! ## Entries for a field -/

/-- Whether a key names a field, in one of its two spellings. -/
def Field.names (f : Field) (key : Scalar) : Bool :=
  key = .text f.name || key = .text f.capitalName

theorem Field.ofKey?_eq_some_iff {key : Scalar} : ofKey? key = some f ↔ f.names key = true := by
  constructor
  · intro h
    simpa [Field.names] using List.find?_some h
  · intro h
    simp only [Field.names, Bool.or_eq_true, decide_eq_true_eq] at h
    rcases h with rfl | rfl
    · exact (ofKey?_name f).1
    · exact (ofKey?_name f).2

theorem lastFor_eq_last? (f : Field) (entries : List (Scalar × Value)) :
    lastFor f entries = last? f.names entries := by
  have hnames : ∀ key, decide (Field.ofKey? key = some f) = f.names key := fun key => by
    rw [Bool.eq_iff_iff, decide_eq_true_eq, Field.ofKey?_eq_some_iff]
  simp only [lastFor, last?, hnames]

/-- The entries of options name each field once. -/
theorem lastFor_toEntries (f : Field) (o : Options) : lastFor f o.toEntries = some (o.get f) := by
  cases f <;> rfl

/-! ## Values for a field -/

/-- The value that a field gets when options are changed by entries. -/
def resolved (o : Options) (entries : List (Scalar × Value)) (f : Field) : Value :=
  (lastFor f entries).getD (o.get f)

/-- A value that a field gets: that of the last entry for it, or else the one it has. -/
def IsTaken (o : Options) (entries : List (Scalar × Value)) (f : Field) (v : Value) : Prop :=
  IsLast f.names v entries ∨ IsSilent f.names entries ∧ v = o.get f

theorem isTaken_iff : IsTaken o entries f v ↔ v = o.resolved entries f := by
  unfold IsTaken resolved
  rw [← last?_eq_some_iff, ← last?_eq_none_iff, lastFor_eq_last?]
  cases last? f.names entries with
  | none => simp
  | some w => simp [eq_comm]

/-- The second of two mappings falls back on what the first one gives. -/
theorem resolved_append (o : Options) (a b : List (Scalar × Value)) (f : Field) :
    o.resolved (a ++ b) f = (lastFor f b).getD (o.resolved a f) := by
  simp only [resolved, lastFor_eq_last?, last?_append]
  cases last? f.names b <;> rfl

/-! ## Limits -/

/-- The value is a number that does not compare as less than 1. -/
def IsLimit (v : Value) : Prop :=
  ∃ n : Number, v = .scalar (.number n) ∧ n.isBelow 1 = false

theorem limit_number (field : Field) (l : Limit) :
    limit field (.scalar (.number l.number)) = .ok l :=
  dif_pos l.atLeastOne

theorem limit_eq_ok {field : Field} {l : Limit} (h : limit field v = .ok l) :
    v = .scalar (.number l.number) := by
  unfold limit at h
  split at h
  · split at h
    · cases h
      rfl
    · cases h
  · cases h

theorem exists_limit_iff {field : Field} : (∃ l, limit field v = .ok l) ↔ IsLimit v := by
  constructor
  · rintro ⟨l, hl⟩
    exact ⟨l.number, limit_eq_ok hl, l.atLeastOne⟩
  · rintro ⟨n, rfl, hn⟩
    exact ⟨⟨n, hn⟩, limit_number field ⟨n, hn⟩⟩

/-! ## Changed options -/

/-- Options are given by the values of their fields. -/
theorem get_injective (h : ∀ f, o.get f = o'.get f) : o = o' := by
  have number_inj : ∀ {l l' : Limit}, Value.scalar (.number l.number) =
      .scalar (.number l'.number) → l = l' := by
    rintro ⟨n, hn⟩ ⟨n', hn'⟩ heq
    cases heq
    rfl
  cases o
  cases o'
  have hdepth := number_inj (h .maxNestingDepth)
  have hlength := number_inj (h .maxInputLength)
  have hdisplay := h .displayMode
  have hstrict := h .strictMode
  have hallow := h .allowUnknownCommands
  have hpreserve := h .preserveWhitespace
  have hdebug := h .debugMode
  simp only [get] at *
  subst hdepth hlength hdisplay hstrict hallow hpreserve hdebug
  rfl

/-- An update looks at the resolved values only. -/
theorem update_congr (h : ∀ f, o.resolved a f = o'.resolved b f) : o.update a = o'.update b := by
  unfold resolved at h
  simp only [update, h]

theorem get_of_update (h : o.update entries = .ok o') (f : Field) :
    o'.get f = o.resolved entries f := by
  obtain ⟨depth, hdepth, h⟩ := bind_eq_ok_iff.mp h
  obtain ⟨length, hlength, h⟩ := bind_eq_ok_iff.mp h
  cases h
  cases f
  case maxNestingDepth => exact (limit_eq_ok hdepth).symm
  case maxInputLength => exact (limit_eq_ok hlength).symm
  all_goals rfl

/-- An update succeeds exactly if both limits that come out are limits. -/
theorem exists_update_iff : (∃ o', o.update entries = .ok o') ↔
    IsLimit (o.resolved entries .maxNestingDepth) ∧
      IsLimit (o.resolved entries .maxInputLength) := by
  constructor
  · rintro ⟨o', h⟩
    rw [← get_of_update h, ← get_of_update h]
    exact ⟨⟨_, rfl, o'.maxNestingDepth.atLeastOne⟩, ⟨_, rfl, o'.maxInputLength.atLeastOne⟩⟩
  · rintro ⟨hdepth, hlength⟩
    obtain ⟨depth, hd⟩ : ∃ l, limit .maxNestingDepth _ = .ok l := exists_limit_iff.mpr hdepth
    obtain ⟨length, hl⟩ : ∃ l, limit .maxInputLength _ = .ok l := exists_limit_iff.mpr hlength
    rw [resolved] at hd hl
    simp only [update, hd, hl]
    exact ⟨_, rfl⟩

theorem update_eq_ok_iff : o.update entries = .ok o' ↔ ∀ f, o'.get f = o.resolved entries f := by
  refine ⟨get_of_update, fun h => ?_⟩
  have hlimits : IsLimit (o'.get .maxNestingDepth) ∧ IsLimit (o'.get .maxInputLength) :=
    ⟨⟨_, rfl, o'.maxNestingDepth.atLeastOne⟩, ⟨_, rfl, o'.maxInputLength.atLeastOne⟩⟩
  rw [h, h, ← exists_update_iff] at hlimits
  obtain ⟨o'', ho''⟩ := hlimits
  rw [ho'', get_injective fun f => (get_of_update ho'' f).trans (h f).symm]

theorem value_withOverrides (o : Options) (entries : List (Scalar × Value)) :
    (o.withOverrides entries).value = o.update entries := by
  unfold withOverrides
  split
  · next hempty =>
    rw [List.isEmpty_iff.mp hempty]
    exact (update_eq_ok_iff.mpr fun _ => rfl).symm
  · rfl

/-- Changing options twice is changing them once by the entries of both mappings. -/
theorem update_update (h : o.update a = .ok o') : o'.update b = o.update (a ++ b) := by
  refine update_congr fun f => ?_
  rw [resolved_append, resolved, get_of_update h]

/-- The options changed by one mapping after the other. -/
def overrideAll (o : Options) (mappings : List (List (Scalar × Value))) : Except Error Options :=
  mappings.foldlM (fun o entries => (o.withOverrides entries).value) o

theorem update_of_overrideAll {mappings : List (List (Scalar × Value))}
    (h : o.overrideAll mappings = .ok o') : o.update mappings.flatten = .ok o' := by
  induction mappings generalizing o with
  | nil =>
    cases h
    exact update_eq_ok_iff.mpr fun _ => rfl
  | cons entries rest ih =>
    rw [overrideAll, List.foldlM_cons, bind_eq_ok_iff] at h
    obtain ⟨o₁, hfirst, hrest⟩ := h
    rw [value_withOverrides] at hfirst
    rw [List.flatten_cons, ← update_update hfirst]
    exact ih hrest

example : (ofEntries [(.text "maxNestingDepth", .int 5), (.text "depth", .int 6),
    (.text "max_nesting_depth", .int 7)]).value = .ok { maxNestingDepth := .ofNat 6 } := rfl

end MathMarkup.Options
