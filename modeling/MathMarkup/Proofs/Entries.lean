import MathMarkup.ConfigFile
import MathMarkup.Proofs.Except
import MathMarkup.Value.Yaml

/-!
# Entries of mappings

Of the entries of a mapping whose keys pass for one key, the last one counts: `IsLast` says which
that is, and `last?` looks it up. A mapping that a file holds at its top has no key twice, if this
is so of the reader of YAML (`distinct_of_load`).
-/

namespace MathMarkup.Entries

variable {α : Type} {p : Scalar → Bool} {entries : List (Scalar × α)} {v : α}

/-! ## The last entry -/

/-- No entry has a key of the given kind. -/
def IsSilent (p : Scalar → Bool) (entries : List (Scalar × α)) : Prop :=
  ∀ e ∈ entries, p e.1 = false

/-- The last entry with a key of the given kind has the given value. -/
def IsLast (p : Scalar → Bool) (v : α) (entries : List (Scalar × α)) : Prop :=
  ∃ earlier key later, entries = earlier ++ (key, v) :: later ∧ p key = true ∧ IsSilent p later

/-- The value of the last entry with a key of the given kind. -/
def last? (p : Scalar → Bool) (entries : List (Scalar × α)) : Option α :=
  (entries.reverse.find? fun e => p e.1).map Prod.snd

theorem last?_eq_none_iff : last? p entries = none ↔ IsSilent p entries := by
  simp [last?, IsSilent]

theorem last?_eq_some_iff : last? p entries = some v ↔ IsLast p v entries := by
  unfold last?
  rw [Option.map_eq_some_iff]
  constructor
  · rintro ⟨⟨key, w⟩, hfind, rfl⟩
    obtain ⟨hkey, later, earlier, heq, hlater⟩ := List.find?_eq_some_iff_append.mp hfind
    refine ⟨earlier.reverse, key, later.reverse, ?_, hkey, fun e he => ?_⟩
    · rw [← List.reverse_reverse entries, heq]
      simp
    · simpa using hlater e (List.mem_reverse.mp he)
  · rintro ⟨earlier, key, later, rfl, hkey, hlater⟩
    refine ⟨(key, v), List.find?_eq_some_iff_append.mpr ⟨hkey, later.reverse, earlier.reverse, ?_,
      fun e he => ?_⟩, rfl⟩
    · simp
    · simpa using hlater e (List.mem_reverse.mp he)

/-- Of two mappings in a row the second one has the last word. -/
theorem last?_append (p : Scalar → Bool) (a b : List (Scalar × α)) :
    last? p (a ++ b) = (last? p b).or (last? p a) := by
  unfold last?
  rw [List.reverse_append, List.find?_append]
  cases b.reverse.find? fun e => p e.1 <;> rfl

/-! ## Distinct keys -/

/-- No key occurs twice. -/
def Distinct (entries : List (Scalar × α)) : Prop :=
  entries.Pairwise fun d e => d.1.sameKey e.1 = false

/-- Inserting an entry brings in at most its own key. -/
theorem mem_keys_insert {key k : Scalar} (h : k ∈ (insert key v entries).map Prod.fst) :
    k ∈ entries.map Prod.fst ∨ k = key := by
  induction entries with
  | nil => exact Or.inr (by simpa [insert] using h)
  | cons e rest ih =>
    unfold insert at h
    split at h
    · exact Or.inl h
    · rw [List.map_cons, List.mem_cons] at h ⊢
      rcases h with h | h
      · exact Or.inl (Or.inl h)
      · exact (ih h).imp_left Or.inr

theorem Distinct.insert (h : Distinct entries) (key : Scalar) (v : α) :
    Distinct (insert key v entries) := by
  induction entries with
  | nil => exact List.pairwise_singleton _ _
  | cons e rest ih =>
    obtain ⟨hhead, hrest⟩ := List.pairwise_cons.mp h
    unfold Entries.insert
    split
    · exact List.pairwise_cons.mpr ⟨hhead, hrest⟩
    · next hne =>
      refine List.pairwise_cons.mpr ⟨fun d hd => ?_, ih hrest⟩
      rcases mem_keys_insert (List.mem_map_of_mem (f := Prod.fst) hd) with hk | hk
      · obtain ⟨d', hd', heq⟩ := List.mem_map.mp hk
        rw [← heq]
        exact hhead d' hd'
      · rw [hk]
        simpa using hne

theorem distinct_ofPairs (pairs : List (Scalar × α)) : Distinct (ofPairs pairs) := by
  have hfold : ∀ entries : List (Scalar × α), Distinct entries →
      Distinct (pairs.foldl (fun entries e => insert e.1 e.2 entries) entries) := by
    induction pairs with
    | nil => exact fun _ h => h
    | cons e rest ih => exact fun entries h => ih _ (h.insert e.1 e.2)
  exact hfold [] List.Pairwise.nil

end Entries

namespace Value

open Entries

variable {entries : List (Scalar × Value)}

theorem Json.distinct_of_read {fuel : Nat} {t rest : Text}
    (h : read fuel t = .ok (.mapping entries, rest)) : Distinct entries := by
  unfold read at h
  split at h
  · cases h
  · split at h
    · cases h
    · obtain ⟨items, -, heq⟩ := map_eq_ok_iff.mp h
      cases heq
  · split at h
    · cases h
      exact List.Pairwise.nil
    · obtain ⟨members, -, heq⟩ := map_eq_ok_iff.mp h
      cases heq
      exact distinct_ofPairs members.1
  · obtain ⟨s, -, heq⟩ := map_eq_ok_iff.mp h
    cases heq

theorem distinct_of_ofJson {t : Text} (h : ofJson t = .ok (.mapping entries)) :
    Distinct entries := by
  obtain ⟨⟨value, rest⟩, hread, h⟩ := bind_eq_ok_iff.mp h
  simp only at h
  split at h
  · cases h
    exact Json.distinct_of_read hread
  · cases h

theorem Yaml.distinct_of_value {n : Yaml.Node} (h : n.value = .ok (.mapping entries)) :
    Distinct entries := by
  unfold Yaml.Node.value at h
  split at h
  · obtain ⟨meaning, -, h⟩ := bind_eq_ok_iff.mp h
    cases meaning <;> cases h
  · cases h
  · obtain ⟨items, -, heq⟩ := map_eq_ok_iff.mp h
    cases heq
  · obtain ⟨⟨merged, own⟩, -, h⟩ := bind_eq_ok_iff.mp h
    cases h
    exact distinct_ofPairs (merged ++ own)

/-- What is asked of a reader of YAML: a mapping that it gives has no key twice. -/
def Yaml.Reader.GivesDistinct (yaml : Yaml.Reader) : Prop :=
  ∀ t entries, yaml t = .ok (.mapping entries) → Distinct entries

theorem givesDistinct_ofYaml : Yaml.Reader.GivesDistinct ofYaml := by
  intro t entries h
  unfold ofYaml at h
  split at h
  · obtain ⟨n, -, h⟩ := bind_eq_ok_iff.mp h
    exact Yaml.distinct_of_value h
  · cases h

end Value

namespace ConfigFile

variable {yaml : Value.Yaml.Reader} {file : ConfigFile} {v : Value}

/-- A mapping that a file holds has no key twice. -/
theorem distinct_of_load (hyaml : yaml.GivesDistinct) {entries : List (Scalar × Value)}
    (h : file.load yaml = .ok (.mapping entries)) : Entries.Distinct entries := by
  obtain ⟨t, -, h⟩ := bind_eq_ok_iff.mp h
  split at h
  · exact hyaml t entries (mapError_eq_ok_iff.mp h)
  · exact Value.distinct_of_ofJson (mapError_eq_ok_iff.mp h)

/-- A file that holds a value is there. -/
theorem isPresent_of_load (h : file.load yaml = .ok v) : file.isPresent = true := by
  obtain ⟨t, htext, -⟩ := bind_eq_ok_iff.mp h
  unfold text at htext
  unfold isPresent
  cases hcontent : file.content with
  | missing =>
    rw [hcontent] at htext
    cases htext
  | text t => rfl
  | bytes b => rfl

end ConfigFile

end MathMarkup
