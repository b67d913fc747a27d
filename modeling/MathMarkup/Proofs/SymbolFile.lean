import MathMarkup.Proofs.Command
import MathMarkup.Proofs.Entries
import MathMarkup.Proofs.Spelled

/-!
# Symbols of a file

A file gives symbols to the categories it names. In such a category a name stands for what the last
entry with a key for it says, and for its default if there is none; the other categories keep their
defaults (`load_overrides`). A file adds names, and takes none away. There is no table at all if
something that is to be spelled holds an integer with too many digits.
-/

namespace MathMarkup

theorem Text.startsWith_backslash_iff {t : Text} :
    t.startsWith "\\" = true ↔ ∃ rest, t = .scalar '\\' :: rest :=
  List.isPrefixOf_iff_prefix.trans (exists_congr fun _ => eq_comm)

namespace Symbol

open Entries

variable {c : Category} {yaml : Value.Yaml.Reader} {file : ConfigFile} {v : Value}
  {entries inner : List (Scalar × Value)} {e : SpellError}

namespace Category

/-! ## Keys -/

/-- The names of the categories. -/
def names : List String :=
  ["greek_letters", "letterlike", "operators", "fences", "large_operators", "integrals",
   "functions", "limit_functions", "spacing", "escapes", "font_variants", "text_variants",
   "accents", "under_accents", "enclosures", "delimiter_sizes", "symbol_operators"]

theorem name_inj {d : Category} : c.name = d.name ↔ c = d := by
  refine ⟨fun h => ?_, congrArg name⟩
  have hnames : all.map name = names.map Text.ofString := rfl
  have hnodup : names.Nodup := by simp [names]
  have hdistinct : (all.map name).Nodup := by
    rw [hnames]
    exact hnodup.map fun _ _ => Text.ofString_inj.mp
  exact List.inj_on_of_nodup_map hdistinct (mem_all c) (mem_all d) h

/-- A category is found by its name only. -/
theorem ofKey?_eq_some_iff {key : Scalar} : ofKey? key = some c ↔ key = .text c.name := by
  constructor
  · intro h
    unfold ofKey? at h
    split at h
    · next t =>
      have hname := List.find?_some h
      rw [of_decide_eq_true hname]
    · cases h
  · rintro rfl
    have hsome : (all.find? fun d => d.name = c.name).isSome = true :=
      List.find?_isSome.mpr ⟨c, mem_all c, decide_eq_true rfl⟩
    obtain ⟨d, hd⟩ := Option.isSome_iff_exists.mp hsome
    have hname := List.find?_some hd
    rw [name_inj.mp (of_decide_eq_true hname)] at hd
    exact hd

/-- Whether a text stands for a name: it is the name or, where names are those of commands, the name
without its backslash. -/
def standsFor (c : Category) (name t : Text) : Bool :=
  if c = .symbolOperators then t = name
  else name.startsWith "\\" && (t = name || !t.startsWith "\\" && t = name.tail)

/-- Whether a key of a file stands for a name. -/
def spells (c : Category) (name : Text) (key : Scalar) : Bool :=
  match key.shown with
  | .ok t => c.standsFor name t
  | .error _ => false

theorem standsFor_iff {name t : Text} : c.standsFor name t = true ↔ c.storedName t = name := by
  unfold standsFor storedName
  by_cases hc : c = .symbolOperators
  · simp [hc]
  · cases ht : t.startsWith "\\" with
    | true =>
      simp only [hc, if_false, or_true, if_true, Bool.not_true, Bool.false_and, Bool.or_false,
        Bool.and_eq_true, decide_eq_true_eq, and_iff_right_iff_imp]
      rintro rfl
      exact ht
    | false =>
      simp only [hc, if_false, false_or, Bool.not_false, Bool.true_and, Bool.and_eq_true,
        Bool.or_eq_true, decide_eq_true_eq, Bool.false_eq_true]
      constructor
      · rintro ⟨hname, rfl | rfl⟩
        · rw [hname] at ht
          cases ht
        · obtain ⟨rest, rfl⟩ := Text.startsWith_backslash_iff.mp hname
          rfl
      · rintro rfl
        exact ⟨Text.startsWith_backslash_iff.mpr ⟨_, rfl⟩, Or.inr rfl⟩

/-- A key spells exactly the name under which its value is stored. -/
theorem spells_iff {name : Text} {key : Scalar} :
    c.spells name key = true ↔ ∃ t, key.shown = .ok t ∧ c.storedName t = name := by
  unfold spells
  cases key.shown with
  | ok t => simp [standsFor_iff]
  | error e => simp

/-! ## Symbols of entries -/

theorem symbolOf_eq_ok_iff {key : Scalar} {name symbol : Text} :
    c.symbolOf key v = .ok (name, symbol) ↔
      c.spells name key = true ∧ v.shown = .ok symbol := by
  rw [symbolOf, bind_eq_ok_iff, spells_iff]
  constructor
  · rintro ⟨t, hkey, h⟩
    obtain ⟨u, hvalue, h⟩ := bind_eq_ok_iff.mp h
    cases h
    exact ⟨⟨t, hkey, rfl⟩, hvalue⟩
  · rintro ⟨⟨t, hkey, rfl⟩, hvalue⟩
    exact ⟨t, hkey, by rw [hvalue]; rfl⟩

theorem symbolOf_eq_error_iff {key : Scalar} : c.symbolOf key v = .error e ↔
    Value.TooLong (some Number.digitLimit) (key :: v.scalars) e := by
  have hkey : ∀ e, key.shown = .error e ↔ Value.TooLong (some Number.digitLimit) [key] e :=
    fun e => Value.shown_eq_error_iff (.scalar key) e
  refine Value.bind_eq_error_iff_tooLong hkey fun t e => ?_
  rw [← List.append_nil v.scalars]
  exact Value.bind_eq_error_iff_tooLong (Value.shown_eq_error_iff v) fun _ _ =>
    Value.return_eq_error_iff_tooLong

/-- Under a name stands what the last entry with a key for it gives. -/
theorem get?_reverse_symbols {symbols : Assoc Text Text}
    (h : inner.mapM (fun x => c.symbolOf x.1 x.2) = .ok symbols) (name : Text) :
    (Assoc.get? name symbols.reverse).map Except.ok =
      (last? (c.spells name) inner).map fun w => w.shown := by
  induction inner generalizing symbols with
  | nil =>
    cases h
    rfl
  | cons x rest ih =>
    obtain ⟨key, w⟩ := x
    rw [List.mapM_cons] at h
    obtain ⟨⟨n, symbol⟩, hx, h⟩ := bind_eq_ok_iff.mp h
    obtain ⟨more, hmore, h⟩ := bind_eq_ok_iff.mp h
    cases h
    obtain ⟨hkey, hvalue⟩ := symbolOf_eq_ok_iff.mp hx
    have hfirst : (Assoc.get? name [(n, symbol)]).map Except.ok =
        (last? (c.spells name) [(key, w)]).map fun w => w.shown := by
      by_cases hn : n = name
      · rw [hn] at hkey
        simp [Assoc.get?, last?, hn, hkey, hvalue]
      · have hother : c.spells name key = false := by
          obtain ⟨t, ht, rfl⟩ := spells_iff.mp hkey
          refine Bool.eq_false_iff.mpr fun hspells => hn ?_
          obtain ⟨t', ht', rfl⟩ := spells_iff.mp hspells
          rw [ht] at ht'
          cases ht'
          rfl
        simp [Assoc.get?, last?, hn, hother]
    have hlast : last? (c.spells name) ((key, w) :: rest) =
        (last? (c.spells name) rest).or (last? (c.spells name) [(key, w)]) :=
      last?_append _ [(key, w)] rest
    rw [List.reverse_cons, Assoc.get?_append, hlast, Option.map_or, Option.map_or, ih hmore, hfirst]

end Category

namespace Table

variable {table table' symbols : Table} {x : Scalar × Value}

/-! ## Merging -/

/-- The table with one entry of a file merged into it. What is no category is told of. -/
def mergeEntry (table : Table) (x : Scalar × Value) : Except SpellError Table :=
  match Category.ofKey? x.1, x.2 with
  | none, _ => do
    let _ ← x.1.shown
    return table
  | some category, .mapping inner => table.extend category inner
  | some _, _ => .ok table

/-- A file is merged entry by entry. -/
theorem value_merge (path : Text) (table : Table) (entries : List (Scalar × Value)) :
    (merge path table entries).value = entries.foldlM mergeEntry table := by
  induction entries generalizing table with
  | nil => rfl
  | cons x rest ih =>
    obtain ⟨key, v⟩ := x
    rw [List.foldlM_cons]
    simp only [merge, mergeEntry]
    cases Category.ofKey? key with
    | none =>
      dsimp only
      cases key.shown with
      | error e => rfl
      | ok name => exact ih table
    | some category =>
      cases v with
      | scalar s => exact ih table
      | list items => exact ih table
      | mapping inner =>
        dsimp only
        cases table.extend category inner with
        | error e => rfl
        | ok extended => exact ih extended

/-- Something in an entry of a file has no spelling: an entry of a category, or else a key that is
to be told of. -/
def Unspelled (x : Scalar × Value) (e : SpellError) : Prop :=
  Category.ofKey? x.1 = none ∧ Value.TooLong (some Number.digitLimit) [x.1] e ∨
    ∃ (c : Category) (inner : List (Scalar × Value)), x = (.text c.name, .mapping inner) ∧
      ∃ y ∈ inner, Value.TooLong (some Number.digitLimit) (y.1 :: y.2.scalars) e

theorem Unspelled.unique {x' : Scalar × Value} {e' : SpellError} (h : Unspelled x e)
    (h' : Unspelled x' e') : e = e' := by
  have htooLong : ∀ {x e}, Unspelled x e →
      ∃ scalars, Value.TooLong (some Number.digitLimit) scalars e := by
    rintro x e (⟨-, h⟩ | ⟨c, inner, -, y, -, h⟩)
    · exact ⟨_, h⟩
    · exact ⟨_, h⟩
  obtain ⟨scalars, h⟩ := htooLong h
  obtain ⟨scalars', h'⟩ := htooLong h'
  exact h.unique h'

theorem extend_eq_ok_iff : table.extend c inner = .ok table' ↔
    ∃ symbols, inner.mapM (fun x => c.symbolOf x.1 x.2) = .ok symbols ∧
      table.insertAll c symbols = table' := by
  unfold extend
  rw [bind_eq_ok_iff]
  refine exists_congr fun symbols => and_congr_right fun _ => ?_
  exact ⟨fun h => Except.ok.inj h, fun h => congrArg _ h⟩

theorem extend_eq_error_iff : table.extend c inner = .error e ↔
    ∃ y ∈ inner, Value.TooLong (some Number.digitLimit) (y.1 :: y.2.scalars) e := by
  have hsymbols : inner.mapM (fun x => c.symbolOf x.1 x.2) = .error e ↔
      ∃ y ∈ inner, c.symbolOf y.1 y.2 = .error e := by
    refine mapM_eq_error_iff fun y y' e e' h h' => ?_
    exact (Category.symbolOf_eq_error_iff.mp h).unique (Category.symbolOf_eq_error_iff.mp h')
  unfold extend
  rw [bind_eq_error_iff, hsymbols]
  simp only [Category.symbolOf_eq_error_iff]
  refine or_iff_left ?_
  rintro ⟨symbols, -, h⟩
  cases h

theorem mergeEntry_eq_error_iff : table.mergeEntry x = .error e ↔ Unspelled x e := by
  obtain ⟨key, v⟩ := x
  unfold mergeEntry Unspelled
  cases hkey : Category.ofKey? key with
  | none =>
    have hno : ∀ c : Category, key ≠ .text c.name := fun c hc => by
      rw [Category.ofKey?_eq_some_iff.mpr hc] at hkey
      cases hkey
    have hshown : key.shown = .error e ↔ Value.TooLong (some Number.digitLimit) [key] e :=
      Value.shown_eq_error_iff (.scalar key) e
    simp only [bind_eq_error_iff, Prod.mk.injEq, hno, false_and, exists_false, or_false, true_and]
    rw [hshown]
    refine or_iff_left ?_
    rintro ⟨t, -, h⟩
    cases h
  | some category =>
    obtain rfl := Category.ofKey?_eq_some_iff.mp hkey
    cases v with
    | scalar s => simp
    | list items => simp
    | mapping inner =>
      dsimp only
      rw [extend_eq_error_iff]
      constructor
      · intro h
        exact Or.inr ⟨category, inner, rfl, h⟩
      · rintro (⟨h, -⟩ | ⟨c, inner', heq, h⟩)
        · cases h
        · obtain ⟨-, hinner⟩ := Prod.mk.inj heq
          cases hinner
          exact h

/-- An entry with another key leaves a category alone. -/
theorem mapping_of_mergeEntry_of_ne (h : table.mergeEntry x = .ok table')
    (hne : x.1 ≠ .text c.name) : table'.mapping c = table.mapping c := by
  unfold mergeEntry at h
  split at h
  · obtain ⟨t, -, h⟩ := bind_eq_ok_iff.mp h
    cases h
    rfl
  · next category inner hkey _ =>
    obtain ⟨symbols, -, rfl⟩ := extend_eq_ok_iff.mp h
    refine mapping_insertAll_of_ne ?_ _ _
    rintro rfl
    exact hne (Category.ofKey?_eq_some_iff.mp hkey)
  · cases h
    rfl

theorem eq_of_mergeEntry_of_not_mapping {key : Scalar} (h : table.mergeEntry (key, v) = .ok table')
    (hv : ∀ inner, v ≠ .mapping inner) : table' = table := by
  unfold mergeEntry at h
  split at h
  · obtain ⟨t, -, h⟩ := bind_eq_ok_iff.mp h
    cases h
    rfl
  · next inner _ heq => exact absurd heq (hv inner)
  · cases h
    rfl

/-- An entry that gives a category symbols extends it by them. -/
theorem mapping_of_mergeEntry_mapping
    (h : table.mergeEntry (.text c.name, .mapping inner) = .ok table') :
    ∃ symbols, inner.mapM (fun x => c.symbolOf x.1 x.2) = .ok symbols ∧
      table'.mapping c = (table.mapping c).insertAll symbols := by
  have hkey : Category.ofKey? (.text c.name) = some c := Category.ofKey?_eq_some_iff.mpr rfl
  simp only [mergeEntry, hkey] at h
  obtain ⟨symbols, hsymbols, rfl⟩ := extend_eq_ok_iff.mp h
  exact ⟨symbols, hsymbols, by simp [insertAll]⟩

/-- Without an entry that gives it symbols a category keeps those it has. -/
theorem mapping_of_foldlM_of_not_mem (h : entries.foldlM mergeEntry table = .ok table')
    (hno : ∀ inner, (Scalar.text c.name, Value.mapping inner) ∉ entries) :
    table'.mapping c = table.mapping c := by
  induction entries generalizing table with
  | nil =>
    cases h
    rfl
  | cons x rest ih =>
    obtain ⟨key, v⟩ := x
    rw [List.foldlM_cons] at h
    obtain ⟨merged, hmerged, h⟩ := bind_eq_ok_iff.mp h
    rw [ih h fun inner hm => hno inner (List.mem_cons_of_mem _ hm)]
    by_cases hkey : key = .text c.name
    · rw [eq_of_mergeEntry_of_not_mapping hmerged fun inner hv => ?_]
      refine hno inner ?_
      rw [hkey, hv]
      exact List.mem_cons_self
    · exact mapping_of_mergeEntry_of_ne hmerged hkey

/-- The one entry that gives a category symbols extends it by them. -/
theorem mapping_of_foldlM_of_mem (h : entries.foldlM mergeEntry table = .ok table')
    (hd : Distinct entries) (hm : (Scalar.text c.name, Value.mapping inner) ∈ entries) :
    ∃ symbols, inner.mapM (fun x => c.symbolOf x.1 x.2) = .ok symbols ∧
      table'.mapping c = (table.mapping c).insertAll symbols := by
  induction entries generalizing table with
  | nil => cases hm
  | cons x rest ih =>
    obtain ⟨hhead, hrest⟩ := List.pairwise_cons.mp hd
    rw [List.foldlM_cons] at h
    obtain ⟨merged, hmerged, hfold⟩ := bind_eq_ok_iff.mp h
    rcases List.mem_cons.mp hm with rfl | hm
    · have hno : ∀ inner', (Scalar.text c.name, Value.mapping inner') ∉ rest := fun _ hm => by
        have hne := hhead _ hm
        simp [Scalar.sameKey] at hne
      rw [mapping_of_foldlM_of_not_mem hfold hno]
      exact mapping_of_mergeEntry_mapping hmerged
    · have hne : x.1 ≠ .text c.name := fun heq => by
        have hne := hhead _ hm
        simp [heq, Scalar.sameKey] at hne
      rw [← mapping_of_mergeEntry_of_ne hmerged hne]
      exact ih hfold hrest hm

/-! ## Loading -/

/-- The entries of the mapping that a file holds, if it holds one. -/
def entriesOf (yaml : Value.Yaml.Reader) (file : ConfigFile) : List (Scalar × Value) :=
  match file.load yaml with
  | .ok (.mapping entries) => entries
  | _ => []

/-- A file that holds no mapping is no different from one that holds an empty mapping. -/
theorem value_load (yaml : Value.Yaml.Reader) (file : ConfigFile) (path : Text) :
    (load yaml file path).value = (entriesOf yaml file).foldlM mergeEntry default := by
  unfold load entriesOf
  cases hv : file.load yaml with
  | error e => split <;> rfl
  | ok v =>
    rw [ConfigFile.isPresent_of_load hv]
    cases v with
    | scalar s => rfl
    | list items => rfl
    | mapping entries => exact value_merge path default entries

theorem value_load_of_mapping (hv : file.load yaml = .ok (.mapping entries)) (path : Text) :
    (load yaml file path).value = entries.foldlM mergeEntry default := by
  rw [value_load, entriesOf, hv]

theorem value_load_of_not_mapping (hv : file.load yaml = .ok v)
    (h : ∀ entries, v ≠ .mapping entries) (path : Text) :
    (load yaml file path).value = .ok default := by
  rw [value_load, entriesOf, hv]
  cases v with
  | scalar s => rfl
  | list items => rfl
  | mapping entries => exact absurd rfl (h entries)

theorem foldlM_mergeEntry_eq_error_iff :
    entries.foldlM mergeEntry table = .error e ↔ ∃ x ∈ entries, Unspelled x e := by
  have hmerge : ∀ table x e, mergeEntry table x = .error e ↔ Unspelled x e :=
    fun _ _ _ => mergeEntry_eq_error_iff
  exact foldlM_eq_error_iff hmerge fun _ _ _ _ => Unspelled.unique

/-- There is no table exactly if something in the entries of a mapping has no spelling. -/
theorem load_eq_error_iff (hv : file.load yaml = .ok v) (path : Text) :
    (load yaml file path).value = .error e ↔
      ∃ entries, v = .mapping entries ∧ ∃ x ∈ entries, Unspelled x e := by
  by_cases hmapping : ∃ entries, v = .mapping entries
  · obtain ⟨entries, rfl⟩ := hmapping
    rw [value_load_of_mapping hv, foldlM_mergeEntry_eq_error_iff]
    simp
  · rw [value_load_of_not_mapping hv fun entries h => hmapping ⟨entries, h⟩]
    refine iff_of_false nofun ?_
    rintro ⟨entries, h, -⟩
    exact hmapping ⟨entries, h⟩

/-- Whether a file gives a table does not depend on the table that it extends. -/
theorem exists_load (hv : file.load yaml = .ok (.mapping entries)) (path : Text)
    (h : (entries.foldlM mergeEntry ⟨fun _ => []⟩).toOption.isSome = true) :
    ∃ symbols, (load yaml file path).value = .ok symbols := by
  obtain ⟨merged, hmerged⟩ := exists_of_isSome_toOption h
  cases hload : (load yaml file path).value with
  | ok symbols => exact ⟨symbols, rfl⟩
  | error e =>
    rw [value_load_of_mapping hv, foldlM_mergeEntry_eq_error_iff] at hload
    rw [foldlM_mergeEntry_eq_error_iff.mpr hload] at hmerged
    cases hmerged

end Table

/-- The file that holds the given value gives the category the given entries. -/
def Category.IsGiven (c : Category) (inner : List (Scalar × Value)) (v : Value) : Prop :=
  ∃ entries, v = .mapping entries ∧ (.text c.name, .mapping inner) ∈ entries

namespace Table

section Loaded

variable {path : Text} (hv : file.load yaml = .ok v)
  (hsymbols : (load yaml file path).value = .ok symbols)

include hv hsymbols

/-- A category that is given entries is extended by them. -/
theorem mapping_of_load_of_given (hyaml : yaml.GivesDistinct) (h : c.IsGiven inner v) :
    ∃ given, inner.mapM (fun x => c.symbolOf x.1 x.2) = .ok given ∧
      symbols.mapping c = (default.mapping c).insertAll given := by
  obtain ⟨entries, rfl, hm⟩ := h
  rw [value_load_of_mapping hv] at hsymbols
  exact mapping_of_foldlM_of_mem hsymbols (ConfigFile.distinct_of_load hyaml hv) hm

/-- A category that is given nothing keeps its defaults. -/
theorem mapping_of_load_of_not_given (h : ∀ inner, ¬c.IsGiven inner v) :
    symbols.mapping c = default.mapping c := by
  by_cases hmapping : ∃ entries, v = .mapping entries
  · obtain ⟨entries, rfl⟩ := hmapping
    rw [value_load_of_mapping hv] at hsymbols
    exact mapping_of_foldlM_of_not_mem hsymbols fun inner hm => h inner ⟨entries, rfl, hm⟩
  · rw [value_load_of_not_mapping hv fun entries h => hmapping ⟨entries, h⟩] at hsymbols
    cases hsymbols
    rfl

/-- In a category that is given entries a name stands for what the last entry for it says. -/
theorem getIn?_of_load_of_given (hyaml : yaml.GivesDistinct) (h : c.IsGiven inner v)
    (name : Text) : (symbols.getIn? c name).map Except.ok =
      ((last? (c.spells name) inner).map fun w => w.shown).or
        ((default.getIn? c name).map Except.ok) := by
  obtain ⟨given, hgiven, hmapping⟩ := mapping_of_load_of_given hv hsymbols hyaml h
  rw [getIn?, hmapping, Assoc.get?_insertAll, Option.map_or, Category.get?_reverse_symbols hgiven]
  rfl

theorem getIn?_of_isLast (hyaml : yaml.GivesDistinct) (h : c.IsGiven inner v) {name : Text}
    {w : Value} (hlast : IsLast (c.spells name) w inner) :
    ∃ t, w.shown = .ok t ∧ symbols.getIn? c name = some t := by
  have hget := getIn?_of_load_of_given hv hsymbols hyaml h name
  rw [last?_eq_some_iff.mpr hlast, Option.map_some, Option.some_or, Option.map_eq_some_iff] at hget
  obtain ⟨t, ht, hw⟩ := hget
  exact ⟨t, hw.symm, ht⟩

theorem getIn?_of_last?_text (hyaml : yaml.GivesDistinct) (h : c.IsGiven inner v) {name t : Text}
    (hlast : last? (c.spells name) inner = some (.text t)) : symbols.getIn? c name = some t := by
  obtain ⟨t', ht', hget⟩ := getIn?_of_isLast hv hsymbols hyaml h (last?_eq_some_iff.mp hlast)
  cases ht'
  exact hget

theorem getIn?_of_isSilent (hyaml : yaml.GivesDistinct) (h : c.IsGiven inner v) {name : Text}
    (hsilent : IsSilent (c.spells name) inner) :
    symbols.getIn? c name = default.getIn? c name := by
  have hget := getIn?_of_load_of_given hv hsymbols hyaml h name
  rw [last?_eq_none_iff.mpr hsilent, Option.map_none, Option.none_or] at hget
  exact Option.map_injective (fun _ _ => Except.ok.inj) hget

theorem isSome_getIn?_of_load (hyaml : yaml.GivesDistinct) {name : Text}
    (h : (default.getIn? c name).isSome = true) : (symbols.getIn? c name).isSome = true := by
  by_cases hgiven : ∃ inner, c.IsGiven inner v
  · obtain ⟨inner, hinner⟩ := hgiven
    have hget := congrArg Option.isSome (getIn?_of_load_of_given hv hsymbols hyaml hinner name)
    simpa [h] using hget
  · rw [getIn?, mapping_of_load_of_not_given hv hsymbols fun inner hinner => hgiven ⟨inner, hinner⟩]
    exact h

/-- What a category holds depends on nothing but the entries that the file gives it. -/
theorem mapping_of_load_congr (hyaml : yaml.GivesDistinct) {file' : ConfigFile} {v' : Value}
    {path' : Text} {symbols' : Table} (hv' : file'.load yaml = .ok v')
    (hsymbols' : (load yaml file' path').value = .ok symbols')
    (h : ∀ inner, c.IsGiven inner v ↔ c.IsGiven inner v') :
    symbols.mapping c = symbols'.mapping c := by
  by_cases hgiven : ∃ inner, c.IsGiven inner v
  · obtain ⟨inner, hinner⟩ := hgiven
    obtain ⟨given, hgiven, hmapping⟩ := mapping_of_load_of_given hv hsymbols hyaml hinner
    obtain ⟨given', hgiven', hmapping'⟩ :=
      mapping_of_load_of_given hv' hsymbols' hyaml ((h inner).mp hinner)
    rw [hgiven] at hgiven'
    cases hgiven'
    rw [hmapping, hmapping']
  · have hnot : ∀ inner, ¬c.IsGiven inner v := fun inner hinner => hgiven ⟨inner, hinner⟩
    have hnot' : ∀ inner, ¬c.IsGiven inner v' := fun inner hinner =>
      hnot inner ((h inner).mpr hinner)
    rw [mapping_of_load_of_not_given hv hsymbols hnot,
      mapping_of_load_of_not_given hv' hsymbols' hnot']

end Loaded

/-- A file that holds no mapping leaves the default table, and one that holds a mapping gives no
table exactly if something that is to be spelled holds an integer with too many digits. In a table
that it gives, a name stands in each category for what the last of the entries for it that the file
gives the category says, or for its default if there are none; a name of the defaults is never lost,
a category looks at no entries but its own, and the structural commands stay as they are. -/
theorem load_overrides (hyaml : yaml.GivesDistinct) (hv : file.load yaml = .ok v) (path : Text) :
    (∀ e, (load yaml file path).value = .error e ↔
      ∃ entries, v = .mapping entries ∧ ∃ x ∈ entries, Unspelled x e) ∧
    ((∀ entries, v ≠ .mapping entries) → (load yaml file path).value = .ok default) ∧
    ∀ symbols, (load yaml file path).value = .ok symbols →
      (∀ c inner, Category.IsGiven c inner v → ∀ name,
        (∀ w, IsLast (c.spells name) w inner →
          ∃ t, w.shown = .ok t ∧ symbols.getIn? c name = some t) ∧
        (IsSilent (c.spells name) inner →
          symbols.getIn? c name = default.getIn? c name)) ∧
      (∀ c, (∀ inner, ¬Category.IsGiven c inner v) → symbols.mapping c = default.mapping c) ∧
      (∀ c name, (default.getIn? c name).isSome = true →
        (symbols.getIn? c name).isSome = true) ∧
      (∀ file' v' path' symbols' c, ConfigFile.load yaml file' = .ok v' →
        (load yaml file' path').value = .ok symbols' →
        (∀ inner, Category.IsGiven c inner v ↔ c.IsGiven inner v') →
        symbols.mapping c = symbols'.mapping c) ∧
      ∀ name command, Command.structural.get? name = some command →
        (Command.table symbols).get? name = some command := by
  refine ⟨fun e => load_eq_error_iff hv path, fun h => value_load_of_not_mapping hv h path,
    fun symbols hsymbols => ⟨fun c inner hgiven name =>
      ⟨fun w => getIn?_of_isLast hv hsymbols hyaml hgiven,
        getIn?_of_isSilent hv hsymbols hyaml hgiven⟩,
      fun c h => mapping_of_load_of_not_given hv hsymbols h,
      fun c name => isSome_getIn?_of_load hv hsymbols hyaml,
      fun file' v' path' symbols' c hv' hsymbols' h =>
        mapping_of_load_congr hv hsymbols hyaml hv' hsymbols' h, ?_⟩⟩
  intro name command hcommand
  rw [Command.get?_table, hcommand, Option.some_or]

/-- A file with two spellings of one name, and with a number in place of symbols. -/
def overridingFile : ConfigFile where
  suffix := ".yaml"
  content := .text "functions:\n  foo: 1\n  \\foo: 2\nspacing: 3\n"

/-- What that file gives the functions. -/
def overridingFunctions : List (Scalar × Value) :=
  [(.text "foo", .scalar (.number (.int 1))), (.text "\\foo", .scalar (.number (.int 2)))]

/-- What that file holds. -/
def overridingEntries : List (Scalar × Value) :=
  [(.text "functions", .mapping overridingFunctions),
    (.text "spacing", .scalar (.number (.int 3)))]

/-- A file with an integer of 3601 hexadecimal digits. -/
def longFile : ConfigFile where
  suffix := ".yaml"
  content := .text ("functions:\n  foo: 0x1" ++ List.replicate 3600 (CodePoint.scalar '0') ++ "\n")

/-- What that file gives the functions. -/
def longFunctions : List (Scalar × Value) :=
  [(.text "foo", .scalar (.number (.int (Nat.pow 16 3600))))]

/-- The second spelling counts, and the number changes nothing; but an integer that is read has more
decimal digits than are spelled. -/
theorem load_overrides_spellings :
    overridingFile.load Value.ofYaml = .ok (.mapping overridingEntries) ∧
      (∃ symbols, (load Value.ofYaml overridingFile []).value = .ok symbols ∧
        symbols.getIn? .functions "\\foo" = some (Text.ofString "2") ∧
        symbols.mapping .spacing = default.mapping .spacing) ∧
      ∀ yaml : Value.Yaml.Reader, yaml.GivesDistinct →
        longFile.load yaml = .ok (.mapping [(.text "functions", .mapping longFunctions)]) →
        (load yaml longFile []).value = .error (.tooLong Number.digitLimit) := by
  have hv : overridingFile.load Value.ofYaml = .ok (.mapping overridingEntries) := by
    decide +kernel
  refine ⟨hv, ?_, fun yaml hyaml hlong => ?_⟩
  · have hshown : (Value.scalar (.number (.int 2))).shown = .ok (Text.ofString "2") := by
      decide +kernel
    have hlast : IsLast (Category.functions.spells "\\foo") (.scalar (.number (.int 2)))
        overridingFunctions :=
      ⟨[(.text "foo", .scalar (.number (.int 1)))], .text "\\foo", [], rfl, by decide,
        fun _ h => nomatch h⟩
    obtain ⟨symbols, hload⟩ := exists_load hv [] (by decide +kernel)
    obtain ⟨hgiven, hnot, -⟩ := (load_overrides Value.givesDistinct_ofYaml hv []).2.2 symbols hload
    obtain ⟨t, ht, hfoo⟩ := (hgiven .functions _ ⟨_, rfl, List.mem_cons_self⟩ "\\foo").1 _ hlast
    refine ⟨symbols, hload, ?_, hnot .spacing ?_⟩
    · rw [hshown] at ht
      cases ht
      exact hfoo
    · rintro inner ⟨entries, heq, hm⟩
      cases heq
      simp [overridingEntries, Category.name] at hm
  · refine ((load_overrides hyaml hlong []).1 _).mpr
      ⟨_, rfl, _, List.mem_cons_self, Or.inr ⟨.functions, longFunctions, rfl, _,
        List.mem_cons_self, _, rfl, rfl, _, List.mem_cons_of_mem _ List.mem_cons_self, ?_⟩⟩
    decide +kernel

end Table

end Symbol

end MathMarkup
