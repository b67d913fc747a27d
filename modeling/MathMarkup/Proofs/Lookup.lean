import MathMarkup.Proofs.SymbolFile
import Mathlib.Data.List.Pairwise

/-!
# Looking up symbols and commands

A symbol table takes a name from the first category that has it, in the order of the table; the
commands are entered category by category, in an order of their own, so that the last one counts.
Both find the same symbol under a name whose categories agree on it (`lookups_agree`), and so under
each name that a file leaves alone: no name occurs twice in the default table (`nodup_default`).
Plain characters are no commands, whatever they are called.
-/

namespace MathMarkup.Symbol

variable {c d : Category} {yaml : Value.Yaml.Reader} {file : ConfigFile} {path name : Text}
  {symbols : Table}

/-! ## Names of the default table -/

/-- Whether no number of the list occurs twice or is marked. The marks are the bits of a number. -/
def unmarked : Nat → List Nat → Bool
  | _, [] => true
  | marks, n :: rest => !marks.testBit n && unmarked (marks ||| 1 <<< n) rest

theorem nodup_of_unmarked {marks : Nat} {ns : List Nat} (h : unmarked marks ns = true) :
    ns.Nodup ∧ ∀ n ∈ ns, marks.testBit n = false := by
  induction ns generalizing marks with
  | nil => exact ⟨List.nodup_nil, nofun⟩
  | cons n rest ih =>
    rw [unmarked, Bool.and_eq_true, Bool.not_eq_true'] at h
    obtain ⟨hn, hrest⟩ := h
    obtain ⟨hnodup, hmarks⟩ := ih hrest
    have hlater : ∀ m ∈ rest, marks.testBit m = false ∧ n ≠ m := fun m hm => by
      have hbit := hmarks m hm
      rw [Nat.testBit_or, Bool.or_eq_false_iff, Nat.one_shiftLeft, Nat.testBit_two_pow,
        decide_eq_false_iff_not] at hbit
      exact hbit
    refine ⟨List.nodup_cons.mpr ⟨fun hm => (hlater n hm).2 rfl, hnodup⟩, fun m hm => ?_⟩
    rcases List.mem_cons.mp hm with rfl | hm
    · exact hn
    · exact (hlater m hm).1

/-- A number for a name. The default names have different ones, so that each of them is compared
with a set of marks and not with every other name. -/
def fingerprint (name : String) : Nat :=
  name.toByteArray.data.toList.foldl (fun n byte => (n * 160 + byte.toNat) % 16381) 0

/-- The tables of the categories as they are written down. -/
def defaultTables : List (List (String × String)) :=
  [Default.greekLetters, Default.letterlike, Default.operators, Default.fences,
   Default.largeOperators, Default.integrals, Default.functions, Default.limitFunctions,
   Default.spacing, Default.escapes, Default.fontVariants, Default.textVariants, Default.accents,
   Default.underAccents, Default.enclosures, Default.delimiterSizes, Default.symbolOperators]

/-- The names in all of them. -/
def defaultNames : List String :=
  defaultTables.flatMap (List.map Prod.fst)

theorem keys_default :
    (Category.all.flatMap fun c => (Table.default.mapping c).map Prod.fst) =
      defaultNames.map Text.ofString := by
  have htables : Category.all.map Category.defaults = defaultTables.map Category.texts := rfl
  calc Category.all.flatMap (fun c => (Category.defaults c).map Prod.fst)
    _ = (Category.all.map Category.defaults).flatMap (List.map Prod.fst) :=
      (List.flatMap_map ..).symm
    _ = (defaultTables.map Category.texts).flatMap (List.map Prod.fst) := by rw [htables]
    _ = defaultTables.flatMap fun table => (table.map Prod.fst).map Text.ofString := by
      simp only [List.flatMap_map, Category.texts, List.map_map, Function.comp_def]
    _ = defaultNames.map Text.ofString := (List.map_flatMap ..).symm

/-- The names of the structural commands. -/
def structuralNames : List String :=
  ["\\frac", "\\dfrac", "\\cfrac", "\\tfrac", "\\binom", "\\sqrt", "\\root", "\\operatorname",
   "\\hspace", "\\overset", "\\stackrel", "\\underset", "\\phantom", "\\pmod", "\\left", "\\middle",
   "\\limits", "\\nolimits", "\\\\", "\\begin", "\\end", "\\right"]

theorem keys_structural :
    Command.structural.map Prod.fst = structuralNames.map Text.ofString := rfl

theorem get?_structural_eq_none {s : String} (h : s ∉ structuralNames) :
    Command.structural.get? (Text.ofString s) = none := by
  rw [Assoc.get?_eq_none_iff, keys_structural]
  exact fun hm => h ((List.mem_map_of_injective fun _ _ => Text.ofString_inj.mp).mp hm)

/-- No name occurs twice, and none is that of a structural command. -/
theorem nodup_names : (defaultNames ++ structuralNames).Nodup := by
  have hunmarked : unmarked 0 ((defaultNames ++ structuralNames).map fingerprint) = true := by
    decide +kernel
  exact (nodup_of_unmarked hunmarked).1.of_map

/-- No name occurs twice, be it in one category or in two. -/
theorem nodup_default :
    (Category.all.flatMap fun c => (Table.default.mapping c).map Prod.fst).Nodup := by
  rw [keys_default]
  exact nodup_names.of_append_left.map fun _ _ => Text.ofString_inj.mp

namespace Table

/-- No category has a name twice. -/
def Distinct (table : Table) : Prop :=
  ∀ c, ((table.mapping c).map Prod.fst).Nodup

theorem distinct_default : Distinct default := fun c =>
  (List.nodup_flatMap.mp nodup_default).1 c (Category.mem_all c)

theorem isSome_getIn?_iff :
    (symbols.getIn? c name).isSome = true ↔ name ∈ (symbols.mapping c).map Prod.fst := by
  rw [← not_iff_not, Bool.not_eq_true, Option.isSome_eq_false_iff, Option.isNone_iff_eq_none]
  exact Assoc.get?_eq_none_iff

/-- By default a name is in one category at most. -/
theorem eq_of_default (hc : (default.getIn? c name).isSome = true)
    (hd : (default.getIn? d name).isSome = true) : c = d := by
  by_contra hne
  have hpairwise := (List.nodup_flatMap.mp nodup_default).2
  have : Std.Symm (Function.onFun List.Disjoint fun c => (default.mapping c).map Prod.fst) :=
    ⟨fun _ _ h _ hd hc => h hc hd⟩
  exact hpairwise.forall (Category.mem_all c) (Category.mem_all d) hne
    (isSome_getIn?_iff.mp hc) (isSome_getIn?_iff.mp hd)

theorem getIn?_default_eq_none {s : String} (h : s ∉ defaultNames) (c : Category) :
    default.getIn? c s = none := by
  rw [← Option.not_isSome_iff_eq_none, isSome_getIn?_iff]
  intro hm
  have hkeys : Text.ofString s ∈ defaultNames.map Text.ofString := by
    rw [← keys_default]
    exact List.mem_flatMap.mpr ⟨c, Category.mem_all c, hm⟩
  exact h ((List.mem_map_of_injective fun _ _ => Text.ofString_inj.mp).mp hkeys)

theorem Distinct.insertAll (h : symbols.Distinct) (category : Category)
    (given : List (Text × Text)) : (symbols.insertAll category given).Distinct := by
  intro c
  by_cases hc : c = category
  · rw [hc]
    simp only [Table.insertAll, if_true]
    exact Assoc.nodup_keys_insertAll (h category) _
  · rw [mapping_insertAll_of_ne hc]
    exact h c

theorem Distinct.of_mergeEntry (h : symbols.Distinct) {x : Scalar × Value} {merged : Table}
    (hmerged : symbols.mergeEntry x = .ok merged) : merged.Distinct := by
  unfold mergeEntry at hmerged
  split at hmerged
  · obtain ⟨t, -, hmerged⟩ := bind_eq_ok_iff.mp hmerged
    cases hmerged
    exact h
  · obtain ⟨given, -, rfl⟩ := extend_eq_ok_iff.mp hmerged
    exact h.insertAll _ _
  · cases hmerged
    exact h

theorem Distinct.of_foldlM (h : symbols.Distinct) {entries : List (Scalar × Value)} {merged : Table}
    (hmerged : entries.foldlM mergeEntry symbols = .ok merged) : merged.Distinct := by
  induction entries generalizing symbols with
  | nil =>
    cases hmerged
    exact h
  | cons x rest ih =>
    rw [List.foldlM_cons] at hmerged
    obtain ⟨first, hfirst, hrest⟩ := bind_eq_ok_iff.mp hmerged
    exact ih (h.of_mergeEntry hfirst) hrest

/-- Whatever a file holds, no category gets a name twice. -/
theorem distinct_of_load (h : (load yaml file path).value = .ok symbols) : symbols.Distinct := by
  rw [value_load] at h
  exact distinct_default.of_foldlM h

/-! ## Symbols of a name -/

/-- The categories of commands that have a name agree on its symbol. -/
def Agrees (symbols : Table) (name : Text) : Prop :=
  ∀ c d v w, c ≠ .symbolOperators → d ≠ .symbolOperators →
    symbols.getIn? c name = some v → symbols.getIn? d name = some w → v = w

/-- The plain characters come last. -/
theorem get?_eq_or (symbols : Table) (name : Text) :
    symbols.get? name = (Category.all.dropLast.findSome? fun c => symbols.getIn? c name).or
      (symbols.getIn? .symbolOperators name) := by
  have hall : Category.all = Category.all.dropLast ++ [.symbolOperators] := rfl
  rw [get?, hall, List.findSome?_append, List.findSome?_singleton]
  rfl

theorem contains_iff :
    symbols.contains name = true ↔ ∃ c, (symbols.getIn? c name).isSome = true := by
  rw [contains, get?, List.findSome?_isSome_iff]
  exact ⟨fun ⟨c, _, h⟩ => ⟨c, h⟩, fun ⟨c, h⟩ => ⟨c, Category.mem_all c, h⟩⟩

/-- A name is looked up in a category of commands that has it, if there is one. -/
theorem exists_of_getIn? {v : Text} (hc : c ≠ .symbolOperators)
    (h : symbols.getIn? c name = some v) :
    ∃ d w, d ≠ .symbolOperators ∧ symbols.getIn? d name = some w ∧ symbols.get? name = some w := by
  have hmem : ∀ c, c ∈ Category.all.dropLast ↔ c ≠ .symbolOperators := fun c => by
    cases c <;> decide
  have hfound : (Category.all.dropLast.findSome? fun c => symbols.getIn? c name).isSome = true :=
    List.findSome?_isSome_iff.mpr ⟨c, (hmem c).mpr hc, Option.isSome_of_eq_some h⟩
  obtain ⟨w, hw⟩ := Option.isSome_iff_exists.mp hfound
  obtain ⟨d, hd, hdw⟩ := List.exists_of_findSome?_eq_some hw
  refine ⟨d, w, (hmem d).mp hd, hdw, ?_⟩
  rw [get?_eq_or, hw, Option.some_or]

theorem not_startsWith_of_default
    (h : (default.getIn? .symbolOperators name).isSome = true) : name.startsWith "\\" = false := by
  have hall : ∀ n ∈ (default.mapping .symbolOperators).map Prod.fst,
      Text.startsWith n "\\" = false := by decide
  exact hall name (isSome_getIn?_iff.mp h)

/-- Commands that stand for what they stand for by default have one category at most. -/
theorem agrees_of_default (hname : name.startsWith "\\" = true)
    (h : ∀ c, symbols.getIn? c name = default.getIn? c name) :
    symbols.getIn? .symbolOperators name = none ∧ symbols.Agrees name := by
  constructor
  · rw [h, ← Option.not_isSome_iff_eq_none]
    intro hsome
    rw [not_startsWith_of_default hsome] at hname
    cases hname
  · intro c d v w _ _ hv hw
    rw [h] at hv hw
    have hcd := eq_of_default (Option.isSome_of_eq_some hv) (Option.isSome_of_eq_some hw)
    rw [hcd, hw] at hv
    exact (Option.some.inj hv).symm

/-! ## Commands of a name -/

theorem nodup_keys_ofCategory (h : symbols.Distinct) (c : Category) :
    ((Command.ofCategory symbols c).map Prod.fst).Nodup := by
  rw [List.Nodup, List.pairwise_map]
  refine (List.pairwise_map.mp (h c)).filterMap _ fun d e hne d' hd e' he => ?_
  obtain ⟨_, -, rfl⟩ := Option.map_eq_some_iff.mp hd
  obtain ⟨_, -, rfl⟩ := Option.map_eq_some_iff.mp he
  exact hne

theorem isSome_of_mem_keys_ofCategory (h : name ∈ (Command.ofCategory symbols c).map Prod.fst) :
    (symbols.getIn? c name).isSome = true := by
  obtain ⟨⟨_, command⟩, hmem, rfl⟩ := List.mem_map.mp h
  obtain ⟨value, hvalue, -⟩ := Command.mem_ofCategory_iff.mp hmem
  exact isSome_getIn?_iff.mpr (List.mem_map_of_mem hvalue)

/-- By default no command is entered twice. -/
theorem nodup_keys_commands : ((Command.categoryOrder.flatMap (Command.ofCategory default) ++
    Command.structural).map Prod.fst).Nodup := by
  have horder : Command.categoryOrder.Nodup := by decide
  rw [List.map_append, List.map_flatMap, List.nodup_append']
  refine ⟨List.nodup_flatMap.mpr ⟨fun c _ => nodup_keys_ofCategory distinct_default c, ?_⟩,
    Command.nodup_keys_structural, fun name hname hstructural => ?_⟩
  · refine horder.imp fun hne name hc hd => hne ?_
    exact eq_of_default (isSome_of_mem_keys_ofCategory hc) (isSome_of_mem_keys_ofCategory hd)
  · obtain ⟨c, -, hc⟩ := List.mem_flatMap.mp hname
    rw [keys_structural] at hstructural
    obtain ⟨s, hs, rfl⟩ := List.mem_map.mp hstructural
    have hnone := getIn?_default_eq_none (s := s)
      (fun hdefault => List.disjoint_of_nodup_append nodup_names hdefault hs) c
    rw [← Option.not_isSome_iff_eq_none] at hnone
    exact hnone (isSome_of_mem_keys_ofCategory hc)

/-- The default grammar. -/
theorem value_ofSymbols_default : (Grammar.ofSymbols default).value =
    ⟨Command.categoryOrder.flatMap (Command.ofCategory default) ++ Command.structural,
      Environment.table, default.mapping .symbolOperators⟩ :=
  Grammar.value_ofSymbols rfl nodup_keys_commands

/-- A name has the command of its symbol, in each category of commands. -/
theorem get?_reverse_ofCategory (h : symbols.Distinct) (c : Category) (name : Text) :
    Assoc.get? name (Command.ofCategory symbols c).reverse =
      (symbols.getIn? c name).bind (Command.ofSymbol? c) := by
  rw [Assoc.get?_reverse (nodup_keys_ofCategory h c)]
  refine Option.ext fun command => ?_
  rw [Assoc.get?_eq_some_iff (nodup_keys_ofCategory h c), Command.mem_ofCategory_iff,
    Option.bind_eq_some_iff]
  exact exists_congr fun value => and_congr_left' (Assoc.get?_eq_some_iff (h c)).symm

/-- Of the categories of commands that have a name the last one in their order counts. -/
theorem get?_table_eq_findSome? (h : symbols.Distinct)
    (hstructural : Command.structural.get? name = none) :
    (Command.table symbols).get? name = Command.categoryOrder.reverse.findSome? fun c =>
      (symbols.getIn? c name).bind (Command.ofSymbol? c) := by
  rw [Command.get?_table, hstructural, Option.none_or, Assoc.get?_reverse_flatMap]
  exact congrArg (List.findSome? · _) (funext fun c => get?_reverse_ofCategory h c name)

theorem isSome_get?_table_iff (h : symbols.Distinct)
    (hstructural : Command.structural.get? name = none) :
    ((Command.table symbols).get? name).isSome = true ↔
      ∃ c ≠ .symbolOperators, (symbols.getIn? c name).isSome = true := by
  have hmem : ∀ c, c ∈ Command.categoryOrder ↔ c ≠ .symbolOperators := fun c => by
    cases c <;> decide
  rw [get?_table_eq_findSome? h hstructural, List.findSome?_isSome_iff]
  constructor
  · rintro ⟨c, hc, hsome⟩
    refine ⟨c, (hmem c).mp (List.mem_reverse.mp hc), ?_⟩
    exact Option.isSome_of_isSome_bind hsome
  · rintro ⟨c, hc, hsome⟩
    obtain ⟨v, hv⟩ := Option.isSome_iff_exists.mp hsome
    refine ⟨c, List.mem_reverse.mpr ((hmem c).mpr hc), ?_⟩
    rw [hv, Option.bind_some]
    exact Command.ofSymbol?_isSome_iff.mpr hc

/-- The command of a name carries the symbol on which the categories agree. -/
theorem get?_eq_payload (h : symbols.Distinct)
    (hstructural : Command.structural.get? name = none) (hagrees : symbols.Agrees name)
    {command : Command} (hcommand : (Command.table symbols).get? name = some command) :
    symbols.get? name = some command.payload := by
  rcases Command.exists_of_get?_table hcommand with hs | ⟨c, v, hm, hsymbol⟩
  · rw [hstructural] at hs
    cases hs
  · have hc := Command.ofSymbol?_isSome_iff.mp (Option.isSome_of_eq_some hsymbol)
    have hv : symbols.getIn? c name = some v := (Assoc.get?_eq_some_iff (h c)).mpr hm
    obtain ⟨d, w, hd, hw, hget⟩ := exists_of_getIn? hc hv
    rw [hget, Command.payload_ofSymbol? hsymbol, hagrees d c w v hd hc hw hv]

/-- The commands that are not structural are those of the categories other than the plain
characters, and where several of these have a name, the last one in the order of the commands gives
it its command. So a name that is no plain character has a command exactly if the table contains it,
and the command carries the symbol that the table finds if the categories agree on it. This is so
for all names that stand for what they stand for by default. -/
theorem lookups_agree (hsymbols : (load yaml file path).value = .ok symbols)
    (hname : name.startsWith "\\" = true) (hstructural : Command.structural.get? name = none) :
    ((Command.table symbols).get? name = Command.categoryOrder.reverse.findSome? fun c =>
      (symbols.getIn? c name).bind (Command.ofSymbol? c)) ∧
    (((Command.table symbols).get? name).isSome = true ↔
      ∃ c ≠ .symbolOperators, (symbols.getIn? c name).isSome = true) ∧
    (symbols.getIn? .symbolOperators name = none →
      ((Command.table symbols).get? name).isSome = symbols.contains name) ∧
    (∀ command, symbols.Agrees name → (Command.table symbols).get? name = some command →
      symbols.get? name = some command.payload) ∧
    ((∀ c, symbols.getIn? c name = default.getIn? c name) →
      symbols.getIn? .symbolOperators name = none ∧ symbols.Agrees name) := by
  have hdistinct := distinct_of_load hsymbols
  have hsome := isSome_get?_table_iff hdistinct hstructural
  refine ⟨get?_table_eq_findSome? hdistinct hstructural, hsome, fun hplain => ?_,
    fun command hagrees => get?_eq_payload hdistinct hstructural hagrees,
    agrees_of_default hname⟩
  rw [Bool.eq_iff_iff, hsome, contains_iff]
  refine exists_congr fun c => and_iff_right_of_imp fun hc heq => ?_
  rw [heq, hplain] at hc
  cases hc

/-- A file that gives a name of the operators to them and to the functions, with one symbol. -/
def agreeingFile : ConfigFile where
  suffix := ".json"
  content := .text ("\x7b\"operators\": \x7b\"pm\": \"x\"\x7d, " ++
    "\"functions\": \x7b\"\\\\pm\": \"x\"\x7d\x7d")

/-- What that file gives the operators. -/
def agreeingOperators : List (Scalar × Value) :=
  [(.text "pm", .scalar (.text "x"))]

/-- What that file gives the functions. -/
def agreeingFunctions : List (Scalar × Value) :=
  [(.text "\\pm", .scalar (.text "x"))]

/-- What that file holds. -/
def agreeingEntries : List (Scalar × Value) :=
  [(.text Category.operators.name, .mapping agreeingOperators),
    (.text Category.functions.name, .mapping agreeingFunctions)]

/-- The name has a command, with the symbol that the table finds; and so has gamma, which the file
leaves alone. -/
theorem lookups_agree_given :
    ∃ symbols, (load Value.ofYaml agreeingFile []).value = .ok symbols ∧
      symbols.get? "\\pm" = some (Text.ofString "x") ∧
      (∃ command, (Command.table symbols).get? (Text.ofString "\\pm") = some command ∧
        symbols.get? "\\pm" = some command.payload) ∧
      ∃ command, (Command.table symbols).get? (Text.ofString "\\gamma") = some command ∧
        symbols.get? "\\gamma" = some command.payload := by
  have hv : agreeingFile.load Value.ofYaml = .ok (.mapping agreeingEntries) := by decide +kernel
  obtain ⟨symbols, hsymbols⟩ := exists_load hv [] (by decide)
  have hoperators : Category.IsGiven .operators agreeingOperators (.mapping agreeingEntries) :=
    ⟨_, rfl, List.mem_cons_self⟩
  have hfunctions : Category.IsGiven .functions agreeingFunctions (.mapping agreeingEntries) :=
    ⟨_, rfl, List.mem_cons_of_mem _ List.mem_cons_self⟩
  have hothers : ∀ c ≠ .operators, c ≠ .functions → ∀ name,
      symbols.getIn? c name = default.getIn? c name := by
    intro c hoperator hfunction name
    rw [getIn?, mapping_of_load_of_not_given hv hsymbols]
    · rfl
    · rintro inner ⟨entries, heq, hm⟩
      cases heq
      simp [agreeingEntries, Category.name_inj, hoperator, hfunction] at hm
  -- the file gives the name to two categories, and no other has it
  have hoperator : symbols.getIn? .operators "\\pm" = some (Text.ofString "x") :=
    getIn?_of_last?_text hv hsymbols Value.givesDistinct_ofYaml hoperators (by decide)
  have hfunction : symbols.getIn? .functions "\\pm" = some (Text.ofString "x") :=
    getIn?_of_last?_text hv hsymbols Value.givesDistinct_ofYaml hfunctions (by decide)
  have hpm : ∀ c v, symbols.getIn? c "\\pm" = some v → v = "x" := by
    intro c v hv
    by_cases hc : c = .operators
    · rw [hc, hoperator] at hv
      exact (Option.some.inj hv).symm
    · by_cases hc' : c = .functions
      · rw [hc', hfunction] at hv
        exact (Option.some.inj hv).symm
      · rw [hothers c hc hc'] at hv
        exact absurd (eq_of_default (Option.isSome_of_eq_some hv) rfl) hc
  have hgamma : ∀ c, symbols.getIn? c "\\gamma" = default.getIn? c "\\gamma" := by
    intro c
    by_cases hc : c = .operators
    · rw [hc]
      exact getIn?_of_isSilent hv hsymbols Value.givesDistinct_ofYaml hoperators
        (Entries.last?_eq_none_iff.mp rfl)
    · by_cases hc' : c = .functions
      · rw [hc']
        exact getIn?_of_isSilent hv hsymbols Value.givesDistinct_ofYaml hfunctions
          (Entries.last?_eq_none_iff.mp rfl)
      · exact hothers c hc hc' _
  have hname : Text.startsWith "\\pm" "\\" = true := by decide
  have hname' : Text.startsWith "\\gamma" "\\" = true := by decide
  refine ⟨symbols, hsymbols, ?_, ?_, ?_⟩
  · obtain ⟨d, w, -, hw, hget⟩ := exists_of_getIn? (by decide) hoperator
    rw [hget, hpm d w hw]
  · obtain ⟨-, hsome, -, hpayload, -⟩ :=
      lookups_agree hsymbols hname (get?_structural_eq_none (by decide))
    obtain ⟨command, hcommand⟩ := Option.isSome_iff_exists.mp
      (hsome.mpr ⟨.operators, by decide, Option.isSome_of_eq_some hoperator⟩)
    refine ⟨command, hcommand, hpayload command ?_ hcommand⟩
    intro c d v w _ _ hv hw
    rw [hpm c v hv, hpm d w hw]
  · obtain ⟨-, hsome, -, hpayload, hdefault⟩ :=
      lookups_agree hsymbols hname' (get?_structural_eq_none (by decide))
    obtain ⟨command, hcommand⟩ := Option.isSome_iff_exists.mp
      (hsome.mpr ⟨.greekLetters, by decide, by rw [hgamma]; rfl⟩)
    exact ⟨command, hcommand, hpayload command (hdefault hgamma).2 hcommand⟩

/-- A file with a Greek letter among the sizes, and a command among the plain characters. -/
def collidingFile : ConfigFile where
  suffix := ".json"
  content := .text ("\x7b\"delimiter_sizes\": \x7b\"alpha\": \"2em\"\x7d, " ++
    "\"symbol_operators\": \x7b\"\\\\foo\": \"x\"\x7d\x7d")

/-- What that file gives the sizes. -/
def collidingSizes : List (Scalar × Value) :=
  [(.text "alpha", .scalar (.text "2em"))]

/-- What that file gives the plain characters. -/
def collidingCharacters : List (Scalar × Value) :=
  [(.text "\\foo", .scalar (.text "x"))]

/-- What that file holds. -/
def collidingEntries : List (Scalar × Value) :=
  [(.text Category.delimiterSizes.name, .mapping collidingSizes),
    (.text Category.symbolOperators.name, .mapping collidingCharacters)]

/-- The table finds the Greek letter where the commands have the size, and it contains a name that
no command has. -/
theorem lookups_disagree :
    Command.structural.get? (Text.ofString "\\alpha") = none ∧
      Command.structural.get? (Text.ofString "\\foo") = none ∧
      ∃ symbols, (load Value.ofYaml collidingFile []).value = .ok symbols ∧
        symbols.get? "\\alpha" = some (Text.ofString "α") ∧
        (Command.table symbols).get? (Text.ofString "\\alpha") = some (.sized "2em") ∧
        symbols.contains "\\foo" = true ∧
        (Command.table symbols).get? (Text.ofString "\\foo") = none := by
  have hv : collidingFile.load Value.ofYaml = .ok (.mapping collidingEntries) := by decide +kernel
  obtain ⟨symbols, hsymbols⟩ := exists_load hv [] (by decide +kernel)
  have halpha : Command.structural.get? (Text.ofString "\\alpha") = none :=
    get?_structural_eq_none (by decide)
  have hfoo : Command.structural.get? (Text.ofString "\\foo") = none :=
    get?_structural_eq_none (by decide)
  have hdistinct := distinct_of_load hsymbols
  have hsizes : Category.IsGiven .delimiterSizes collidingSizes (.mapping collidingEntries) :=
    ⟨_, rfl, List.mem_cons_self⟩
  have hcharacters :
      Category.IsGiven .symbolOperators collidingCharacters (.mapping collidingEntries) :=
    ⟨_, rfl, List.mem_cons_of_mem _ List.mem_cons_self⟩
  have hsize : symbols.getIn? .delimiterSizes "\\alpha" = some (Text.ofString "2em") :=
    getIn?_of_last?_text hv hsymbols Value.givesDistinct_ofYaml hsizes (by decide)
  have hnosize : symbols.getIn? .delimiterSizes "\\foo" = default.getIn? .delimiterSizes "\\foo" :=
    getIn?_of_isSilent hv hsymbols Value.givesDistinct_ofYaml hsizes
      (Entries.last?_eq_none_iff.mp rfl)
  have hcharacter : symbols.getIn? .symbolOperators "\\foo" = some (Text.ofString "x") :=
    getIn?_of_last?_text hv hsymbols Value.givesDistinct_ofYaml hcharacters
      (by decide)
  have hothers : ∀ c ≠ .delimiterSizes, c ≠ .symbolOperators → ∀ name,
      symbols.getIn? c name = default.getIn? c name := by
    intro c hsize hcharacter name
    rw [getIn?, mapping_of_load_of_not_given hv hsymbols]
    · rfl
    · rintro inner ⟨entries, heq, hm⟩
      cases heq
      simp [collidingEntries, Category.name_inj, hsize, hcharacter] at hm
  refine ⟨halpha, hfoo, symbols, hsymbols, ?_, ?_,
    contains_iff.mpr ⟨_, Option.isSome_of_eq_some hcharacter⟩, ?_⟩
  · rw [get?, Category.all, List.findSome?_cons, hothers .greekLetters (by decide) (by decide)]
    rfl
  · have horder : Command.categoryOrder.reverse =
        .delimiterSizes :: Command.categoryOrder.dropLast.reverse := rfl
    rw [get?_table_eq_findSome? hdistinct halpha, horder, List.findSome?_cons, hsize]
    rfl
  · rw [← Option.not_isSome_iff_eq_none, isSome_get?_table_iff hdistinct hfoo]
    rintro ⟨c, hc, hsome⟩
    have hnone := getIn?_default_eq_none (s := "\\foo") (by decide +kernel) c
    by_cases hsize : c = .delimiterSizes
    · rw [hsize] at hsome hnone
      rw [hnosize, hnone] at hsome
      cases hsome
    · rw [hothers c hsize hc, hnone] at hsome
      cases hsome

end Table

end MathMarkup.Symbol
