import MathMarkup.Parser.Cursor
import MathMarkup.Proofs.Assoc

/-!
# The table of commands

A look-up finds a structural command under its name whatever the symbols say, and a symbol never
stands for a command of a structural kind. `Grammar.Regular` says this of a grammar; the grammar of
any symbol table is regular.
-/

namespace MathMarkup

namespace Command

/-- The commands that no symbol stands for. -/
def isStructural : Command → Bool
  | .sizedSpace | .lineBreak | .fraction _ | .binomial | .squareRoot | .root | .operatorName
  | .overset | .underset | .phantom | .modulus | .left | .middle | .limits _ | .beginEnvironment
  | .closer => true
  | _ => false

theorem isStructural_ofSymbol? {category : Symbol.Category} {value : Text} {c : Command}
    (h : ofSymbol? category value = some c) : c.isStructural = false := by
  cases category <;> cases h <;> rfl

theorem nodup_keys_structural : (structural.map Prod.fst).Nodup := by
  simp [structural]

/-- The structural commands win over those of symbols. -/
theorem get?_table (symbols : Symbol.Table) (name : Text) :
    (table symbols).get? name = (structural.get? name).or
      (Assoc.get? name (categoryOrder.flatMap (ofCategory symbols)).reverse) := by
  unfold table
  rw [Assoc.get?_insertAll, List.reverse_append, Assoc.get?_append,
    Assoc.get?_reverse nodup_keys_structural]
  simp [Assoc.get?]

/-! ## Commands of symbols -/

theorem ofSymbol?_isSome_iff {category : Symbol.Category} {value : Text} :
    (ofSymbol? category value).isSome = true ↔ category ≠ .symbolOperators := by
  cases category <;> simp [ofSymbol?]

/-- The command that a symbol is carries that symbol. -/
theorem payload_ofSymbol? {category : Symbol.Category} {value : Text} {c : Command}
    (h : ofSymbol? category value = some c) : c.payload = value := by
  cases category <;> cases h <;> rfl

theorem mem_ofCategory_iff {symbols : Symbol.Table} {category : Symbol.Category} {name : Text}
    {c : Command} :
    (name, c) ∈ ofCategory symbols category ↔
      ∃ value, (name, value) ∈ symbols.mapping category ∧ ofSymbol? category value = some c := by
  simp only [ofCategory, List.mem_filterMap, Option.map_eq_some_iff, Prod.mk.injEq, Prod.exists]
  constructor
  · rintro ⟨_, value, hm, _, hc, rfl, rfl⟩
    exact ⟨value, hm, hc⟩
  · rintro ⟨value, hm, hc⟩
    exact ⟨name, value, hm, c, hc, rfl, rfl⟩

/-- A command that is found is structural, or it is a symbol of the table. -/
theorem exists_of_get?_table {symbols : Symbol.Table} {name : Text} {c : Command}
    (h : (table symbols).get? name = some c) :
    structural.get? name = some c ∨
      ∃ category value, (name, value) ∈ symbols.mapping category ∧
        ofSymbol? category value = some c := by
  rw [get?_table, Option.or_eq_some_iff] at h
  refine h.imp_right fun ⟨_, hc⟩ => ?_
  obtain ⟨category, -, hm⟩ := List.mem_flatMap.mp (List.mem_reverse.mp (Assoc.mem_of_get? hc))
  exact ⟨category, mem_ofCategory_iff.mp hm⟩

end Command

/-- A grammar in which the structural commands have their meanings, and no others have them. -/
structure Grammar.Regular (g : Grammar) : Prop where
  get?_structural : ∀ {name c}, Command.structural.get? name = some c →
    g.commands.get? name = some c
  structural_of_get? : ∀ {name c}, g.commands.get? name = some c → c.isStructural = true →
    Command.structural.get? name = some c

namespace Grammar

theorem commands_ofSymbols (symbols : Symbol.Table) :
    (ofSymbols symbols).value.commands = Command.table symbols := rfl

/-- The grammar of symbols, with their commands in the order in which they are entered, if no name
is given twice or is that of a structural command. In this form a single parse is evaluated
faster. -/
theorem value_ofSymbols {symbols : Symbol.Table} {commands : Assoc Text Command}
    (hcommands : Command.categoryOrder.flatMap (Command.ofCategory symbols) = commands)
    (h : ((commands ++ Command.structural).map Prod.fst).Nodup) : (ofSymbols symbols).value =
      ⟨commands ++ Command.structural, Environment.table, symbols.mapping .symbolOperators⟩ := by
  have htable : Command.table symbols = [] ++ (commands ++ Command.structural) := by
    rw [← hcommands]
    rw [← hcommands] at h
    exact Assoc.insertAll_eq_append h
  rw [List.nil_append] at htable
  rw [← htable]
  rfl

/-- The grammar of no symbols. -/
theorem ofSymbols_nil : (ofSymbols ⟨fun _ => []⟩).value =
    ⟨Command.structural, Environment.table, []⟩ :=
  value_ofSymbols rfl Command.nodup_keys_structural

theorem regular_ofSymbols (symbols : Symbol.Table) : (ofSymbols symbols).value.Regular where
  get?_structural {name c} h := by
    show (Command.table symbols).get? name = some c
    rw [Command.get?_table, h, Option.some_or]
  structural_of_get? {name c} h hc := by
    refine (Command.exists_of_get?_table h).resolve_right ?_
    rintro ⟨_, _, -, hsymbol⟩
    rw [Command.isStructural_ofSymbol? hsymbol] at hc
    cases hc

namespace Regular

variable {g : Grammar}

/-- A look-up finds a command of a structural kind exactly under its own names. -/
theorem get?_eq_iff (h : g.Regular) {name : Text} {c : Command} (hc : c.isStructural = true) :
    g.commands.get? name = some c ↔ (name, c) ∈ Command.structural := by
  rw [← Assoc.get?_eq_some_iff Command.nodup_keys_structural]
  exact ⟨fun hg => h.structural_of_get? hg hc, h.get?_structural⟩

theorem get?_eq_left_iff (h : g.Regular) {name : Text} :
    g.commands.get? name = some .left ↔ name = Text.ofString "\\left" := by
  simpa [Command.structural] using h.get?_eq_iff (c := .left) rfl

theorem get?_eq_middle_iff (h : g.Regular) {name : Text} :
    g.commands.get? name = some .middle ↔ name = Text.ofString "\\middle" := by
  simpa [Command.structural] using h.get?_eq_iff (c := .middle) rfl

theorem get?_eq_beginEnvironment_iff (h : g.Regular) {name : Text} :
    g.commands.get? name = some .beginEnvironment ↔ name = Text.ofString "\\begin" := by
  simpa [Command.structural] using h.get?_eq_iff (c := .beginEnvironment) rfl

theorem get?_eq_closer_iff (h : g.Regular) {name : Text} :
    g.commands.get? name = some .closer ↔
      name = Text.ofString "\\end" ∨ name = Text.ofString "\\right" := by
  simpa [Command.structural] using h.get?_eq_iff (c := .closer) rfl

theorem get?_eq_lineBreak_iff (h : g.Regular) {name : Text} :
    g.commands.get? name = some .lineBreak ↔ name = Text.ofString "\\\\" := by
  simpa [Command.structural] using h.get?_eq_iff (c := .lineBreak) rfl

theorem get?_eq_limits_iff (h : g.Regular) {name : Text} {movable : Bool} :
    g.commands.get? name = some (.limits movable) ↔
      name = (if movable then Text.ofString "\\limits" else Text.ofString "\\nolimits") := by
  cases movable with
  | false => simpa [Command.structural] using h.get?_eq_iff (c := .limits false) rfl
  | true => simpa [Command.structural] using h.get?_eq_iff (c := .limits true) rfl

end Regular

end Grammar

end MathMarkup
