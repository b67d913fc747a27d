import MathMarkup.Proofs.Resolution
import MathMarkup.Proofs.Strictness

/-!
# What a parse reads of its options

Of its options a parse reads four flags by their truth, and the limit on nesting. Options that agree
there give the same parse, so that the flag for display and the limit on length make no difference
to a tree or to an error (`parse_eq_of_readAlike`).

An override of a single flag can always be resolved, and changes that flag alone.
-/

namespace MathMarkup

namespace Options

/-- Options that say the same to a parse. -/
structure ReadAlike (o o' : Options) : Prop where
  strict : o'.strictMode.isTruthy = o.strictMode.isTruthy
  allows : o'.allowUnknownCommands.isTruthy = o.allowUnknownCommands.isTruthy
  preserves : o'.preserveWhitespace.isTruthy = o.preserveWhitespace.isTruthy
  traces : o'.debugMode.isTruthy = o.debugMode.isTruthy
  depth : o'.maxNestingDepth = o.maxNestingDepth

/-- The flag for display is not read. -/
theorem readAlike_displayMode (o : Options) (v v' : Value) :
    ReadAlike { o with displayMode := v } { o with displayMode := v' } :=
  ⟨rfl, rfl, rfl, rfl, rfl⟩

/-- Of the flag for strictness only the truth is read. -/
theorem readAlike_strictMode {o : Options} {v : Value} (h : v.isTruthy = o.strictMode.isTruthy) :
    o.ReadAlike { o with strictMode := v } :=
  ⟨h, rfl, rfl, rfl, rfl⟩

/-! ## Overrides -/

/-- The options with a flag changed. The limits are no flags. -/
def setFlag (o : Options) (v : Value) : Field → Options
  | .displayMode => { o with displayMode := v }
  | .strictMode => { o with strictMode := v }
  | .allowUnknownCommands => { o with allowUnknownCommands := v }
  | .preserveWhitespace => { o with preserveWhitespace := v }
  | .debugMode => { o with debugMode := v }
  | .maxNestingDepth | .maxInputLength => o

/-- A single entry says something about its own field only. -/
theorem lastFor_singleton (field f : Field) (v : Value) :
    lastFor field [(.text f.name, v)] = if f = field then some v else none := by
  unfold lastFor
  rw [List.reverse_singleton, List.find?_singleton, (Field.ofKey?_name f).1]
  by_cases h : f = field <;> simp [h]

/-- An override of a flag is resolved. -/
theorem withOverrides_flag (o : Options) (v : Value) {f : Field}
    (hf : f ∉ [Field.maxNestingDepth, .maxInputLength]) :
    (o.withOverrides [(.text f.name, v)]).value = .ok (o.setFlag v f) := by
  have hlimits : f ≠ .maxNestingDepth ∧ f ≠ .maxInputLength := by simpa using hf
  show o.update _ = _
  simp only [update, lastFor_singleton, get, if_neg hlimits.1, if_neg hlimits.2,
    Option.getD_none, limit_number]
  cases f <;> rfl

end Options

/-! ## Parses -/

namespace Parser

variable {grammar : Grammar} {o o' : Options} {tokens : List Token}

/-- Two runs of which no failure is excused, with equal nodes. -/
def sameRuns (tokens : List Token) : Pairing where
  left := fun _ => False
  right := fun _ => False
  node := Eq
  tokens := tokens

theorem relates_readAlike (h : o.ReadAlike o') (tokens : List Token) (grammar : Grammar)
    (source : Text) : Relates (sameRuns tokens) ⟨grammar, o, source⟩ ⟨grammar, o', source⟩ where
  closed := Or.inl ⟨rfl, rfl⟩
  fitting := fitting_eq
  grammar := rfl
  raw _ _ _ := rfl
  commandText _ _ h := h.symm
  columns h := by rw [h]
  unknownCommand _ _ _ := by
    rw [rejectsUnknown_eq, rejectsUnknown_eq, h.strict, h.allows]
    exact Or.inl rfl
  unknownEnvironment _ _ _ _ := Or.inl h.strict
  textNode variant raw := by
    show Parser.textNode _ _ = Parser.textNode _ _
    simp only [textOfRaw, h.preserves]
  placedNode {t n n'} _ hn := by
    show Parser.placedNode _ t n = Parser.placedNode _ t n'
    have hn' : n = n' := hn
    simp only [Parser.placedNode, Setup.debug, h.traces, hn']

end Parser

/-- Options that say the same to a parse give the same parse. -/
theorem parse_eq_of_readAlike {o o' : Options} (h : o.ReadAlike o') (grammar : Grammar)
    (source : Text) : (parse grammar o' source).value = (parse grammar o source).value := by
  have hmatched := Parser.matched_readTokens
    (Parser.relates_readAlike h (Token.tokenize source) grammar source) ⟨rfl, rfl⟩ rfl h.depth
    (Parser.map_moved_eq_self fun _ _ => rfl)
  rw [Parser.value_parse_eq_readTokens, Parser.value_parse_eq_readTokens]
  change Parser.Matched _ (Parser.readTokens _ (Token.tokenize source))
    (Parser.readTokens _ (Token.tokenize source)) at hmatched
  generalize Parser.readTokens ⟨grammar, o, source⟩ _ = left at hmatched ⊢
  generalize Parser.readTokens ⟨grammar, o', source⟩ _ = right at hmatched ⊢
  cases hmatched with
  | ok hnode => exact congrArg Except.ok hnode.symm
  | error herror => exact congrArg Except.error (herror.eq fun _ => rfl)
  | left _ h => exact h.elim
  | right _ h => exact h.elim

/-- A strict parse that succeeds reads what the parse with the given options reads. -/
theorem parse_eq_ok_of_strict {grammar : Grammar} {o : Options} {source : Text} {node : Node}
    (h : (parse grammar { o with strictMode := .bool true } source).value = .ok node) :
    (parse grammar o source).value = .ok node := by
  cases hstrict : o.strictMode.isTruthy with
  | true =>
    have halike : o.ReadAlike { o with strictMode := .bool true } :=
      Options.readAlike_strictMode hstrict.symm
    rw [← h, parse_eq_of_readAlike halike]
  | false =>
    -- A strict run differs from a permissive one only where it fails.
    have hmatched := Parser.matched_strictMode grammar o source (Token.tokenize source)
    rw [← Parser.value_parse_eq_readTokens, ← Parser.value_parse_eq_readTokens, h] at hmatched
    have halike : o.ReadAlike { o with strictMode := .bool false } :=
      Options.readAlike_strictMode hstrict.symm
    rw [← parse_eq_of_readAlike halike]
    generalize (parse grammar { o with strictMode := .bool false } source).value = permissive
      at hmatched ⊢
    cases hmatched with
    | ok hnode => exact congrArg Except.ok hnode.symm
    | right _ h => exact h.elim

end MathMarkup
