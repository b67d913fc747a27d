import MathMarkup.ConfigFile
import MathMarkup.Log

/-!
# Conversion options

Five flags and two limits. A flag may be any value and counts as set by its truth; a limit is a
number that is not less than 1, and that is part of its type, so every `Options` is valid.

Options are given as entries of a mapping. A field is named in two spellings, `display_mode` and
`displayMode`; of several entries for a field the last one counts, and an entry that names no field
is skipped with a warning.
-/

namespace MathMarkup

/-- A bound on a size: a number not less than 1. -/
structure Limit where
  number : Number
  atLeastOne : number.isBelow 1 = false
deriving DecidableEq, Repr

namespace Limit

/-- The limit `n + 1`. -/
def ofNat (n : Nat) : Limit :=
  ⟨.int (n + 1), by
    rw [Number.isBelow_int, decide_eq_false_iff_not]
    omega⟩

/-- Whether a size is greater than the limit. -/
def isExceededBy (l : Limit) (size : Nat) : Bool :=
  l.number.isBelow size

end Limit

namespace Options

/-- The names of the options. -/
inductive Field where
  | displayMode
  | strictMode
  | allowUnknownCommands
  | preserveWhitespace
  | debugMode
  | maxNestingDepth
  | maxInputLength
deriving DecidableEq, Repr

/-- All fields in order. -/
def Field.all : List Field :=
  [.displayMode, .strictMode, .allowUnknownCommands, .preserveWhitespace, .debugMode,
   .maxNestingDepth, .maxInputLength]

/-- The name of a field, with underscores. -/
def Field.name : Field → Text
  | .displayMode => "display_mode"
  | .strictMode => "strict_mode"
  | .allowUnknownCommands => "allow_unknown_commands"
  | .preserveWhitespace => "preserve_whitespace"
  | .debugMode => "debug_mode"
  | .maxNestingDepth => "max_nesting_depth"
  | .maxInputLength => "max_input_length"

/-- The second spelling of a field, with capitals. -/
def Field.capitalName : Field → Text
  | .displayMode => "displayMode"
  | .strictMode => "strictMode"
  | .allowUnknownCommands => "allowUnknownCommands"
  | .preserveWhitespace => "preserveWhitespace"
  | .debugMode => "debugMode"
  | .maxNestingDepth => "maxNestingDepth"
  | .maxInputLength => "maxInputLength"

/-- The field that a key names, in either spelling. -/
def Field.ofKey? (key : Scalar) : Option Field :=
  Field.all.find? fun f => key = .text f.name || key = .text f.capitalName

/-- Each field is found by both its spellings. -/
theorem Field.ofKey?_name (f : Field) :
    ofKey? (.text f.name) = some f ∧ ofKey? (.text f.capitalName) = some f := by
  cases f <;> simp [ofKey?, all, name, capitalName]

/-- Why entries give no options. -/
inductive Error where
  | notPositive (field : Field) (number : Number)
  | notANumber (value : Value)
deriving Repr

/-- The message of an error. A number that cannot be spelled has the message of that failure
instead. -/
def Error.message : Error → Text
  | .notPositive field number =>
    match number.text with
    | .ok spelling => field.name ++ " must be positive, got " ++ spelling
    | .error e => e.message
  | .notANumber value =>
    "'<' not supported between instances of '" ++ value.operandName ++ "' and 'int'"

/-- The limit that a value gives. -/
def limit (field : Field) : Value → Except Error Limit
  | .scalar (.number n) =>
    if h : n.isBelow 1 = false then .ok ⟨n, h⟩ else .error (.notPositive field n)
  | v => .error (.notANumber v)

end Options

/-- The options of a conversion. -/
structure Options where
  displayMode : Value := .bool false
  strictMode : Value := .bool false
  allowUnknownCommands : Value := .bool false
  preserveWhitespace : Value := .bool false
  debugMode : Value := .bool false
  maxNestingDepth : Limit := Limit.ofNat 99
  maxInputLength : Limit := Limit.ofNat 9999
deriving Repr

namespace Options

/-- The value of a field. -/
def get (o : Options) : Field → Value
  | .displayMode => o.displayMode
  | .strictMode => o.strictMode
  | .allowUnknownCommands => o.allowUnknownCommands
  | .preserveWhitespace => o.preserveWhitespace
  | .debugMode => o.debugMode
  | .maxNestingDepth => .scalar (.number o.maxNestingDepth.number)
  | .maxInputLength => .scalar (.number o.maxInputLength.number)

/-- The options as entries, one for each field. -/
def toEntries (o : Options) : List (Scalar × Value) :=
  Field.all.map fun f => (.text f.name, o.get f)

/-- The value that the last entry for a field gives it. -/
def lastFor (field : Field) (entries : List (Scalar × Value)) : Option Value :=
  (entries.reverse.find? fun e => Field.ofKey? e.1 = some field).map Prod.snd

/-- The options changed by entries. The limit on nesting is looked at before the one on length. -/
def update (o : Options) (entries : List (Scalar × Value)) : Except Error Options := do
  let pick (f : Field) : Value := (lastFor f entries).getD (o.get f)
  let depth ← limit .maxNestingDepth (pick .maxNestingDepth)
  let length ← limit .maxInputLength (pick .maxInputLength)
  return {
    displayMode := pick .displayMode
    strictMode := pick .strictMode
    allowUnknownCommands := pick .allowUnknownCommands
    preserveWhitespace := pick .preserveWhitespace
    debugMode := pick .debugMode
    maxNestingDepth := depth
    maxInputLength := length }

/-- One warning for each entry that names no field, up to the first whose key has no spelling. -/
def warnUnknown : List (Scalar × Value) → Logged (Except SpellError Unit)
  | [] => pure (.ok ())
  | (key, _) :: rest => do
    if (Field.ofKey? key).isSome then warnUnknown rest
    else match key.shown with
      | .error e => return .error e
      | .ok name =>
        .say .warning .options ("Ignoring unknown conversion option: " ++ name)
        warnUnknown rest

/-- The options changed by entries whose keys are texts, with the warnings about them. Without
entries nothing is looked at. -/
def withOverrides (o : Options) (entries : List (Scalar × Value)) :
    Logged (Except Error Options) :=
  if entries.isEmpty then ⟨.ok o, []⟩ else ⟨o.update entries, (warnUnknown entries).log⟩

/-- The options that entries whose keys are texts give over the defaults. -/
def ofEntries (entries : List (Scalar × Value)) : Logged (Except Error Options) :=
  ⟨({} : Options).update entries, (warnUnknown entries).log⟩

/-- Why a file gives no options. -/
inductive LoadError where
  | unreadable (e : FileError)
  | notAMapping
  /-- A key that names no field has no spelling. -/
  | unspelled (e : SpellError)
  | invalid (e : Error)

/-- The options that a file gives over the defaults. A file that holds null changes nothing. Its
keys may be of any type. -/
def load (yaml : Value.Yaml.Reader) (file : ConfigFile) (path : Text) :
    Logged (Except LoadError Options) :=
  match file.load yaml with
  | .error e => pure (.error (.unreadable e))
  | .ok value => do
    let entries? := match value with
      | .null => some []
      | .mapping entries => some entries
      | _ => none
    match entries? with
    | none => return .error .notAMapping
    | some entries =>
      .say .info .options ("Loaded conversion options from " ++ path)
      let warned := warnUnknown entries
      match warned.value with
      | .error e => ⟨.error (.unspelled e), warned.log⟩
      | .ok () =>
        let result ← ofEntries entries
        return result.mapError .invalid

/-- The message about a file that holds something other than a mapping. -/
def notAMappingMessage (path : Text) : Text :=
  "Options file " ++ path ++ " must contain a mapping"

/-- Whether a command that is not known stops the parse, as a value: the strict flag itself when it
is not set, and otherwise whether unknown commands are not allowed. -/
def rejectsUnknownCommands (o : Options) : Value :=
  if o.strictMode.isTruthy then .bool (!o.allowUnknownCommands.isTruthy) else o.strictMode

end Options

end MathMarkup
