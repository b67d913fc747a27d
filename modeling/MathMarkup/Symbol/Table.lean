import MathMarkup.Assoc
import MathMarkup.ConfigFile
import MathMarkup.Log
import MathMarkup.Symbol.Default
import MathMarkup.Text.Order

/-!
# Symbol tables

A table holds, for each category, the names of that category with what they stand for. It is the
default table, or the default table with the entries of a file inserted.

A file holds a mapping from categories to mappings. Whatever does not fit is skipped with a warning
and the rest still counts. A name gets a backslash in front if it has none, except for the plain
characters of `symbolOperators`; names and values that are no texts are spelled out. What cannot be
spelled is not skipped: there is no table then.
-/

namespace MathMarkup.Symbol

/-- The categories of symbols. -/
inductive Category where
  | greekLetters
  | letterlike
  | operators
  | fences
  | largeOperators
  | integrals
  | functions
  | limitFunctions
  | spacing
  | escapes
  | fontVariants
  | textVariants
  | accents
  | underAccents
  | enclosures
  | delimiterSizes
  | symbolOperators
deriving DecidableEq, Repr

namespace Category

/-- All categories, in the order in which a name is looked up. -/
def all : List Category :=
  [.greekLetters, .letterlike, .operators, .fences, .largeOperators, .integrals, .functions,
   .limitFunctions, .spacing, .escapes, .fontVariants, .textVariants, .accents, .underAccents,
   .enclosures, .delimiterSizes, .symbolOperators]

theorem mem_all (c : Category) : c ∈ all := by
  cases c <;> decide

/-- The name of a category in a file. -/
def name : Category → Text
  | .greekLetters => "greek_letters"
  | .letterlike => "letterlike"
  | .operators => "operators"
  | .fences => "fences"
  | .largeOperators => "large_operators"
  | .integrals => "integrals"
  | .functions => "functions"
  | .limitFunctions => "limit_functions"
  | .spacing => "spacing"
  | .escapes => "escapes"
  | .fontVariants => "font_variants"
  | .textVariants => "text_variants"
  | .accents => "accents"
  | .underAccents => "under_accents"
  | .enclosures => "enclosures"
  | .delimiterSizes => "delimiter_sizes"
  | .symbolOperators => "symbol_operators"

/-- The category with the given name. -/
def ofName? (name : Text) : Option Category :=
  all.find? fun c => c.name = name

/-- The category that a key of a file names. -/
def ofKey? : Scalar → Option Category
  | .text t => ofName? t
  | _ => none

/-- The entries of a default table as texts. -/
def texts (entries : List (String × String)) : Assoc Text Text :=
  entries.map fun e => (Text.ofString e.1, Text.ofString e.2)

/-- The default symbols of a category. -/
def defaults : Category → Assoc Text Text
  | .greekLetters => texts Default.greekLetters
  | .letterlike => texts Default.letterlike
  | .operators => texts Default.operators
  | .fences => texts Default.fences
  | .largeOperators => texts Default.largeOperators
  | .integrals => texts Default.integrals
  | .functions => texts Default.functions
  | .limitFunctions => texts Default.limitFunctions
  | .spacing => texts Default.spacing
  | .escapes => texts Default.escapes
  | .fontVariants => texts Default.fontVariants
  | .textVariants => texts Default.textVariants
  | .accents => texts Default.accents
  | .underAccents => texts Default.underAccents
  | .enclosures => texts Default.enclosures
  | .delimiterSizes => texts Default.delimiterSizes
  | .symbolOperators => texts Default.symbolOperators

/-- The name as it is stored, with its backslash. -/
def storedName (c : Category) (name : Text) : Text :=
  if c = .symbolOperators ∨ name.startsWith "\\" then name else .scalar '\\' :: name

/-- The name and the symbol that an entry of a file gives. -/
def symbolOf (c : Category) (key : Scalar) (value : Value) : Except SpellError (Text × Text) := do
  let name ← key.shown
  let symbol ← value.shown
  return (c.storedName name, symbol)

end Category

/-- The symbols of each category. -/
structure Table where
  mapping : Category → Assoc Text Text

namespace Table

/-- The default symbols. -/
def default : Table :=
  ⟨Category.defaults⟩

/-- The table with further symbols in one category. -/
def insertAll (table : Table) (category : Category) (symbols : List (Text × Text)) : Table :=
  ⟨fun c =>
    if c = category then (table.mapping category).insertAll symbols else table.mapping c⟩

theorem mapping_insertAll_of_ne {c category : Category} (h : c ≠ category) (table : Table)
    (symbols : List (Text × Text)) :
    (table.insertAll category symbols).mapping c = table.mapping c := by
  simp [insertAll, h]

/-- The table with the entries that a file gives a category, unless one of them has no spelling. -/
def extend (table : Table) (category : Category) (entries : List (Scalar × Value)) :
    Except SpellError Table := do
  return table.insertAll category (← entries.mapM fun e => category.symbolOf e.1 e.2)

/-- The table with the categories of a file merged into it in order. A key or a value that has no
spelling ends the merging without a table. -/
def merge (path : Text) :
    Table → List (Scalar × Value) → Logged (Except SpellError Table)
  | table, [] => pure (.ok table)
  | table, (key, value) :: rest => do
    match Category.ofKey? key, value with
    | none, _ =>
      match key.shown with
      | .error e => return .error e
      | .ok name =>
        .say .warning .symbols ("Unknown symbol category '" ++ name ++ "' in " ++ path)
        merge path table rest
    | some category, .mapping entries =>
      match table.extend category entries with
      | .error e => return .error e
      | .ok extended => merge path extended rest
    | some category, _ =>
      .say .warning .symbols ("Symbol category '" ++ category.name ++ "' in " ++ path ++
        " is not a mapping")
      merge path table rest

/-- The default table with the symbols of a file merged into it. A file that is missing, cannot be
read or holds no mapping leaves the defaults. -/
def load (yaml : Value.Yaml.Reader) (file : ConfigFile) (path : Text) :
    Logged (Except SpellError Table) := do
  if !file.isPresent then
    .say .warning .symbols ("Symbol config " ++ path ++ " does not exist, using defaults")
    return .ok default
  else match file.load yaml with
    | .error _ =>
      .say .warning .symbols ("Failed to load symbol mappings from " ++ path)
      return .ok default
    | .ok (.mapping entries) =>
      .say .info .symbols ("Loaded symbol mappings from " ++ path)
      merge path default entries
    | .ok _ =>
      .say .warning .symbols ("Symbol mappings in " ++ path ++
        " must be a mapping, ignoring file")
      return .ok default

/-- What a name stands for in one category. -/
def getIn? (table : Table) (category : Category) (name : Text) : Option Text :=
  (table.mapping category).get? name

/-- What a name stands for in the first category that has it. -/
def get? (table : Table) (name : Text) : Option Text :=
  Category.all.findSome? fun c => table.getIn? c name

/-- Whether a name is in some category. -/
def contains (table : Table) (name : Text) : Bool :=
  (table.get? name).isSome

/-- The symbols of a category by name. -/
def sorted (table : Table) (category : Category) : Assoc Text Text :=
  (table.mapping category).mergeSort fun a b => Text.le a.1 b.1

end Table

end MathMarkup.Symbol
