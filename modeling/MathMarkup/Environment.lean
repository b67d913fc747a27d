import MathMarkup.Assoc
import MathMarkup.Text.CodePoint

/-!
# Environments

The blocks between `\begin{name}` and `\end{name}` that are known by name, and how the columns of an
array are read off its column specification.
-/

namespace MathMarkup

namespace Environment

/-- How the content of an environment is laid out. -/
inductive Kind where
  | display
  | table
  | fencedTable
  | array
  | container
deriving DecidableEq, Repr

/-- The word for a kind. -/
def Kind.name : Kind → Text
  | .display => "display"
  | .table => "table"
  | .fencedTable => "fenced_table"
  | .array => "array"
  | .container => "container"

end Environment

/-- What is known about an environment. -/
structure Environment where
  kind : Environment.Kind
  columnAlign : Text := []
  opening : Text := []
  closing : Text := []
  takesArgument : Bool := false
deriving DecidableEq, Repr

namespace Environment

/-- An environment that only groups its content. -/
def generic : Environment := ⟨.container, [], [], [], false⟩

/-- A table with all its columns aligned in one way. -/
def tableOf (align : Text) : Environment := ⟨.table, align, [], [], false⟩

/-- A matrix between two delimiters. -/
def matrix (opening closing : Text) : Environment :=
  ⟨.fencedTable, "center", opening, closing, false⟩

/-- Gives each of the names the same environment. -/
def entries (names : List String) (e : Environment) : Assoc Text Environment :=
  names.map fun n => (Text.ofString n, e)

/-- The known environments by name. -/
def table : Assoc Text Environment :=
  entries ["equation", "equation*", "displaymath"] ⟨.display, [], [], [], false⟩ ++
  entries ["align", "align*", "aligned", "split", "multline", "multline*", "eqnarray", "eqnarray*",
    "flalign", "flalign*"] (tableOf "left") ++
  entries ["gather", "gather*", "gathered", "matrix", "smallmatrix"] (tableOf "center") ++
  entries ["alignat", "alignat*", "alignedat"] ⟨.table, "left", [], [], true⟩ ++
  entries ["pmatrix"] (matrix "(" ")") ++
  entries ["bmatrix"] (matrix "[" "]") ++
  entries ["Bmatrix"] (matrix "\x7b" "\x7d") ++
  entries ["vmatrix", "Vmatrix"] (matrix "|" "|") ++
  entries ["cases"] ⟨.fencedTable, "left left", "\x7b", [], false⟩ ++
  entries ["array", "tabular"] ⟨.array, [], [], [], true⟩ ++
  entries ["document", "abstract", "center", "flushleft", "flushright", "quote", "quotation",
    "verse", "itemize", "enumerate", "description", "theorem", "lemma", "proof", "definition",
    "corollary", "proposition", "remark", "example", "exercise", "solution", "figure", "table",
    "minipage", "titlepage", "article", "book", "report", "letter", "picture", "tikzpicture"]
    generic

example : table.length = 60 := by decide

/-! ## Column specifications -/

/-- The text behind a brace argument that holds no brace itself, if one starts here. -/
def skipArgument? : Text → Option Text
  | [] => none
  | c :: rest =>
    if c = .scalar '\x7d' then some rest
    else if c = .scalar '\x7b' then none
    else skipArgument? rest

/-- A column specification without its brace arguments, in one pass from the left: of nested ones
only the innermost goes. The first argument counts the code points still to be skipped. -/
def dropArguments : Nat → Text → Text
  | _, [] => []
  | n + 1, _ :: rest => dropArguments n rest
  | 0, c :: rest =>
    if c = .scalar '\x7b' then
      match skipArgument? rest with
      | some tail => dropArguments (rest.length - tail.length) rest
      | none => c :: dropArguments 0 rest
    else c :: dropArguments 0 rest

/-- The alignment of a column by its letter. -/
def columnLetter? : CodePoint → Option Text
  | .scalar 'l' => some "left"
  | .scalar 'c' => some "center"
  | .scalar 'r' => some "right"
  | _ => none

/-- The alignments of the columns that a specification lists; one centred column if it lists
none. -/
def columnAlignment (spec : Text) : Text :=
  match (dropArguments 0 spec).filterMap columnLetter? with
  | [] => "center"
  | columns => Text.join " " columns

example : columnAlignment (Text.ofString "l|c@\x7bc\x7dr") = Text.ofString "left center right" := by
  decide

end Environment

end MathMarkup
