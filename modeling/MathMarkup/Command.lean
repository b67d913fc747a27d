import MathMarkup.Symbol.Table

/-!
# Commands

What a command token does when it is met. Most commands come from the symbol table: each category
but the plain characters gives the commands of one kind, with the symbol as payload. The structural
commands, which take arguments or open and close something, are fixed and win over any symbol of the
same name.
-/

namespace MathMarkup

/-- The meaning of a command. -/
inductive Command where
  | identifier (value : Text)
  | operator (value : Text)
  | fence (value : Text)
  | largeOperator (value : Text)
  | integral (value : Text)
  | function (value : Text)
  | limitFunction (value : Text)
  | space (width : Text)
  | sizedSpace
  | lineBreak
  /-- A fraction, in a given display style or in that of its surroundings. -/
  | fraction (displayStyle : Option Bool)
  | binomial
  | squareRoot
  | root
  | style (variant : Text)
  | text (variant : Text)
  | operatorName
  | accent (mark : Text)
  | underAccent (mark : Text)
  | overset
  | underset
  | enclose (shape : Text)
  | phantom
  | modulus
  | left
  | middle
  | sized (size : Text)
  /-- Says whether the limits of the operator before it stand below and above. -/
  | limits (movable : Bool)
  | beginEnvironment
  /-- Ends something that a command opened. -/
  | closer
deriving DecidableEq, Repr

namespace Command

/-- The word for the kind of a command. -/
def kindName : Command → Text
  | .identifier _ => "identifier"
  | .operator _ => "operator"
  | .fence _ => "fence"
  | .largeOperator _ => "large_operator"
  | .integral _ => "integral"
  | .function _ => "function"
  | .limitFunction _ => "limit_function"
  | .space _ => "space"
  | .sizedSpace => "sized_space"
  | .lineBreak => "line_break"
  | .fraction _ => "fraction"
  | .binomial => "binomial"
  | .squareRoot => "sqrt"
  | .root => "root"
  | .style _ => "style"
  | .text _ => "text"
  | .operatorName => "operator_name"
  | .accent _ => "accent"
  | .underAccent _ => "under_accent"
  | .overset => "overset"
  | .underset => "underset"
  | .enclose _ => "enclose"
  | .phantom => "phantom"
  | .modulus => "pmod"
  | .left => "left"
  | .middle => "middle"
  | .sized _ => "big"
  | .limits _ => "limits"
  | .beginEnvironment => "environment"
  | .closer => "closer"

/-- The spelling of a truth value in an attribute. -/
def truthText (b : Bool) : Text :=
  if b then "true" else "false"

/-- The payload of a command as text; empty if there is none. -/
def payload : Command → Text
  | .identifier v | .operator v | .fence v | .largeOperator v | .integral v | .function v
  | .limitFunction v | .space v | .style v | .text v | .accent v | .underAccent v | .enclose v
  | .sized v => v
  | .fraction (some b) => truthText b
  | .limits b => truthText b
  | _ => []

/-- The command that a symbol of a category is. Plain characters are no commands. -/
def ofSymbol? : Symbol.Category → Text → Option Command
  | .greekLetters, v => some (.identifier v)
  | .letterlike, v => some (.identifier v)
  | .escapes, v => some (.identifier v)
  | .operators, v => some (.operator v)
  | .fences, v => some (.fence v)
  | .largeOperators, v => some (.largeOperator v)
  | .integrals, v => some (.integral v)
  | .functions, v => some (.function v)
  | .limitFunctions, v => some (.limitFunction v)
  | .spacing, v => some (.space v)
  | .fontVariants, v => some (.style v)
  | .textVariants, v => some (.text v)
  | .accents, v => some (.accent v)
  | .underAccents, v => some (.underAccent v)
  | .enclosures, v => some (.enclose v)
  | .delimiterSizes, v => some (.sized v)
  | .symbolOperators, _ => none

/-- The categories in the order in which their commands are entered; a later one wins. -/
def categoryOrder : List Symbol.Category :=
  [.greekLetters, .letterlike, .escapes, .operators, .fences, .largeOperators, .integrals,
   .functions, .limitFunctions, .spacing, .fontVariants, .textVariants, .accents, .underAccents,
   .enclosures, .delimiterSizes]

/-- The commands that no symbol table changes. -/
def structural : Assoc Text Command :=
  [("\\frac", .fraction none), ("\\dfrac", .fraction (some true)),
   ("\\cfrac", .fraction (some true)), ("\\tfrac", .fraction (some false)),
   ("\\binom", .binomial), ("\\sqrt", .squareRoot), ("\\root", .root),
   ("\\operatorname", .operatorName), ("\\hspace", .sizedSpace), ("\\overset", .overset),
   ("\\stackrel", .overset), ("\\underset", .underset), ("\\phantom", .phantom),
   ("\\pmod", .modulus), ("\\left", .left), ("\\middle", .middle), ("\\limits", .limits true),
   ("\\nolimits", .limits false), ("\\\\", .lineBreak), ("\\begin", .beginEnvironment),
   ("\\end", .closer), ("\\right", .closer)]

/-- The commands of one category. -/
def ofCategory (symbols : Symbol.Table) (category : Symbol.Category) : Assoc Text Command :=
  (symbols.mapping category).filterMap fun e => (ofSymbol? category e.2).map fun c => (e.1, c)

/-- The commands that a symbol table gives, the structural ones included. -/
def table (symbols : Symbol.Table) : Assoc Text Command :=
  Assoc.insertAll [] (categoryOrder.flatMap (ofCategory symbols) ++ structural)

/-- The table of commands, with the entry that counts them. -/
def tableLogged (symbols : Symbol.Table) : Logged (Assoc Text Command) := do
  let commands := table symbols
  .say .debug .commands ("Built command registry with " ++ Text.ofNat commands.length ++
    " commands")
  return commands

/-- The accents that grow with their base, by the names of their commands. -/
def stretchyAccents : List Text :=
  ["\\widehat", "\\widetilde", "\\overline", "\\overrightarrow", "\\overleftarrow",
   "\\overbrace", "\\underline", "\\underbrace", "\\underrightarrow", "\\underleftarrow"]

end Command

end MathMarkup
