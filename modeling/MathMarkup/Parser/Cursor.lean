import MathMarkup.Command
import MathMarkup.Environment
import MathMarkup.Options
import MathMarkup.Scope
import MathMarkup.Text.Blank

/-!
# The state of a parse

A parse has a fixed setup and a cursor. The setup holds what the commands mean, the options and the
source. The cursor holds the tokens still to be read, how many were read before, the open scopes,
the environment at hand and the log. A parser is a function on cursors that may fail; a failed parse
still has its log.
-/

namespace MathMarkup

/-- What commands, environments and plain characters mean. -/
structure Grammar where
  commands : Assoc Text Command
  environments : Assoc Text Environment
  operators : Assoc Text Text

/-- The grammar that a symbol table gives, with the entry about its commands. -/
def Grammar.ofSymbols (symbols : Symbol.Table) : Logged Grammar := do
  let commands ← Command.tableLogged symbols
  return ⟨commands, Environment.table, symbols.mapping .symbolOperators⟩

namespace Parser

/-- What stays the same during a parse. -/
structure Setup where
  grammar : Grammar
  options : Options
  source : Text

/-- Whether tokens and nodes are traced. -/
def Setup.debug (s : Setup) : Bool :=
  s.options.debugMode.isTruthy

/-- The state of a parse. -/
structure Cursor where
  /-- How many tokens have been read. -/
  position : Nat := 0
  /-- The tokens that have not been read. -/
  rest : List Token
  /-- The open scopes from the innermost outwards. -/
  scopes : List Scope := []
  /-- The name of the innermost environment. -/
  environment : Option Text := none
  /-- The log, newest entry first. -/
  log : Log := []

/-- A parser: it moves the cursor and gives a result or an error. -/
abbrev ParseM := EStateM ParseError Cursor

/-- Where an expression ends: the token, at its position, that is left to the caller. -/
abbrev Stop := Nat → Token → Bool

/-- The next token, left in place. -/
def peek : ParseM (Option Token) :=
  return (← get).rest.head?

/-- Moves over the given number of tokens. -/
def advance (n : Nat) : ParseM Unit :=
  modify fun c => { c with position := c.position + n, rest := c.rest.drop n }

/-- The next token, taken. At the end of the input nothing is taken. -/
def next : ParseM (Option Token) := do
  match (← get).rest with
  | [] => return none
  | t :: _ =>
    advance 1
    return some t

/-- Writes an entry to the log. -/
def say (level : Log.Level) (part : Log.Part) (message : Text) : ParseM Unit :=
  modify fun c => { c with log := ⟨level, part, message⟩ :: c.log }

/-- Opens a scope. -/
def pushScope (s : Scope) : ParseM Unit :=
  modify fun c => { c with scopes := s :: c.scopes }

/-- Closes the innermost scope. -/
def popScope : ParseM Unit :=
  modify fun c => { c with scopes := c.scopes.tail }

end Parser

end MathMarkup
