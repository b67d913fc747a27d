import MathMarkup.Text.CodePoint

/-!
# Diagnostics

The report of a failed parse as a caller sees it: a kind, a message, the text at fault and where it
stands, as far as that is known. For a missing argument it also names the command and the argument.
-/

namespace MathMarkup

namespace Diagnostic

/-- The kinds of failures. -/
inductive Kind where
  | conversion
  | unknownCommand
  | unknownEnvironment
  | unmatchedBrace
  | unmatchedBracket
  | unmatchedEnvironment
  | missingArgument
  | invalidSyntax
  | unexpectedToken
deriving DecidableEq, Repr

/-- All kinds. -/
def Kind.all : List Kind :=
  [.conversion, .unknownCommand, .unknownEnvironment, .unmatchedBrace, .unmatchedBracket,
   .unmatchedEnvironment, .missingArgument, .invalidSyntax, .unexpectedToken]

/-- The name of a kind. -/
def Kind.name : Kind → Text
  | .conversion => "ConversionError"
  | .unknownCommand => "UnknownCommand"
  | .unknownEnvironment => "UnknownEnvironment"
  | .unmatchedBrace => "UnmatchedBrace"
  | .unmatchedBracket => "UnmatchedBracket"
  | .unmatchedEnvironment => "UnmatchedEnvironment"
  | .missingArgument => "MissingArgument"
  | .invalidSyntax => "InvalidSyntax"
  | .unexpectedToken => "UnexpectedToken"

/-- The kind with the given name. -/
def Kind.ofName? (name : Text) : Option Kind :=
  Kind.all.find? fun k => k.name = name

end Diagnostic

/-- A report of a failure. The last two fields matter for a missing argument only. -/
structure Diagnostic where
  kind : Diagnostic.Kind
  message : Text
  text : Text := []
  offset : Option Int := none
  line : Option Int := none
  column : Option Int := none
  command : Text := []
  argumentIndex : Int := 0
deriving DecidableEq, Repr

namespace Diagnostic

/-- Where the failure is. Line and column are given only together, and only with an offset. -/
def location (d : Diagnostic) : Text :=
  match d.offset, d.line, d.column with
  | none, _, _ => []
  | some offset, some line, some column =>
    "offset " ++ Text.ofInt offset ++ " (line " ++ Text.ofInt line ++ ", column " ++
      Text.ofInt column ++ ")"
  | some offset, _, _ => "offset " ++ Text.ofInt offset

/-- The message with the location behind it. -/
def shown (d : Diagnostic) : Text :=
  if d.location.isEmpty then d.message else d.message ++ " at " ++ d.location

end Diagnostic

end MathMarkup
