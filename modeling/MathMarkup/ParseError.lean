import MathMarkup.Diagnostic
import MathMarkup.Number
import MathMarkup.Script
import MathMarkup.Text.Quoted

/-!
# Parse errors

An error is a cause with the text at fault and its place. The wording of each cause stands in
`Cause.message`, its kind in `Cause.kind`; `ParseError.diagnostic` puts the report together.
-/

namespace MathMarkup

namespace ParseError

/-- Why a parse fails. -/
inductive Cause where
  | unknownCommand (name : Text)
  | unknownEnvironment (name : Text)
  /-- A brace that is never closed. -/
  | openBrace
  /-- A brace around the name of an environment that is never closed. -/
  | openNameBrace
  | strayBrace
  | openBracket
  | strayBracket
  /-- An environment that reaches the end of the input, by the offset at which it starts. -/
  | neverClosed (name : Text) (offset : Int)
  /-- An environment that the end of another one meets. -/
  | closedBy (name : Text) (offset : Int) (other : Text)
  /-- An environment inside which something outside it is closed. -/
  | openEnvironment (name : Text)
  | strayEnd
  | missingGroup (command : Text) (index : Nat)
  | missingDelimiter (command : Text)
  | missingEnvironmentArgument (name : Text)
  | missingBase (script : Script)
  | missingScript (script : Script)
  | doubleScript (script : Script)
  | tooDeep (limit : Number)
  | misplacedLimits (command : Text)
  | invalidDelimiter (command : Text)
  | openLeft
  | strayRight
  | expectedBegin (found : Option Token)
  | expectedNameBrace (command : Text) (found : Option Token)
  | expectedName (command : Text) (found : Token)
  | emptyName (command : Text)
  | expectedEnd (name : Text) (found : Option Token)
  | otherEnd (name other : Text)
  | expectedCommand
  | expectedBrace
  | expectedBracket
  | unexpectedEnd
  | unexpectedKind (kind : Token.Kind)
  | unexpectedValue (value : Text)
deriving DecidableEq, Repr

/-- How a token, or the lack of one, is described in a message. -/
def describe : Option Token → Text
  | none => "end of input"
  | some t => t.kind.name ++ " " ++ t.value.quoted

namespace Cause

open Diagnostic (Kind)

/-- The kind of failure that a cause makes. -/
def kind : Cause → Kind
  | .unknownCommand _ => .unknownCommand
  | .unknownEnvironment _ => .unknownEnvironment
  | .openBrace | .openNameBrace | .strayBrace => .unmatchedBrace
  | .openBracket | .strayBracket => .unmatchedBracket
  | .neverClosed _ _ | .closedBy _ _ _ | .openEnvironment _ | .strayEnd => .unmatchedEnvironment
  | .missingGroup _ _ | .missingDelimiter _ | .missingEnvironmentArgument _ | .missingBase _
  | .missingScript _ => .missingArgument
  | .doubleScript _ | .tooDeep _ | .misplacedLimits _ | .invalidDelimiter _ | .openLeft
  | .strayRight | .expectedBegin _ | .expectedNameBrace _ _ | .expectedName _ _ | .emptyName _
  | .expectedEnd _ _ | .otherEnd _ _ => .invalidSyntax
  | .expectedCommand | .expectedBrace | .expectedBracket | .unexpectedEnd | .unexpectedKind _
  | .unexpectedValue _ => .unexpectedToken

/-- The tag that ends an environment. -/
def endTag (name : Text) : Text :=
  "\\end\x7b" ++ name ++ "\x7d"

/-- The wording of a cause. -/
def message : Cause → Text
  | .unknownCommand name => "Unknown command: " ++ name
  | .unknownEnvironment name => "Unknown environment: " ++ name
  | .openBrace => "Unmatched '\x7b'"
  | .openNameBrace => "Unmatched '\x7b' in environment name"
  | .strayBrace => "Unexpected '\x7d'"
  | .openBracket => "Unmatched '['"
  | .strayBracket => "Unexpected ']'"
  | .neverClosed name offset =>
    "Environment '" ++ name ++ "' opened at offset " ++ Text.ofInt offset ++ " never closed"
  | .closedBy name offset other =>
    "Environment '" ++ name ++ "' opened at offset " ++ Text.ofInt offset ++ " closed by " ++
      endTag other
  | .openEnvironment name => "Environment '" ++ name ++ "' is not closed"
  | .strayEnd => "\\end without matching \\begin"
  | .missingGroup command index => "Missing argument " ++ Text.ofNat index ++ " for " ++ command
  | .missingDelimiter command => "Missing delimiter after " ++ command
  | .missingEnvironmentArgument name => "Missing argument 1 for environment " ++ name
  | .missingBase script => "'" ++ script.marker ++ "' has no base"
  | .missingScript script => "Missing argument for '" ++ script.marker ++ "'"
  | .doubleScript script => "Double " ++ script.name
  | .tooDeep limit => "Maximum nesting depth of " ++ limit.fullText ++ " exceeded"
  | .misplacedLimits command => command ++ " must follow an operator"
  | .invalidDelimiter command => "Invalid delimiter after " ++ command
  | .openLeft => "Missing \\right for \\left"
  | .strayRight => "\\right without matching \\left"
  | .expectedBegin found => "Expected \\begin, found " ++ describe found
  | .expectedNameBrace command found =>
    "Expected '\x7b' after " ++ command ++ ", found " ++ describe found
  | .expectedName command found =>
    "Expected environment name after " ++ command ++ ", found " ++ describe (some found)
  | .emptyName command => "Expected environment name after " ++ command ++ ", found '\x7d'"
  | .expectedEnd name found => "Expected " ++ endTag name ++ ", found " ++ describe found
  | .otherEnd name other => "Expected " ++ endTag name ++ ", found " ++ endTag other
  | .expectedCommand => "Expected a command"
  | .expectedBrace => "Expected '\x7b'"
  | .expectedBracket => "Expected '['"
  | .unexpectedEnd => "Unexpected end of input"
  | .unexpectedKind kind => "Unexpected " ++ kind.name ++ " token"
  | .unexpectedValue value => "Unexpected token " ++ value.quoted

/-- The command and the number of the argument that is missing. -/
def argument : Cause → Text × Nat
  | .missingGroup command index => (command, index)
  | .missingDelimiter command => (command, 1)
  | .missingEnvironmentArgument name => (name, 1)
  | .missingBase script => (script.marker, 0)
  | .missingScript script => (script.marker, 1)
  | _ => ([], 0)

end Cause

end ParseError

/-- A failed parse: why it fails, the text at fault and its place. -/
structure ParseError where
  cause : ParseError.Cause
  text : Text := []
  place : Option Place := none
deriving DecidableEq, Repr

namespace ParseError

/-- An error at a token. -/
def located (cause : Cause) (token : Token) : ParseError :=
  ⟨cause, token.value, some token.place⟩

/-- An error at a token, or nowhere if there is none. -/
def locatedAt? (cause : Cause) : Option Token → ParseError
  | some token => .located cause token
  | none => ⟨cause, [], none⟩

/-- An error about an environment that a token opens. -/
def named (cause : Cause) (name : Text) (opening : Token) : ParseError :=
  ⟨cause, name, some opening.place⟩

/-- The report of an error. -/
def diagnostic (e : ParseError) : Diagnostic where
  kind := e.cause.kind
  message := e.cause.message
  text := e.text
  offset := e.place.map fun p => p.offset
  line := e.place.map fun p => p.line
  column := e.place.map fun p => p.column
  command := e.cause.argument.1
  argumentIndex := e.cause.argument.2

end ParseError

end MathMarkup
