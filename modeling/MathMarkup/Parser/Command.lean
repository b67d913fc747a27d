import MathMarkup.Parser.Environment

/-!
# Parsing commands

A command token is looked up in the grammar, and its meaning decides what is read behind it:
nothing, groups in braces, a raw group, a delimiter, or everything up to the matching `\right`.
-/

namespace MathMarkup.Parser

/-! ## Arguments -/

/-- Fails unless an opening brace follows, which starts the given argument of a command. -/
def expectGroup (command : Token) (index : Nat) : ParseM Unit := do
  let missing : ParseError := .located (.missingGroup command.value index) command
  match ← peek with
  | none => throw missing
  | some t => if t.isOpenBrace then return () else throw missing

/-- An argument of a command, as an element. -/
def argument (s : Setup) (nested : Nested) (command : Token) (index : Nat) : ParseM Node := do
  expectGroup command index
  return (← group s nested).slot

/-- An argument of a command, as source text. -/
def rawArgument (s : Setup) (command : Token) (index : Nat) : ParseM Text := do
  expectGroup command index
  rawGroup s

/-! ## Delimiters -/

/-- The delimiter that a token is. A point is the delimiter that is not shown, an angle is shown as
an angle bracket, and of the commands only fences are delimiters. -/
def delimiter? (grammar : Grammar) (t : Token) : Option (Option Text) :=
  match t.kind with
  | .symbol =>
    if t.value = Text.ofString "." then some none
    else if t.value = Text.ofString "<" then some (some "⟨")
    else if t.value = Text.ofString ">" then some (some "⟩")
    else some (some t.value)
  | .bracket => some (some t.value)
  | .command =>
    match grammar.commands.get? t.value with
    | some (.fence value) => some (some value)
    | _ => none
  | _ => none

/-- The delimiter behind a command; none for the one that is not shown. -/
def takeDelimiter (s : Setup) (command : Token) : ParseM (Option Text) := do
  match ← next with
  | none => throw (.located (.missingDelimiter command.value) command)
  | some t =>
    match delimiter? s.grammar t with
    | some d => return d
    | none => throw (.located (.invalidDelimiter command.value) t)

/-- The stop at `\right`. -/
def stopAtRight : Stop := fun _ t => t.isCommand "\\right"

/-- A delimiter that grows with what it encloses. -/
def fenceNode (delimiter : Text) : Node :=
  .operator delimiter [("fence", "true"), ("stretchy", "true")]

/-- Everything from a delimiter behind `\left` to the one behind its `\right`. -/
def leftRight (s : Setup) (nested : Nested) (command : Token) : ParseM Node := do
  let opening ← takeDelimiter s command
  let inside ← enter s nested ⟨.left, command.value, command⟩
  let content ← inside.content stopAtRight
  match ← next with
  | none => throw (.located .openLeft command)
  | some right =>
    popScope
    let closing ← takeDelimiter s right
    return .collapse ((opening.map fenceNode).toList ++
      (if content.isEmpty then [] else [content]) ++ (closing.map fenceNode).toList)

/-! ## Meanings -/

/-- An accent, which stretches if its command is one of the stretchy ones. -/
def accentNode (command : Token) (mark : Text) : Node :=
  .operator mark
    [("stretchy", Command.truthText (Command.stretchyAccents.contains command.value))]

/-- What a command that has been taken stands for, with all that it reads behind it. -/
def commandNode (s : Setup) (nested : Nested) (command : Token) : Command → ParseM Node
  | .identifier value => return .identifier value
  | .function value => return .identifier value
  | .operator value => return .operator value []
  | .fence value => return .operator value [("stretchy", "false")]
  | .largeOperator value =>
    return .operator value [("largeop", "true"), ("movablelimits", "true")]
  | .integral value => return .operator value [("largeop", "true")]
  | .limitFunction value => return .operator value [("movablelimits", "true")]
  | .space width => return .element "mspace" [("width", width)] []
  | .lineBreak => return .element "mspace" [("linebreak", "newline")] []
  | .sizedSpace => do
    let width ← rawArgument s command 1
    return .element "mspace" [("width", width.trim CodePoint.isBlank)] []
  | .fraction displayStyle => do
    let numerator ← argument s nested command 1
    let denominator ← argument s nested command 2
    let fraction : Node := .element "mfrac" [] [numerator, denominator]
    match displayStyle with
    | none => return fraction
    | some b => return .element "mstyle" [("displaystyle", Command.truthText b)] [fraction]
  | .binomial => do
    let upper ← argument s nested command 1
    let lower ← argument s nested command 2
    return .row [.operator "(" [], .element "mfrac" [("linethickness", "0")] [upper, lower],
      .operator ")" []]
  | .squareRoot => do
    let degree ← optionalArgument s nested
    let radicand ← argument s nested command 1
    match degree with
    | none => return .element "msqrt" [] [radicand]
    | some degree => return .element "mroot" [] [radicand, degree.slot]
  | .root => do
    let degree ← argument s nested command 1
    match ← peek with
    | some t => if t.isCommand "\\of" then advance 1
    | none => pure ()
    let radicand ← argument s nested command 2
    return .element "mroot" [] [radicand, degree]
  | .style variant => do
    let content ← argument s nested command 1
    return .element "mstyle" [("mathvariant", variant)] [content]
  | .text variant => do
    let content := textOfRaw s (← rawArgument s command 1)
    if variant = Text.ofString "normal" then
      return .textElement content []
    else
      return .textElement content [("mathvariant", variant)]
  | .operatorName => do
    let name ← rawArgument s command 1
    return .identifier (name.trim CodePoint.isBlank)
  | .accent mark => do
    let base ← argument s nested command 1
    return .element "mover" [("accent", "true")] [base, accentNode command mark]
  | .underAccent mark => do
    let base ← argument s nested command 1
    return .element "munder" [("accentunder", "true")] [base, accentNode command mark]
  | .overset => do
    let top ← argument s nested command 1
    let base ← argument s nested command 2
    return .element "mover" [] [base, top]
  | .underset => do
    let bottom ← argument s nested command 1
    let base ← argument s nested command 2
    return .element "munder" [] [base, bottom]
  | .enclose shape => do
    let content ← argument s nested command 1
    return .element "menclose" [("notation", shape)] [content]
  | .phantom => do
    let content ← argument s nested command 1
    return .element "mphantom" [] [content]
  | .modulus => do
    let modulus ← argument s nested command 1
    return .row [.operator "(" [], .operator "mod" [], modulus, .operator ")" []]
  | .left => leftRight s nested command
  | .middle => do
    let delimiter ← takeDelimiter s command
    return .operator (delimiter.getD []) [("stretchy", "true")]
  | .sized size => do
    let delimiter ← takeDelimiter s command
    return .operator (delimiter.getD []) [("minsize", size), ("maxsize", size)]
  | .limits _ => throw (.located (.misplacedLimits command.value) command)
  | .beginEnvironment => throw (.located (.unexpectedValue command.value) command)
  | .closer => throw (.located (.unexpectedValue command.value) command)

/-- Whether a command that is not known stops the parse. -/
def rejectsUnknown (s : Setup) : Bool :=
  s.options.rejectsUnknownCommands.isTruthy

/-- A command that is not known: shown as text, or an error. -/
def unknownCommand (s : Setup) (command : Token) : ParseM Node := do
  if rejectsUnknown s then
    throw (.located (.unknownCommand command.value) command)
  else
    say .info .commands ("Unknown command " ++ command.value ++ " at offset " ++
      Text.ofInt command.offset ++ ", emitting it as text")
    advance 1
    return .textElement command.value []

/-- The command at the cursor with all that it reads behind it. -/
def command (s : Setup) (nested : Nested) : ParseM Node := do
  match ← peek with
  | none => throw (.locatedAt? .expectedCommand none)
  | some t =>
    if t.kind = .command then
      match s.grammar.commands.get? t.value with
      | none => unknownCommand s t
      | some .beginEnvironment => environment s nested
      | some .closer => throw (Scope.misplaced (← get).scopes t)
      | some (.limits _) => throw (.located (.misplacedLimits t.value) t)
      | some meaning =>
        advance 1
        if s.debug then
          say .debug .commands ("Command " ++ t.value ++ " (" ++ meaning.kindName ++
            ") at offset " ++ Text.ofInt t.offset)
        commandNode s nested t meaning
    else
      throw (.located .expectedCommand t)

end MathMarkup.Parser
