import MathMarkup.Parser.Expression

/-!
# What commands read

The commands differ in the nodes that they make, but only in few ways in what they read behind them:
nothing, a raw group, one or two groups, a delimiter, everything up to `\right`, or the arguments of
a root. A `Reading` is one of these ways together with the node that is made, and `commandNode` runs
the reading of its command (`commandNode_eq`). What holds of all commands is shown for the readings.
-/

namespace MathMarkup.Parser

/-- What is read behind a command, and what is made of it. -/
inductive Reading where
  | nothing (node : Node)
  | raw (build : Text → Node)
  | one (build : Node → Node)
  | two (build : Node → Node → Node)
  | delimiter (build : Option Text → Node)
  /-- A degree in brackets, if there is one, and a radicand. -/
  | squareRoot
  /-- A degree and a radicand, with `\of` between them or not. -/
  | root
  /-- All up to the delimiter behind `\right`. -/
  | leftRight
  | refused (e : ParseError)

namespace Reading

/-- The root of a radicand, with its degree if there is one. -/
def rootNode (degree : Option Node) (radicand : Node) : Node :=
  match degree with
  | none => .element "msqrt" [] [radicand]
  | some degree => .element "mroot" [] [radicand, degree.slot]

/-- Passes over `\of` if it follows. -/
def skipOf : ParseM Unit := do
  match ← peek with
  | some t => if t.isCommand "\\of" then advance 1
  | none => pure ()

/-- The parser that reads what a reading says. -/
def parser (s : Setup) (nested : Nested) (command : Token) : Reading → ParseM Node
  | .nothing node => return node
  | .raw build => return build (← rawArgument s command 1)
  | .one build => return build (← argument s nested command 1)
  | .two build => do
    let first ← argument s nested command 1
    let second ← argument s nested command 2
    return build first second
  | .delimiter build => return build (← takeDelimiter s command)
  | .squareRoot => do
    let degree ← optionalArgument s nested
    let radicand ← argument s nested command 1
    return rootNode degree radicand
  | .root => do
    let degree ← argument s nested command 1
    skipOf
    let radicand ← argument s nested command 2
    return .element "mroot" [] [radicand, degree]
  | .leftRight => Parser.leftRight s nested command
  | .refused e => throw e

end Reading

/-- A fraction in the given display style. -/
def fractionNode (displayStyle : Option Bool) (numerator denominator : Node) : Node :=
  let fraction : Node := .element "mfrac" [] [numerator, denominator]
  match displayStyle with
  | none => fraction
  | some b => .element "mstyle" [("displaystyle", Command.truthText b)] [fraction]

/-- Text in the given variant, of which the normal one is not written. -/
def textNode (variant content : Text) : Node :=
  .textElement content (if variant = Text.ofString "normal" then [] else [("mathvariant", variant)])

/-- The reading of a command, which stands at the given token. -/
def reading (s : Setup) (command : Token) : Command → Reading
  | .identifier value | .function value => .nothing (.identifier value)
  | .operator value => .nothing (.operator value [])
  | .fence value => .nothing (.operator value [("stretchy", "false")])
  | .largeOperator value =>
    .nothing (.operator value [("largeop", "true"), ("movablelimits", "true")])
  | .integral value => .nothing (.operator value [("largeop", "true")])
  | .limitFunction value => .nothing (.operator value [("movablelimits", "true")])
  | .space width => .nothing (.element "mspace" [("width", width)] [])
  | .lineBreak => .nothing (.element "mspace" [("linebreak", "newline")] [])
  | .sizedSpace => .raw fun width =>
    .element "mspace" [("width", width.trim CodePoint.isBlank)] []
  | .fraction displayStyle => .two (fractionNode displayStyle)
  | .binomial => .two fun upper lower => .row [.operator "(" [],
    .element "mfrac" [("linethickness", "0")] [upper, lower], .operator ")" []]
  | .squareRoot => .squareRoot
  | .root => .root
  | .style variant => .one fun content => .element "mstyle" [("mathvariant", variant)] [content]
  | .text variant => .raw fun raw => textNode variant (textOfRaw s raw)
  | .operatorName => .raw fun name => .identifier (name.trim CodePoint.isBlank)
  | .accent mark => .one fun base =>
    .element "mover" [("accent", "true")] [base, accentNode command mark]
  | .underAccent mark => .one fun base =>
    .element "munder" [("accentunder", "true")] [base, accentNode command mark]
  | .overset => .two fun top base => .element "mover" [] [base, top]
  | .underset => .two fun bottom base => .element "munder" [] [base, bottom]
  | .enclose shape => .one fun content => .element "menclose" [("notation", shape)] [content]
  | .phantom => .one fun content => .element "mphantom" [] [content]
  | .modulus => .one fun modulus => .row [.operator "(" [], .operator "mod" [], modulus,
    .operator ")" []]
  | .left => .leftRight
  | .middle => .delimiter fun d => .operator (d.getD []) [("stretchy", "true")]
  | .sized size => .delimiter fun d =>
    .operator (d.getD []) [("minsize", size), ("maxsize", size)]
  | .limits _ => .refused (.located (.misplacedLimits command.value) command)
  | .beginEnvironment | .closer => .refused (.located (.unexpectedValue command.value) command)

/-- A command reads what its reading says. -/
theorem commandNode_eq (s : Setup) (nested : Nested) (t : Token) (command : Command) :
    commandNode s nested t command = (reading s t command).parser s nested t := by
  cases command with
  | fraction displayStyle => cases displayStyle <;> rfl
  | text variant =>
    simp only [commandNode, reading, Reading.parser, textNode]
    congr 1
    funext raw
    split <;> rfl
  | squareRoot =>
    simp only [commandNode, reading, Reading.parser]
    congr 1
    funext degree
    congr 1
    funext radicand
    cases degree <;> rfl
  | root =>
    -- The definition goes on separately behind each outcome of looking for the word.
    simp only [commandNode, reading, Reading.parser, Reading.skipOf, bind_assoc]
    congr 1
    funext degree
    congr 1
    funext next
    cases next with
    | none => simp only [pure_bind]
    | some t =>
      by_cases h : t.isCommand "\\of" = true
      · simp only [if_pos h]
      · simp only [if_neg h, pure_bind]
  | _ => rfl

/-! ## Groups

Groups in braces and groups in brackets differ in their delimiters, their scopes and their errors
only. -/

/-- The content of a group with the given delimiters. It makes a scope, and has an error for a
missing opener and one for a missing closer. -/
def enclosed (s : Setup) (nested : Nested) (opens closes : Token → Bool) (kind : Scope.Kind)
    (name : Text) (expected unclosed : ParseError.Cause) : ParseM Node := do
  match ← next with
  | none => throw (.locatedAt? expected none)
  | some opening =>
    if opens opening then
      let inside ← enter s nested ⟨kind, name, opening⟩
      let content ← inside.content fun _ t => closes t
      match ← next with
      | none => throw (.located unclosed opening)
      | some _ =>
        popScope
        return content
    else
      throw (.located expected opening)

theorem group_eq (s : Setup) (nested : Nested) :
    group s nested = enclosed s nested Token.isOpenBrace Token.isCloseBrace .brace "\x7b"
      .expectedBrace .openBrace := rfl

theorem bracketContent_eq (s : Setup) (nested : Nested) :
    bracketContent s nested = enclosed s nested Token.isOpenBracket Token.isCloseBracket .bracket
      "[" .expectedBracket .openBracket := rfl

/-! ## Parsers that trace

Whether a parse is traced decides on entries of the log only. The definitions go on separately in
the two cases; here the entry is a step of its own. -/

/-- Writes an entry to the log when tracing. -/
def trace (s : Setup) (part : Log.Part) (message : Text) : ParseM Unit :=
  if s.debug then say .debug part message else pure ()

theorem trace_bind {α : Type} (s : Setup) (part : Log.Part) (message : Text)
    (f : Unit → ParseM α) :
    trace s part message >>= f =
      if s.debug then say .debug part message >>= f else f () := by
  unfold trace
  split <;> rfl

/-- The argument of an environment, if it takes one. -/
def environmentArgument? (s : Setup) (name : Text) (opening : Token) (e : Environment)
    (stop : Nat) : ParseM Text :=
  if e.takesArgument then environmentArgument s name opening stop else pure []

/-- What an environment reads behind its name, up to and including its end. -/
def environmentRest (s : Setup) (nested : Nested) (name : Text) (opening : Token)
    (e : Environment) (stop : Nat) : ParseM Node := do
  let inside ← enter s nested ⟨.environment, name, opening⟩
  let before ← get
  modify fun c => { c with environment := some name }
  let argument ← environmentArgument? s name opening e stop
  let node ← environmentContent inside name e stop argument
  modify fun c => { c with environment := before.environment }
  popScope
  takeEnd name stop
  return node

/-- The entry for an environment whose end was found. -/
def environmentEntry (name : Text) (e : Environment) (opening closing : Token) : Text :=
  "Environment '" ++ name ++ "' (" ++ e.kind.name ++ ") from offset " ++
    Text.ofInt opening.offset ++ " to " ++ Text.ofInt closing.offset

theorem environment_eq (s : Setup) (nested : Nested) :
    environment s nested = (do
      match ← next with
      | none => throw (.locatedAt? (.expectedBegin none) none)
      | some opening =>
        if opening.isCommand "\\begin" then
          let name ← takeName opening
          let e ← environmentNamed s name opening
          let c ← get
          match findEnd name opening [] c.position c.rest with
          | .error error => throw error
          | .ok (stop, closing) =>
            trace s .environments (environmentEntry name e opening closing)
            environmentRest s nested name opening e stop
        else
          throw (.located (.expectedBegin (some opening)) opening)) := by
  unfold environment
  congr 1
  funext first
  cases first with
  | none => rfl
  | some opening =>
    dsimp only
    congr 2
    funext name
    congr 1
    funext e
    congr 1
    funext c
    cases findEnd name opening [] c.position c.rest with
    | error error => rfl
    | ok found =>
      simp only [trace_bind, environmentRest, environmentArgument?, environmentEntry]
      cases e.takesArgument <;> rfl

/-- The entry for a command. -/
def commandEntry (t : Token) (meaning : Command) : Text :=
  "Command " ++ t.value ++ " (" ++ meaning.kindName ++ ") at offset " ++ Text.ofInt t.offset

/-- What the command at the cursor reads once its token is known. -/
def commandAt (s : Setup) (nested : Nested) (t : Token) : ParseM Node := do
  match s.grammar.commands.get? t.value with
  | none => unknownCommand s t
  | some .beginEnvironment => environment s nested
  | some .closer => throw (Scope.misplaced (← get).scopes t)
  | some (.limits _) => throw (.located (.misplacedLimits t.value) t)
  | some meaning =>
    advance 1
    trace s .commands (commandEntry t meaning)
    (reading s t meaning).parser s nested t

theorem command_eq (s : Setup) (nested : Nested) :
    command s nested = (do
      match ← peek with
      | none => throw (.locatedAt? .expectedCommand none)
      | some t =>
        if t.kind = .command then commandAt s nested t
        else throw (.located .expectedCommand t)) := by
  unfold command
  congr 1
  funext first
  cases first with
  | none => rfl
  | some t =>
    dsimp only
    congr 1
    unfold commandAt
    cases s.grammar.commands.get? t.value with
    | none => rfl
    | some meaning =>
      cases meaning <;> simp only [trace_bind, commandEntry, commandNode_eq]

/-- The entry for an atom. -/
def atomEntry (t : Token) : Text :=
  "Parsing " ++ t.kind.name ++ " " ++ t.value.quoted ++ " at offset " ++ Text.ofInt t.offset

/-- An atom that starts at a token. When tracing, an element says where it starts. -/
def placedNode (s : Setup) (t : Token) (node : Node) : Node :=
  if s.debug then node.addAttribute "data-offset" (Text.ofInt t.offset) else node

theorem atom_eq (s : Setup) (nested : Nested) :
    atom s nested = (do
      match ← peek with
      | none => throw (.locatedAt? .unexpectedEnd none)
      | some t =>
        trace s .expressions (atomEntry t)
        return placedNode s t (← atomAt s nested t)) := by
  unfold atom
  congr 1
  funext first
  cases first with
  | none => rfl
  | some t =>
    simp only [trace_bind, atomEntry, placedNode]
    cases s.debug
    · simp
    · rfl

end MathMarkup.Parser
