import MathMarkup.Parser.Expression

/-!
# Parsing step by step

A stepper holds the tokens and the state of a parse, and a caller drives it by single operations.
The caller may put the cursor anywhere. Behind the last token it is at the end of the input; before
the first one there is no token either, and what only looks for a token acts as at the end, but the
input is not at its end, so that an expression cannot be read.
-/

namespace MathMarkup.Parser

/-- A parse that is driven from outside. -/
structure Stepper where
  setup : Setup
  tokens : List Token
  position : Int := 0
  /-- The open scopes from the innermost outwards. -/
  scopes : List Scope := []
  environment : Option Text := none

namespace Stepper

/-- The operations of a stepper. A token that an operation is given is named by its index, which may
count from the end. -/
inductive Step where
  | peek (offset : Int)
  | consume
  | atEnd
  | seek (position : Int)
  /-- Opens a scope unless as many as the limit are open; without one the limit of the options
  counts. -/
  | openScope (kind : Scope.Kind) (name : Text) (token : Int) (limit : Option Number)
  | closeScope
  | innermost (kind : Option Scope.Kind)
  /-- An expression up to a token with the given value. -/
  | expression (stop : Option Text)
  | command
  | environment
  | atom
  | group
  | bracketGroup
  | optionalArgument
  | rawGroup
  | delimiter (command : Int)
  | findEnd (name : Text) (opening : Int)

/-- What an operation gives. -/
inductive Answer where
  | nothing
  | flag (b : Bool)
  | token (t : Option Token)
  | scope (s : Option Scope)
  | node (n : Option Node)
  | text (t : Option Text)

/-- Why an operation fails. -/
inductive Failure where
  | parse (e : ParseError)
  /-- There is no token to look at, though the input is not at its end; a stop asks for the value of
  the token, and without a stop its kind is asked for. -/
  | noToken (asksValue : Bool)
  /-- There is no token with such an index. -/
  | noSuchIndex
  /-- There is no scope to close. -/
  | noScope

/-- The token at an index. A negative one counts from the end. -/
def tokenAt? (s : Stepper) (index : Int) : Option Token :=
  let i := if index < 0 then index + s.tokens.length else index
  if i < 0 then none else s.tokens[i.toNat]?

/-- The token at a distance from the cursor. -/
def peek? (s : Stepper) (offset : Int) : Option Token :=
  let i := s.position + offset
  if i < 0 then none else s.tokens[i.toNat]?

/-- The cursor of a parser. -/
def cursor (s : Stepper) : Cursor where
  position := s.position.toNat
  rest := if s.position < 0 then [] else s.tokens.drop s.position.toNat
  scopes := s.scopes
  environment := s.environment

/-- The state behind a parser. A cursor before the first token stays there. -/
def moveTo (s : Stepper) (c : Cursor) : Stepper :=
  { s with
    position := if s.position < 0 then s.position else c.position
    scopes := c.scopes
    environment := c.environment }

/-- Runs a parser. -/
def runParser {α : Type} (s : Stepper) (p : ParseM α) (answer : α → Answer) :
    Except Failure (Answer × Stepper) :=
  match p.run s.cursor with
  | .ok a c => .ok (answer a, s.moveTo c)
  | .error e _ => .error (.parse e)

/-- Runs a parser that may open as many scopes as the limit on nesting leaves. -/
def runNested {α : Type} (s : Stepper) (p : Nested → ParseM α) (answer : α → Answer) :
    Except Failure (Answer × Stepper) :=
  s.runParser (withAllowance s.setup p) answer

/-- The token that an operation names. -/
def named (s : Stepper) (index : Int) : Except Failure Token :=
  match s.tokenAt? index with
  | some t => .ok t
  | none => .error .noSuchIndex

/-- The tokens from the cursor on. Those before the first one are the last ones once more. -/
def tokensFrom? (s : Stepper) : Option (List Token) :=
  if s.position < 0 then
    let before := (-s.position).toNat
    if before ≤ s.tokens.length then
      some (s.tokens.drop (s.tokens.length - before) ++ s.tokens)
    else none
  else some (s.tokens.drop s.position.toNat)

/-- The stop at a token with the given value, or nowhere. -/
def stopAtValue (value : Option Text) : Stop := fun _ t => some t.value = value

/-- Opens a scope if the limit allows it. -/
def open? (s : Stepper) (scope : Scope) (limit : Number) : Except Failure (Answer × Stepper) :=
  if limit.isAtMost s.scopes.length then .error (.parse (.located (.tooDeep limit) scope.token))
  else .ok (.nothing, { s with scopes := scope :: s.scopes })

/-- One operation: what it gives, and the state behind it. -/
def run (s : Stepper) : Step → Except Failure (Answer × Stepper)
  | .peek offset => .ok (.token (s.peek? offset), s)
  | .consume =>
    match s.peek? 0 with
    | none => .ok (.token none, s)
    | some t => .ok (.token (some t), { s with position := s.position + 1 })
  | .atEnd => .ok (.flag (s.tokens.length ≤ s.position), s)
  | .seek position => .ok (.nothing, { s with position := position })
  | .openScope kind name token limit => do
    let token ← s.named token
    s.open? ⟨kind, name, token⟩ (limit.getD s.setup.options.maxNestingDepth.number)
  | .closeScope =>
    match s.scopes with
    | [] => .error .noScope
    | scope :: outer => .ok (.scope (some scope), { s with scopes := outer })
  | .innermost none => .ok (.scope s.scopes.head?, s)
  | .innermost (some kind) => .ok (.scope (Scope.innermost? kind s.scopes), s)
  | .expression stop =>
    if s.position < 0 then .error (.noToken stop.isSome)
    else s.runParser (expression s.setup (stopAtValue stop)) fun n => .node (some n)
  | .command => s.runNested (Parser.command s.setup) fun n => .node (some n)
  | .environment => s.runNested (Parser.environment s.setup) fun n => .node (some n)
  | .atom => s.runNested (Parser.atom s.setup) fun n => .node (some n)
  | .group => s.runNested (Parser.group s.setup) fun n => .node (some n)
  | .bracketGroup => s.runNested (Parser.bracketGroup s.setup) fun n => .node (some n)
  | .optionalArgument => s.runNested (Parser.optionalArgument s.setup) .node
  | .rawGroup => s.runParser (Parser.rawGroup s.setup) fun t => .text (some t)
  | .delimiter command => do
    let command ← s.named command
    s.runParser (takeDelimiter s.setup command) .text
  | .findEnd name opening => do
    let opening ← s.named opening
    match s.tokensFrom? with
    | none => .error .noSuchIndex
    | some tokens =>
      match Parser.findEnd name opening [] 0 tokens with
      | .ok (_, t) => .ok (.token (some t), s)
      | .error e => .error (.parse e)

end Stepper

end MathMarkup.Parser
