import MathMarkup.Parser.Command
import MathMarkup.Parser.Script
import MathMarkup.Token.Lexer

/-!
# Parsing expressions

An expression is a run of atoms with their scripts, up to a stop or to the end of the input. Atoms
that enclose something lead back to expressions, one scope deeper.

## Termination

`inside` recurses on the number of scopes that may still be opened: the parsers for a scope are
those for an expression that may open one scope less. Where none may be opened there are no parsers,
and opening a scope is the error that the nesting is too deep. A limit that is no finite number is
replaced by the number of tokens, since each scope takes one. The loop of an expression takes at
least one token in each round, so it has as many rounds as there are tokens.
-/

namespace MathMarkup.Parser

/-! ## Atoms -/

/-- A plain symbol: an operator, a variable, or text. -/
def symbolNode (grammar : Grammar) (value : Text) : Node :=
  match grammar.operators.get? value with
  | some shown => .operator shown []
  | none => if value.isAlphabetic then .identifier value else .textElement value []

/-- An atom that starts at the given token, which is the next one. -/
def atomAt (s : Setup) (nested : Nested) (t : Token) : ParseM Node := do
  match t.kind with
  | .command => command s nested
  | .symbol =>
    advance 1
    return symbolNode s.grammar t.value
  | .number =>
    advance 1
    return .number t.value
  | .text =>
    advance 1
    return .textElement t.value []
  | .brace =>
    if t.isOpenBrace then group s nested else throw (Scope.misplaced (← get).scopes t)
  | .bracket =>
    if t.isOpenBracket then bracketGroup s nested else throw (Scope.misplaced (← get).scopes t)
  | .whitespace => throw (.located (.unexpectedKind .whitespace) t)

/-- The atom at the cursor. When tracing, an element says where it starts. -/
def atom (s : Setup) (nested : Nested) : ParseM Node := do
  match ← peek with
  | none => throw (.locatedAt? .unexpectedEnd none)
  | some t =>
    if s.debug then
      say .debug .expressions ("Parsing " ++ t.kind.name ++ " " ++ t.value.quoted ++
        " at offset " ++ Text.ofInt t.offset)
      let node ← atomAt s nested t
      return node.addAttribute "data-offset" (Text.ofInt t.offset)
    else
      atomAt s nested t

/-! ## Scripts and limits -/

/-- The argument of a script: a group, or a single atom. -/
def scriptArgument (s : Setup) (nested : Nested) (stop : Stop) (script : Script)
    (marker : Token) : ParseM Node := do
  let missing : ParseError := .located (.missingScript script) marker
  let c ← get
  match c.rest with
  | [] => throw missing
  | t :: _ =>
    if stop c.position t || (Scope.closedBy? t).isSome || (Script.ofToken? t).isSome then
      throw missing
    else if t.isOpenBrace then
      return (← group s nested).slot
    else
      atom s nested

/-- Takes a script and binds it to the latest sibling. -/
def takeScript (s : Setup) (nested : Nested) (stop : Stop) (script : Script) (marker : Token)
    (siblings : List Sibling) : ParseM (List Sibling) := do
  advance 1
  if siblings.isEmpty then
    throw (.located (.missingBase script) marker)
  let argument ← scriptArgument s nested stop script marker
  match bindScript? script argument siblings with
  | some bound => return bound
  | none => throw (.located (.doubleScript script) marker)

/-- The placement of limits that a token asks for. -/
def limits? (grammar : Grammar) (t : Token) : Option Bool :=
  if t.kind = .command then
    match grammar.commands.get? t.value with
    | some (.limits movable) => some movable
    | _ => none
  else none

/-- Takes a command on the placement of limits. It changes the latest sibling if that is an
operator, and nothing otherwise. -/
def takeLimits (movable : Bool) (t : Token) (siblings : List Sibling) :
    ParseM (List Sibling) := do
  advance 1
  let ignored : ParseM Unit := say .debug .expressions (t.value ++ " at offset " ++
    Text.ofInt t.offset ++ " does not follow an operator, ignored")
  match siblings with
  | .atom node :: earlier =>
    if node.hasName "mo" then
      return .atom (node.setAttribute "movablelimits" (Command.truthText movable)) :: earlier
    else
      ignored
      return siblings
  | _ =>
    ignored
    return siblings

/-! ## Expressions -/

/-- The siblings of an expression, latest first, in at most the given number of rounds. -/
def siblings (s : Setup) (nested : Nested) (stop : Stop) :
    (rounds : Nat) → List Sibling → ParseM (List Sibling)
  | 0, done => return done
  | rounds + 1, done => do
    let c ← get
    match c.rest with
    | [] => return done
    | t :: _ =>
      if stop c.position t then
        return done
      else if (Scope.closedBy? t).isSome then
        throw (Scope.misplaced c.scopes t)
      else
        match Script.ofToken? t, limits? s.grammar t with
        | some script, _ =>
          siblings s nested stop rounds (← takeScript s nested stop script t done)
        | none, some movable =>
          siblings s nested stop rounds (← takeLimits movable t done)
        | none, none =>
          siblings s nested stop rounds (.atom (← atom s nested) :: done)

/-- An expression up to a stop or the end of the input. -/
def expressionWith (s : Setup) (nested : Nested) (stop : Stop) : ParseM Node := do
  return collapseSiblings (← siblings s nested stop (← get).rest.length [])

/-- The parsers inside a scope when the given number of scopes may still be opened. -/
def inside (s : Setup) : Nat → Nested
  | 0 => none
  | n + 1 => some {
      content := fun stop => expressionWith s (inside s n) stop
      optional := fun c => optionalArgument s (inside s n) c }

/-- How many scopes may be opened at a cursor. -/
def allowance (s : Setup) (c : Cursor) : Nat :=
  match s.options.maxNestingDepth.number.ceiling? with
  | some limit => limit - c.scopes.length
  | none => c.rest.length

/-- Runs a parser with as many further scopes as the limit on nesting leaves at the cursor. -/
def withAllowance {α : Type} (s : Setup) (p : Nested → ParseM α) : ParseM α := do
  p (inside s (allowance s (← get)))

/-- An expression up to a stop, within the limit on nesting. -/
def expression (s : Setup) (stop : Stop) : ParseM Node :=
  withAllowance s fun nested => expressionWith s nested stop

/-- The stop that never comes. -/
def noStop : Stop := fun _ _ => false

end MathMarkup.Parser

namespace MathMarkup

/-- The tree that a source stands for, or the error that stops the parse. -/
def parse (grammar : Grammar) (options : Options) (source : Text) :
    Logged (Except ParseError Node) := do
  let tokens ← Token.tokenizeLogged source
  let setup : Parser.Setup := ⟨grammar, options, source⟩
  if setup.debug then
    .say .debug .parser ("Parsing " ++ Text.ofNat tokens.length ++ " tokens: " ++
      Text.quoted (source.take 80))
  match Parser.expression setup Parser.noStop |>.run { rest := tokens } with
  | .ok node c => ⟨.ok node, c.log.reverse⟩
  | .error e c => ⟨.error e, c.log.reverse⟩

end MathMarkup
