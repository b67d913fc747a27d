import MathMarkup.Parser.Group
import MathMarkup.Text.Letter

/-!
# Parsing environments

An environment runs from `\begin{name}` to the `\end{name}` that belongs to it. That end is looked
for before the content is parsed, with nested environments skipped in pairs; the content then stops
at the position found. The content is one expression, or the cells of a table cut at `&` and `\\`.

## Termination

`findEnd` and the readers of names recurse on the tokens. The loop over the cells of a table takes a
separator in each round but the last, so one round more than there are tokens is enough.
-/

namespace MathMarkup.Parser

/-! ## Names -/

/-- Whether a token may stand in the name of an environment. -/
def isNamePiece (t : Token) : Bool :=
  t.kind = .symbol && (t.value.isAlphabetic || t.value = Text.ofString "*")

/-- The pieces of a name up to its closing brace, and the number of tokens that they take with it.
-/
def scanPieces? : List Token → Option (List Text × Nat)
  | [] => none
  | t :: rest =>
    if t.isCloseBrace then some ([], 1)
    else if isNamePiece t then (scanPieces? rest).map fun (pieces, n) => (t.value :: pieces, n + 1)
    else none

/-- The name in braces at the start of the tokens, if there is one, and the number of tokens that it
takes. -/
def scanName? : List Token → Option (Text × Nat)
  | [] => none
  | t :: rest =>
    if t.isOpenBrace then
      match scanPieces? rest with
      | some (piece :: pieces, n) => some ((piece :: pieces).flatten, n + 1)
      | _ => none
    else none

/-- The pieces of a name and the number of tokens up to and including the closing brace. -/
def readPieces (command opening : Token) : List Token → Except ParseError (List Text × Nat)
  | [] => .error (.located .openNameBrace opening)
  | t :: rest =>
    if t.isCloseBrace then .ok ([], 1)
    else if isNamePiece t then
      match readPieces command opening rest with
      | .ok (pieces, n) => .ok (t.value :: pieces, n + 1)
      | .error e => .error e
    else .error (.located (.expectedName command.value t) t)

/-- The name in braces behind a command, and the number of tokens that it takes. -/
def readName (command : Token) : List Token → Except ParseError (Text × Nat)
  | [] => .error (.located (.expectedNameBrace command.value none) command)
  | opening :: rest =>
    if opening.isOpenBrace then
      match readPieces command opening rest with
      | .ok ([], _) => .error (.located (.emptyName command.value) opening)
      | .ok (pieces, n) => .ok (pieces.flatten, n + 1)
      | .error e => .error e
    else .error (.located (.expectedNameBrace command.value (some opening)) opening)

/-- Takes the name in braces behind a command. -/
def takeName (command : Token) : ParseM Text := do
  match readName command (← get).rest with
  | .error e => throw e
  | .ok (name, n) =>
    advance n
    return name

/-! ## The end of an environment -/

/-- The `\end` that closes the environment `name`, with its position. `inner` lists the environments
opened on the way and not yet closed, innermost first, and `position` is that of the first token.
A `\begin` or `\end` without a name in braces is passed over. -/
def findEnd (name : Text) (opening : Token) :
    (inner : List (Text × Token)) → (position : Nat) → List Token →
      Except ParseError (Nat × Token)
  | (other, token) :: _, _, [] =>
    .error (.named (.neverClosed other token.offset) other token)
  | [], _, [] => .error (.named (.neverClosed name opening.offset) name opening)
  | inner, position, t :: rest =>
    if t.isCommand "\\begin" then
      match scanName? rest with
      | none => findEnd name opening inner (position + 1) rest
      | some (other, _) => findEnd name opening ((other, t) :: inner) (position + 1) rest
    else if t.isCommand "\\end" then
      match scanName? rest, inner with
      | none, _ => findEnd name opening inner (position + 1) rest
      | some (other, _), [] =>
        if other = name then .ok (position, t)
        else .error (.named (.closedBy name opening.offset other) name opening)
      | some (other, _), (expected, token) :: outer =>
        if other = expected then findEnd name opening outer (position + 1) rest
        else .error (.named (.closedBy expected token.offset other) expected token)
    else findEnd name opening inner (position + 1) rest

/-! ## Content -/

/-- The stop at a position. -/
def stopAt (position : Nat) : Stop := fun p _ => p = position

/-- Whether a token separates the cells of a row. -/
def isCellSeparator (t : Token) : Bool := t.isSymbol "&"

/-- Whether a token separates the rows of a table. -/
def isRowSeparator (t : Token) : Bool := t.isCommand "\\\\"

/-- The stop at the end of a cell. -/
def stopAtCell (position : Nat) : Stop := fun p t =>
  p = position || isCellSeparator t || isRowSeparator t

/-- The rows of a table up to the position of its end. `cells` are those of the row at hand, latest
first, and `rows` the finished rows, latest first. An argument in brackets behind a row separator is
a hint on spacing and is dropped. -/
def tableRows (inside : Inside) (stop : Nat) :
    (rounds : Nat) → (cells : List Node) → (rows : List (List Node)) → ParseM (List (List Node))
  | 0, cells, rows => return (cells.reverse :: rows).reverse
  | rounds + 1, cells, rows => do
    let cell ← inside.content (stopAtCell stop)
    let c ← get
    match c.rest with
    | [] => return ((cell :: cells).reverse :: rows).reverse
    | t :: _ =>
      if c.position = stop then
        return ((cell :: cells).reverse :: rows).reverse
      else
        advance 1
        if isRowSeparator t then
          let _ ← inside.optional
          tableRows inside stop rounds [] ((cell :: cells).reverse :: rows)
        else
          tableRows inside stop rounds (cell :: cells) rows

/-- The rows without a last one that only a row separator at the end leaves behind. -/
def dropEmptyRow (rows : List (List Node)) : List (List Node) :=
  match rows.reverse with
  | [last] :: row :: earlier => if last.isEmpty then (row :: earlier).reverse else rows
  | _ => rows

/-- A table of the given rows. -/
def tableNode (rows : List (List Node)) (columnAlign : Text) : Node :=
  .element "mtable" (if columnAlign.isEmpty then [] else [("columnalign", columnAlign)])
    (rows.map fun cells => .element "mtr" [] (cells.map fun cell => .element "mtd" [] [cell]))

/-- The content of an environment up to the position of its end. -/
def environmentContent (inside : Inside) (name : Text) (e : Environment) (stop : Nat)
    (argument : Text) : ParseM Node := do
  match e.kind with
  | .display =>
    let content ← inside.content (stopAt stop)
    return .element "mstyle" [("displaystyle", "true")] [content]
  | .container =>
    let content ← inside.content (stopAt stop)
    return .element "mrow" [("class", "latex-" ++ name)] [content]
  | .table =>
    let rows ← tableRows inside stop ((← get).rest.length + 1) [] []
    return tableNode (dropEmptyRow rows) e.columnAlign
  | .fencedTable =>
    let rows ← tableRows inside stop ((← get).rest.length + 1) [] []
    return .element "mfenced" [("open", e.opening), ("close", e.closing)]
      [tableNode (dropEmptyRow rows) e.columnAlign]
  | .array =>
    let rows ← tableRows inside stop ((← get).rest.length + 1) [] []
    return tableNode (dropEmptyRow rows) (Environment.columnAlignment argument)

/-- The raw argument of an environment that takes one. -/
def environmentArgument (s : Setup) (name : Text) (opening : Token) (stop : Nat) :
    ParseM Text := do
  let c ← get
  match c.rest with
  | t :: _ =>
    if c.position ≠ stop ∧ t.isOpenBrace then
      rawGroup s
    else
      throw (.named (.missingEnvironmentArgument name) name opening)
  | [] => throw (.named (.missingEnvironmentArgument name) name opening)

/-- Takes the `\end{name}` at the given position. -/
def takeEnd (name : Text) (stop : Nat) : ParseM Unit := do
  let c ← get
  match ← next with
  | none => throw (.locatedAt? (.expectedEnd name none) none)
  | some t =>
    if c.position = stop then
      let closing ← takeName t
      if closing ≠ name then
        throw (.located (.otherEnd name closing) t)
    else
      throw (.located (.expectedEnd name (some t)) t)

/-- What is known about the environment `name`. An unknown one stops a strict parse and otherwise
groups its content. -/
def environmentNamed (s : Setup) (name : Text) (opening : Token) : ParseM Environment := do
  match s.grammar.environments.get? name with
  | some e => return e
  | none =>
    if s.options.strictMode.isTruthy then
      throw (.named (.unknownEnvironment name) name opening)
    else
      say .info .environments ("Unknown environment '" ++ name ++ "' at offset " ++
        Text.ofInt opening.offset ++ ", using generic container")
      return .generic

/-- The environment that starts at the cursor. -/
def environment (s : Setup) (nested : Nested) : ParseM Node := do
  match ← next with
  | none => throw (.locatedAt? (.expectedBegin none) none)
  | some opening =>
    if opening.isCommand "\\begin" then
      let name ← takeName opening
      let e ← environmentNamed s name opening
      let c ← get
      match findEnd name opening [] c.position c.rest with
      | .error error => throw error
      | .ok (stop, closing) =>
        if s.debug then
          say .debug .environments ("Environment '" ++ name ++ "' (" ++ e.kind.name ++
            ") from offset " ++ Text.ofInt opening.offset ++ " to " ++ Text.ofInt closing.offset)
        let inside ← enter s nested ⟨.environment, name, opening⟩
        let enclosing := (← get).environment
        modify fun c => { c with environment := some name }
        let argument ← if e.takesArgument then environmentArgument s name opening stop
          else pure []
        let node ← environmentContent inside name e stop argument
        modify fun c => { c with environment := enclosing }
        popScope
        takeEnd name stop
        return node
    else
      throw (.located (.expectedBegin (some opening)) opening)

end MathMarkup.Parser
