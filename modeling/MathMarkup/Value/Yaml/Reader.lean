import MathMarkup.Value.Yaml.Node
import MathMarkup.Value.Yaml.Quoted

/-!
# Nodes from a YAML text

The part of YAML that option and symbol files use: block lists and block mappings, told apart by
columns, flow collections in brackets and braces, plain and quoted scalars, comments, and the marks
around a document. A text outside this part is refused.

A node is read at a cursor, and given back with the cursor behind it. A key stands on one line
before its colon and is not longer than a limit. Behind a node of a block there is nothing else on
its line.

## Termination

Plain scalars recurse on a bound for their words. The readers of collections call each other with
one unit of fuel less; each call takes in a code point or hands the cursor to another reader once.
-/

namespace MathMarkup.Value.Yaml

/-! ## Plain scalars -/

/-- The code points that end a plain scalar inside a flow collection. -/
def isFlowMark (c : CodePoint) : Bool :=
  (Text.ofString ",?[]\x7b\x7d").contains c

/-- The code points that cannot start a plain scalar. -/
def isIndicator (c : CodePoint) : Bool :=
  (Text.ofString "&*!|>%@\x60#,[]\x7b\x7d\"'").contains c

/-- Whether a colon before the given text ends a plain scalar: before a gap, and inside a flow
collection also before a mark. -/
def endsKey (flow : Bool) (rest : Text) : Bool :=
  endsWord rest || (flow && rest.head?.any fun c => isFlowMark c && c ≠ .scalar '?')

/-- The length of the word of a plain scalar at the start of a text. -/
def wordLength (flow : Bool) : Text → Nat
  | [] => 0
  | c :: rest =>
    if isGap c || (flow && isFlowMark c) || (c = .scalar ':' && endsKey flow rest) then 0
    else wordLength flow rest + 1

/-- The spaces and line ends between two words. -/
def wordGap (t : Text) : Text :=
  let pad := t.takeWhile isPad
  if (t.drop pad.length).head?.any isBreak then t.takeWhile fun c => isPad c || isBreak c else pad

/-- What stands between two words in the value of a scalar. -/
def gapValue (gap : Text) : Text :=
  if gap.any isBreak then foldBreaks (gap.filter isBreak) else gap

/-- Whether a plain scalar goes on at a cursor behind a gap. In a block, its further lines are
indented far enough. -/
def continuesPlain (flow : Bool) (least : Nat) (c : Cursor) : Bool :=
  !c.atEnd && !c.isAt '#' && (flow || least ≤ c.column) && wordLength flow c.rest ≠ 0

/-- The plain scalar at a cursor, of a bounded number of words. -/
def readWords (flow : Bool) (least : Nat) : Nat → Cursor → Text × Cursor
  | 0, c => ([], c)
  | words + 1, c =>
    let length := wordLength flow c.rest
    let behind := c.advance length
    let gap := wordGap behind.rest
    let next := behind.advance gap.length
    if gap.isEmpty || !continuesPlain flow least next then (c.rest.take length, behind)
    else
      let (more, last) := readWords flow least words next
      (c.rest.take length ++ gapValue gap ++ more, last)

/-- Whether a plain scalar starts with the given code point before the rest. -/
def startsPlain (flow : Bool) (c : CodePoint) (rest : Text) : Bool :=
  if c = .scalar '-' then !endsWord rest
  else if c = .scalar '?' ∨ c = .scalar ':' then !flow && !endsWord rest
  else !isGap c && !isIndicator c

/-! ## Scalars -/

/-- The scalar at a cursor. -/
def readScalar (flow : Bool) (least : Nat) (c : Cursor) : Except Error (Node × Cursor) :=
  match c.rest with
  | [] => .error .malformed
  | .scalar '\'' :: rest =>
    match readSingle? rest with
    | some (parts, n) => .ok (.quoted (partsText parts), c.advance (n + 1))
    | none => .error .malformed
  | .scalar '"' :: rest => do
    let (parts, n) ← readDouble 0 rest
    return (.quoted (partsText parts), c.advance (n + 1))
  | x :: rest =>
    if c.atMarker || !startsPlain flow x rest then .error .malformed
    else
      let (t, behind) := readWords flow least c.rest.length c
      .ok (.plain t, behind)

/-- How many code points may stand before the colon of a key. -/
def keyLimit : Nat := 1024

/-- Whether a colon at `colon` makes a key of what starts at `start`. -/
def isKeyColon (start colon : Cursor) : Bool :=
  colon.isAt ':' && colon.line = start.line && colon.offset - start.offset ≤ keyLimit

/-! ## Flow collections -/

mutual

/-- The node inside a flow collection at a cursor. -/
def readFlow : Nat → Cursor → Except Error (Node × Cursor)
  | 0, _ => .error .malformed
  | fuel + 1, c =>
    if c.isAt '[' then do
      let (parts, behind) ← readFlowParts fuel ']' (c.advance 1).skip
      let item : Node × Option Node → Node
        | (key, some value) => .mapping [(key, value)]
        | (item, none) => item
      return (.list (parts.map item), behind)
    else if c.isAt '\x7b' then do
      let (parts, behind) ← readFlowParts fuel '\x7d' (c.advance 1).skip
      return (.mapping (parts.map fun (key, value?) => (key, value?.getD (.plain []))), behind)
    else readScalar true 0 c

/-- The parts of a flow collection up to its closing mark, each with a value if a colon follows.
Behind a question mark a part is a key in any case, and may be missing. -/
def readFlowParts : Nat → Char → Cursor → Except Error (List (Node × Option Node) × Cursor)
  | 0, _, _ => .error .malformed
  | fuel + 1, closing, c =>
    if c.isAt closing then .ok ([], c.advance 1)
    else do
      let explicit := c.isAt '?'
      let start := if explicit then (c.advance 1).skip else c
      let ends (c : Cursor) : Bool := c.isAt ',' || c.isAt closing
      let (key, behind) ←
        if explicit && (start.isAt ':' || ends start) then .ok (.plain [], start)
        else readFlow fuel start
      let colon := behind.skip
      let (value?, behind) ←
        if (explicit && colon.isAt ':') || isKeyColon start colon then
          let next := (colon.advance 1).skip
          if ends next then .ok (some (.plain []), next)
          else (readFlow fuel next).map fun (value, behind) => (some value, behind)
        else .ok (if explicit then some (.plain []) else none, behind)
      let next := behind.skip
      if next.isAt ',' then
        let (parts, behind) ← readFlowParts fuel closing (next.advance 1).skip
        return ((key, value?) :: parts, behind)
      else if next.isAt closing then return ([(key, value?)], next.advance 1)
      else .error .malformed

end

/-! ## Blocks -/

/-- Whether the given mark of a block stands here, before a gap. -/
def startsMark (mark : Char) (c : Cursor) : Bool :=
  c.isAt mark && endsWord (c.rest.drop 1)

/-- Whether an item of a block list starts here. -/
def startsItem (c : Cursor) : Bool :=
  startsMark '-' c

/-- Whether a key with a mark of its own starts here. -/
def startsKey (c : Cursor) : Bool :=
  startsMark '?' c

/-- The scalar or flow collection at a cursor in a block. -/
def readHead (fuel least : Nat) (c : Cursor) : Except Error (Node × Cursor) :=
  if c.isAt '[' || c.isAt '\x7b' then readFlow fuel c else readScalar false least c

/-- The cursor behind the colon of a key in a block, which stands before a gap. -/
def behindColon? (start behind : Cursor) : Option Cursor :=
  let colon := behind.skipPad
  if isKeyColon start colon && startsMark ':' colon then some (colon.advance 1) else none

/-- What follows behind an entry of a block: another one on a later line at its column, or nothing.
-/
def following (column : Nat) (behind : Cursor) : Except Error (Option Cursor) :=
  let next := behind.skip
  if next.atEnd then .ok none
  else if next.line = behind.line ∨ column < next.column then .error .malformed
  else .ok (if next.column = column then some next else none)

mutual

/-- The node of a block at a cursor. Only at the start of a line, or behind the mark of an item or a
key, may a collection start without brackets. -/
def readNode : Nat → (least : Nat) → (opens : Bool) → Cursor → Except Error (Node × Cursor)
  | 0, _, _, _ => .error .malformed
  | fuel + 1, least, opens, c =>
    if startsItem c then
      if opens then (readItems fuel c.column c).map fun (items, behind) => (.list items, behind)
      else .error .malformed
    else if startsKey c then
      if opens then (readEntries fuel c.column c).map fun (es, behind) => (.mapping es, behind)
      else .error .malformed
    else do
      let (head, behind) ← readHead fuel least c
      if opens && (behindColon? c behind).isSome then
        let (entries, behind) ← readEntries fuel c.column c
        return (.mapping entries, behind)
      else return (head, behind)

/-- The items of a block list, the first of which starts here. -/
def readItems : Nat → (column : Nat) → Cursor → Except Error (List Node × Cursor)
  | 0, _, _ => .error .malformed
  | fuel + 1, column, c => do
    let mark := c.advance 1
    let next := mark.skip
    let (item, behind) ←
      if next.atEnd || next.column ≤ column then .ok (.plain [], mark)
      else readNode fuel (column + 1) true next
    match ← following column behind with
    | none => return ([item], behind)
    | some c =>
      if startsItem c then
        let (items, behind) ← readItems fuel column c
        return (item :: items, behind)
      else return ([item], behind)

/-- The node behind a mark of a mapping at the given column, if there is one. The items of a list
may stand at the column of the mapping. -/
def readBehind : Nat → (column : Nat) → (opens : Bool) → Cursor → Except Error (Node × Cursor)
  | 0, _, _, _ => .error .malformed
  | fuel + 1, column, opens, mark =>
    let next := mark.skip
    if next.atEnd then .ok (.plain [], mark)
    else if next.line = mark.line then readNode fuel (column + 1) opens next
    else if next.column = column && startsItem next then
      (readItems fuel column next).map fun (items, behind) => (.list items, behind)
    else if next.column ≤ column then .ok (.plain [], mark)
    else readNode fuel (column + 1) true next

/-- The entry of a block mapping at a cursor. A key with a mark of its own has its value behind a
colon at the column of the mapping, if it has one. -/
def readEntry : Nat → (column : Nat) → Cursor → Except Error ((Node × Node) × Cursor)
  | 0, _, _ => .error .malformed
  | fuel + 1, column, c =>
    if startsKey c then do
      let (key, behind) ← readBehind fuel column true (c.advance 1)
      match (← following column behind).filter (startsMark ':') with
      | some colon =>
        let (value, behind) ← readBehind fuel column true (colon.advance 1)
        return ((key, value), behind)
      | none => return ((key, .plain []), behind)
    else do
      let (key, behind) ← readHead fuel (column + 1) c
      match behindColon? c behind with
      | some colon =>
        let (value, behind) ← readBehind fuel column false colon
        return ((key, value), behind)
      | none => .error .malformed

/-- The entries of a block mapping, the first of which starts here. -/
def readEntries : Nat → (column : Nat) → Cursor → Except Error (List (Node × Node) × Cursor)
  | 0, _, _ => .error .malformed
  | fuel + 1, column, c => do
    let (entry, behind) ← readEntry fuel column c
    match ← following column behind with
    | none => return ([entry], behind)
    | some c =>
      let (entries, behind) ← readEntries fuel column c
      return (entry :: entries, behind)

end

/-! ## Documents -/

/-- Whether nothing but marks of the end stands at a cursor, not more of them than given. -/
def isClosed : Nat → Cursor → Bool
  | 0, c => c.rest.isEmpty
  | marks + 1, c =>
    c.rest.isEmpty || (c.atMarker && c.isAt '.' && isClosed marks (c.advance 3).skip)

/-- The node of a document. A mark may stand before it; behind it on its line no collection starts
without brackets. -/
def readDocument (t : Text) : Except Error Node := do
  let fuel := 4 * t.length + 4
  let start := Cursor.skip { rest := t }
  let marked := start.atMarker && start.isAt '-'
  let mark := if marked then start.advance 3 else start
  let next := mark.skip
  let (node, behind) ←
    if next.rest.isEmpty || (marked && next.atEnd) then .ok (.plain [], mark)
    else readNode fuel 0 (!marked || next.line ≠ start.line) next
  if isClosed t.length behind.skip then return node else .error .malformed

end MathMarkup.Value.Yaml
