import MathMarkup.Node
import MathMarkup.Parser.Cursor

/-!
# Groups

What stands between braces or brackets. A group is parsed, or read as raw source text. Each parsed
group opens a scope, and the number of scopes that may still be opened is known: `Inside` holds the
parsers for the content of one more scope, and where none may be opened there is none.
-/

namespace MathMarkup.Parser

/-- The parsers that work inside a newly opened scope. -/
structure Inside where
  /-- An expression up to a stop. -/
  content : Stop → ParseM Node
  /-- An argument in brackets, if one follows. -/
  optional : ParseM (Option Node)

/-- The way into one more scope; there is none when the limit on nesting is reached. -/
abbrev Nested := Option Inside

/-- Opens a scope, or fails if no more may be opened. -/
def enter (s : Setup) (nested : Nested) (scope : Scope) : ParseM Inside := do
  match nested with
  | none => throw (.located (.tooDeep s.options.maxNestingDepth.number) scope.token)
  | some inside =>
    pushScope scope
    return inside

/-- The stop at a closing brace. -/
def stopAtBrace : Stop := fun _ t => t.isCloseBrace

/-- The stop at a closing bracket. -/
def stopAtBracket : Stop := fun _ t => t.isCloseBracket

/-- A group in braces, as its content. -/
def group (s : Setup) (nested : Nested) : ParseM Node := do
  match ← next with
  | none => throw (.locatedAt? .expectedBrace none)
  | some opening =>
    if opening.isOpenBrace then
      let inside ← enter s nested ⟨.brace, "\x7b", opening⟩
      let content ← inside.content stopAtBrace
      match ← next with
      | none => throw (.located .openBrace opening)
      | some _ =>
        popScope
        return content
    else
      throw (.located .expectedBrace opening)

/-- A group in brackets, as its content. -/
def bracketContent (s : Setup) (nested : Nested) : ParseM Node := do
  match ← next with
  | none => throw (.locatedAt? .expectedBracket none)
  | some opening =>
    if opening.isOpenBracket then
      let inside ← enter s nested ⟨.bracket, "[", opening⟩
      let content ← inside.content stopAtBracket
      match ← next with
      | none => throw (.located .openBracket opening)
      | some _ =>
        popScope
        return content
    else
      throw (.located .expectedBracket opening)

/-- A group in brackets, shown with its brackets. -/
def bracketGroup (s : Setup) (nested : Nested) : ParseM Node := do
  let content ← bracketContent s nested
  return .element "mfenced" [("open", "["), ("close", "]")] [content]

/-- An argument in brackets, if one follows. -/
def optionalArgument (s : Setup) (nested : Nested) : ParseM (Option Node) := do
  match ← peek with
  | none => return none
  | some t =>
    if t.isOpenBracket then
      return some (← bracketContent s nested)
    else
      return none

/-! ## Raw groups -/

/-- The brace that closes a group of which `depth` further braces are open, with the number of
tokens up to and including it. -/
def closingBrace? : (depth : Nat) → List Token → Option (Token × Nat)
  | _, [] => none
  | depth, t :: rest =>
    if t.isOpenBrace then (closingBrace? (depth + 1) rest).map fun (c, n) => (c, n + 1)
    else if t.isCloseBrace then
      match depth with
      | 0 => some (t, 1)
      | depth + 1 => (closingBrace? depth rest).map fun (c, n) => (c, n + 1)
    else (closingBrace? depth rest).map fun (c, n) => (c, n + 1)

/-- A group in braces, as the source text between them. -/
def rawGroup (s : Setup) : ParseM Text := do
  match (← get).rest with
  | [] => throw (.locatedAt? .expectedBrace none)
  | opening :: rest =>
    if opening.isOpenBrace then
      match closingBrace? 0 rest with
      | none => throw (.located .openBrace opening)
      | some (closing, n) =>
        advance (n + 1)
        return s.source.between (opening.offset + 1) closing.offset
    else
      throw (.located .expectedBrace opening)

/-! ## Text of a raw group -/

/-- The characters that a backslash protects inside text. -/
def isTextSpecial (c : CodePoint) : Bool :=
  (Text.ofString "$%&#_\x7b\x7d").contains c

/-- The text without the backslashes that protect a character. -/
def unescapeText : Text → Text
  | .scalar '\\' :: c :: rest =>
    if isTextSpecial c then c :: unescapeText rest else .scalar '\\' :: unescapeText (c :: rest)
  | c :: rest => c :: unescapeText rest
  | [] => []

/-- The text with each run of spaces squeezed to one plain space. The flag says that the code point
before belongs to a run. -/
def squeezeSpaces : (inRun : Bool) → Text → Text
  | _, [] => []
  | inRun, c :: rest =>
    if c.isSpace then
      if inRun then squeezeSpaces true rest else .scalar ' ' :: squeezeSpaces true rest
    else c :: squeezeSpaces false rest

/-- The text that the raw source of a text argument stands for. -/
def textOfRaw (s : Setup) (raw : Text) : Text :=
  let content := unescapeText raw
  if s.options.preserveWhitespace.isTruthy then content else squeezeSpaces false content

end MathMarkup.Parser
