import MathMarkup.Text.CodePoint

/-!
# Tokens

The pieces a source is cut into. A token knows its kind, the text it covers and the place where
that text starts. Two of the kinds, `text` and `whitespace`, are never produced from a source; a
caller who builds tokens by hand may use them.
-/

namespace MathMarkup

/-- A place in a source: the number of code points before it, and its line and column, both counted
from 1. A caller who builds tokens by hand may give any numbers. -/
structure Place where
  offset : Int := 0
  line : Int := 1
  column : Int := 1
deriving DecidableEq, Repr, Inhabited

namespace Place

/-- The place behind one code point. A line feed starts a new line, nothing else does. -/
def next (p : Place) (c : CodePoint) : Place :=
  if c = .scalar '\n' then ⟨p.offset + 1, p.line + 1, 1⟩
  else ⟨p.offset + 1, p.line, p.column + 1⟩

/-- The place behind a text. -/
def after (p : Place) (t : Text) : Place :=
  t.foldl next p

@[simp] theorem offset_next (p : Place) (c : CodePoint) : (p.next c).offset = p.offset + 1 := by
  unfold next
  split <;> rfl

@[simp] theorem offset_after (p : Place) (t : Text) : (p.after t).offset = p.offset + t.length := by
  unfold after
  induction t generalizing p with
  | nil => simp
  | cons c t ih =>
    simp only [List.foldl_cons, ih, offset_next, List.length_cons]
    omega

end Place

namespace Token

/-- The kinds of tokens. -/
inductive Kind where
  | command
  | symbol
  | text
  | number
  | whitespace
  | brace
  | bracket
deriving DecidableEq, Repr

/-- The word for a kind in messages. -/
def Kind.name : Kind → Text
  | .command => "command"
  | .symbol => "symbol"
  | .text => "text"
  | .number => "number"
  | .whitespace => "whitespace"
  | .brace => "brace"
  | .bracket => "bracket"

end Token

/-- A piece of a source. -/
structure Token where
  kind : Token.Kind
  value : Text
  place : Place := {}
deriving DecidableEq, Repr

namespace Token

/-- Whether the token has the given kind and value. -/
def is (t : Token) (kind : Kind) (value : Text) : Bool :=
  t.kind = kind && t.value = value

/-- Whether the token is the command `name`. -/
def isCommand (t : Token) (name : Text) : Bool := t.is .command name

/-- Whether the token is the symbol `value`. -/
def isSymbol (t : Token) (value : Text) : Bool := t.is .symbol value

/-- Whether the token is the brace `value`. -/
def isBrace (t : Token) (value : Text) : Bool := t.is .brace value

/-- Whether the token is the bracket `value`. -/
def isBracket (t : Token) (value : Text) : Bool := t.is .bracket value

theorem is_iff {t : Token} {kind : Kind} {value : Text} :
    t.is kind value = true ↔ t.kind = kind ∧ t.value = value := by
  simp [is]

/-- The offset at which the token starts. -/
def offset (t : Token) : Int := t.place.offset

/-- The opening brace. -/
def isOpenBrace (t : Token) : Bool := t.isBrace "\x7b"

/-- The closing brace. -/
def isCloseBrace (t : Token) : Bool := t.isBrace "\x7d"

/-- The opening bracket. -/
def isOpenBracket (t : Token) : Bool := t.isBracket "["

/-- The closing bracket. -/
def isCloseBracket (t : Token) : Bool := t.isBracket "]"

end Token

end MathMarkup
