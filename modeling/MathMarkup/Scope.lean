import MathMarkup.ParseError

/-!
# Scopes

A scope is something that has been opened and not yet closed: a brace, a bracket, a `\left` or an
environment. A closer that does not belong to the scope at hand is reported here: if a scope of its
kind is open further out, the innermost scope was never closed; otherwise the closer is stray.
-/

namespace MathMarkup

namespace Scope

/-- What has been opened. A caller may open scopes of kinds of its own, which nothing closes. -/
inductive Kind where
  | brace
  | bracket
  | left
  | environment
  | other (label : Text)
deriving DecidableEq, Repr

/-- The word for a kind. -/
def Kind.name : Kind → Text
  | .brace => "brace"
  | .bracket => "bracket"
  | .left => "left"
  | .environment => "environment"
  | .other label => label

/-- The kind with the given word. -/
def Kind.ofName (name : Text) : Kind :=
  ([.brace, .bracket, .left, .environment].find? fun k => k.name = name).getD (.other name)

end Scope

/-- An open scope, with the token that opened it. -/
structure Scope where
  kind : Scope.Kind
  name : Text
  token : Token
deriving DecidableEq, Repr

namespace Scope

/-- The kind of scope that a token closes. -/
def closedBy? (t : Token) : Option Kind :=
  if t.isCloseBrace then some .brace
  else if t.isCloseBracket then some .bracket
  else if t.isCommand "\\end" then some .environment
  else if t.isCommand "\\right" then some .left
  else none

/-- The innermost scope of a kind. Scopes are listed from the innermost outwards. -/
def innermost? (kind : Kind) (scopes : List Scope) : Option Scope :=
  scopes.find? fun s => s.kind = kind

/-- The error that the scope was never closed. -/
def unclosed (s : Scope) : ParseError :=
  match s.kind with
  | .brace => .located .openBrace s.token
  | .bracket => .located .openBracket s.token
  | .environment => .named (.openEnvironment s.name) s.name s.token
  | .left => .located .openLeft s.token
  | .other _ => .located .openLeft s.token

/-- The error that a closer has nothing to close. -/
def stray (kind : Option Kind) (t : Token) : ParseError :=
  match kind with
  | some .brace => .located .strayBrace t
  | some .bracket => .located .strayBracket t
  | some .environment => .located .strayEnd t
  | some .left => .located .strayRight t
  | _ => .located (.unexpectedValue t.value) t

/-- The error of a closer that does not end the current expression. -/
def misplaced (scopes : List Scope) (t : Token) : ParseError :=
  match closedBy? t, scopes with
  | some kind, innermost :: outer =>
    if (innermost? kind (innermost :: outer)).isSome then innermost.unclosed
    else stray (some kind) t
  | kind, _ => stray kind t

end Scope

end MathMarkup
