import MathMarkup.Log
import MathMarkup.Text.Blank
import MathMarkup.Token

/-!
# From a source to its tokens

Blanks separate tokens and belong to none. Every other code point starts or continues a token:

* a backslash starts a command, which takes in the ASCII letters that follow, or else one code point
  that is no letter and no space, or one plain space, or nothing;
* a brace and a bracket are tokens by themselves;
* a digit starts a number, which takes in digits, then a point and digits again;
* anything else is a symbol of one code point.

## Termination

`scan` recurses on the source. Instead of jumping over the rest of a token it counts down the code
points that the token has already taken, so no measure is needed.
-/

namespace MathMarkup.Token

/-- How many code points behind the backslash belong to a command. -/
def commandTail : Text → Nat
  | [] => 0
  | c :: rest =>
    if c.isAsciiLetter then 1 + (rest.takeWhile CodePoint.isAsciiLetter).length
    else if c = .scalar ' ' ∨ !c.isSpace then 1
    else 0

/-- How many code points behind the first digit belong to a number. -/
def numberTail (rest : Text) : Nat :=
  let whole := (rest.takeWhile CodePoint.isDigit).length
  match rest.drop whole with
  | .scalar '.' :: places => whole + 1 + (places.takeWhile CodePoint.isDigit).length
  | _ => whole

/-- The kind of the token that starts with `c`, and how many of the code points behind `c` it takes
in. -/
def lexeme (c : CodePoint) (rest : Text) : Kind × Nat :=
  if c = .scalar '\\' then (.command, commandTail rest)
  else if c = .scalar '\x7b' ∨ c = .scalar '\x7d' then (.brace, 0)
  else if c = .scalar '[' ∨ c = .scalar ']' then (.bracket, 0)
  else if c.isDigit then (.number, numberTail rest)
  else (.symbol, 0)

/-- The tokens of a text that starts at the given place and whose first `taken` code points belong
to a token already cut off. -/
def scan : (taken : Nat) → Place → Text → List Token
  | _, _, [] => []
  | taken + 1, place, c :: rest => scan taken (place.next c) rest
  | 0, place, c :: rest =>
    if c.isBlank then
      scan 0 (place.next c) rest
    else
      let (kind, tail) := lexeme c rest
      ⟨kind, c :: rest.take tail, place⟩ :: scan tail (place.next c) rest

/-- The tokens of a source, in order. -/
def tokenize (source : Text) : List Token :=
  scan 0 {} source

/-- Counting down is jumping: the code points of a token cut off only move the place. -/
theorem scan_eq_scan_drop (taken : Nat) (place : Place) (t : Text) :
    scan taken place t = scan 0 (place.after (t.take taken)) (t.drop taken) := by
  induction t generalizing taken place with
  | nil => simp [scan]
  | cons c t ih =>
    cases taken with
    | zero => rfl
    | succ n => simpa [scan, Place.after] using ih n (place.next c)

example : (tokenize (Text.ofString "\\frac 12.5x")).map Token.value =
    [Text.ofString "\\frac", Text.ofString "12.5", Text.ofString "x"] := by decide

/-- The tokens of a source, with the entry that counts them. -/
def tokenizeLogged (source : Text) : Logged (List Token) := do
  let tokens := tokenize source
  .say .debug .lexer ("Tokenized " ++ Text.ofNat source.length ++ " characters into " ++
    Text.ofNat tokens.length ++ " tokens")
  return tokens

end MathMarkup.Token
