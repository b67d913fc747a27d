import MathMarkup.Value.Json
import MathMarkup.Value.Yaml.Error

/-!
# The meaning of plain scalars

A plain scalar has a type by its spelling: null, truth values, integers (decimal, octal,
hexadecimal, binary, and to the base 60 with colons), and floating-point values. Two spellings have
a meaning only as keys. Every other plain scalar is a text.
-/

namespace MathMarkup.Value.Yaml

open Json (digitsValue hexValue?)

/-- The spellings of a word in lower case, with a capital, and in upper case. -/
def isWord (t : Text) (lower capital upper : String) : Bool :=
  t = Text.ofString lower || t = Text.ofString capital || t = Text.ofString upper

/-- The truth value that a plain scalar spells. -/
def bool? (t : Text) : Option Bool :=
  if isWord t "true" "True" "TRUE" || isWord t "yes" "Yes" "YES" || isWord t "on" "On" "ON" then
    some true
  else if isWord t "false" "False" "FALSE" || isWord t "no" "No" "NO" ||
      isWord t "off" "Off" "OFF" then
    some false
  else
    none

/-- Whether a plain scalar spells null. -/
def isNull (t : Text) : Bool :=
  t.isEmpty || t = Text.ofString "~" || isWord t "null" "Null" "NULL"

/-! ## Digits -/

/-- A sign and what follows it. -/
def splitSign : Text → Bool × Text
  | .scalar '-' :: rest => (true, rest)
  | .scalar '+' :: rest => (false, rest)
  | t => (false, t)

/-- The text without underscores. -/
def dropUnderscores (t : Text) : Text :=
  t.filter (· ≠ .scalar '_')

/-- A digit of the base, or an underscore, which may stand anywhere among digits. -/
def isDigitOf (base : Nat) (c : CodePoint) : Bool :=
  c = .scalar '_' || (hexValue? c).any (· < base)

/-- Whether the text is one or more digits of the base and underscores. -/
def isRun (base : Nat) (t : Text) : Bool :=
  !t.isEmpty && t.all (isDigitOf base)

/-- The natural number that digits of a base spell, underscores aside. -/
def valueOf (base : Nat) (t : Text) : Nat :=
  (dropUnderscores t).foldl (fun n c => n * base + (hexValue? c).getD 0) 0

/-- The number behind the mark of a base. It has a digit at least. -/
def markedValue (base : Nat) (t : Text) : Except Error Nat :=
  if (dropUnderscores t).isEmpty then .error (.noDigits base) else .ok (valueOf base t)

/-- The parts of a text between colons. -/
def splitColons : Text → List Text
  | [] => [[]]
  | c :: rest =>
    match splitColons rest with
    | [] => [[c]]
    | part :: parts => if c = .scalar ':' then [] :: part :: parts else (c :: part) :: parts

/-- Whether the text is a number below 60, with one digit or two. -/
def isSixtieth : Text → Bool
  | [a] => a.isDigit
  | [a, b] => a.isDigit && a.toNat ≤ 53 && b.isDigit
  | _ => false

/-! ## Integers -/

/-- The number of decimal digits, if they are not too many. -/
def decimalValue (t : Text) : Except Error Nat :=
  let digits := (dropUnderscores t).length
  if Number.digitLimit < digits then .error (.tooLong digits) else .ok (valueOf 10 t)

/-- The number of an integer without its sign. -/
def magnitude? (body : Text) : Option (Except Error Nat) :=
  match body with
  | [.scalar '0'] => some (.ok 0)
  | .scalar '0' :: .scalar 'b' :: rest => if isRun 2 rest then some (markedValue 2 rest) else none
  | .scalar '0' :: .scalar 'x' :: rest => if isRun 16 rest then some (markedValue 16 rest) else none
  | .scalar '0' :: rest => if isRun 8 rest then some (.ok (valueOf 8 rest)) else none
  | c :: _ =>
    match splitColons body with
    | first :: parts =>
      if c.isDigit && isRun 10 first && parts.all isSixtieth then
        some <| (decimalValue first).map fun n =>
          parts.foldl (fun n part => n * 60 + valueOf 10 part) n
      else none
    | [] => none
  | [] => none

/-- The integer that a plain scalar spells. -/
def int? (t : Text) : Option (Except Error Int) :=
  let (negative, body) := splitSign t
  (magnitude? body).map fun r => r.map fun n => if negative then -n else n

/-! ## Floating-point values -/

/-- The exponent at the end of a number. It has a sign. -/
def exponent? : Text → Option Int
  | [] => some 0
  | .scalar e :: .scalar s :: digits =>
    if (e = 'e' ∨ e = 'E') ∧ (s = '-' ∨ s = '+') ∧ !digits.isEmpty ∧
        digits.all CodePoint.isDigit then
      some (if s = '-' then -(digitsValue digits : Int) else digitsValue digits)
    else none
  | _ => none

/-- The value of a whole part and the text behind the point. -/
def decimal? (negative : Bool) (whole rest : Text) : Option Binary64 :=
  let places := dropUnderscores (rest.takeWhile (isDigitOf 10))
  (exponent? (rest.dropWhile (isDigitOf 10))).map fun e =>
    Binary64.ofDecimal negative (digitsValue (dropUnderscores whole ++ places)) (e - places.length)

/-- Adds parts, the last one first, each counting sixty times as much as the one before it. Every
sum is rounded. -/
def addSixties (start : Binary64) (parts : List Text) : Binary64 :=
  (parts.foldl
    (fun (sum, unit) part =>
      (sum.addMagnitude ((Binary64.ofNat (valueOf 10 part)).timesNat unit), unit * 60))
    (start, 60)).1

/-- The value to the base 60 of parts, the last of which has a point. -/
def sixties? (negative : Bool) (first : Text) (parts : List Text) : Option Binary64 :=
  match parts.reverse with
  | [] => none
  | last :: middle =>
    let whole := last.takeWhile (· ≠ .scalar '.')
    match last.drop whole.length with
    | [] => none
    | _ :: places =>
      if isRun 10 first && middle.all isSixtieth && isSixtieth whole &&
          places.all (isDigitOf 10) then
        (decimal? negative whole places).map fun start => addSixties start (middle ++ [first])
      else none

/-- The floating-point value that a plain scalar spells: digits with a point, and an exponent with a
sign. A number that starts with its point has no sign of its own. -/
def float? (t : Text) : Option Binary64 :=
  let (negative, body) := splitSign t
  if isWord body ".inf" ".Inf" ".INF" then some (.infinite negative)
  else if isWord t ".nan" ".NaN" ".NAN" then some .nan
  else
    match t with
    | .scalar '.' :: rest =>
      if rest.head?.any CodePoint.isDigit then decimal? false [] rest else none
    | _ =>
      if body.head?.any CodePoint.isDigit then
        match splitColons body with
        | [_] =>
          let whole := body.takeWhile (isDigitOf 10)
          match body.drop whole.length with
          | .scalar '.' :: rest => decimal? negative whole rest
          | _ => none
        | first :: parts => sixties? negative first parts
        | [] => none
      else none

/-! ## All plain scalars -/

/-- What a plain scalar stands for. -/
inductive Meaning where
  | scalar (s : Scalar)
  /-- As a key, the sign that the entries of another mapping are taken over. -/
  | merge
  /-- As a key, an equals sign. -/
  | equals
deriving DecidableEq, Repr

/-- The meaning of a plain scalar. -/
def meaning (t : Text) : Except Error Meaning :=
  if isNull t then .ok (.scalar .null)
  else if t = Text.ofString "<<" then .ok .merge
  else if t = Text.ofString "=" then .ok .equals
  else match bool? t, float? t, int? t with
    | some b, _, _ => .ok (.scalar (.number (.bool b)))
    | _, some x, _ => .ok (.scalar (.number (.float x)))
    | _, _, some r => r.map fun n => .scalar (.number (.int n))
    | _, _, _ => .ok (.scalar (.text t))

example : (meaning (Text.ofString "190:20:30")).toOption =
    some (.scalar (.number (.int 685230))) := by decide +kernel
example : (meaning (Text.ofString "1:60")).toOption =
    some (.scalar (.text (Text.ofString "1:60"))) := by decide +kernel

end MathMarkup.Value.Yaml
