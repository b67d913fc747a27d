import MathMarkup.Text.CodePoint

/-!
# Identifiers of resources

The shape of a reference to a resource, which the name of a namespace must have: an optional scheme,
an optional authority behind two slashes, a path, and optionally a query and a fragment. An absolute
reference has a scheme, a relative one has none.

A reference is read from left to right: each part takes what it can, and the next part goes on
behind it. So a host in brackets may hold any code point up to the closing bracket.
-/

namespace MathMarkup.Xml.Uri

/-- Whether the code point is one of the given ASCII characters. -/
def isOneOf (chars : String) (c : CodePoint) : Bool :=
  (Text.ofString chars).contains c

/-- A code point that stands for itself everywhere. -/
def isPlain (c : CodePoint) : Bool :=
  c.isAsciiLetter || c.isDigit || isOneOf "-._~!$&'()*+,;=" c

/-- A hexadecimal digit. -/
def isHexDigit (c : CodePoint) : Bool :=
  c.isDigit || isOneOf "abcdefABCDEF" c

/-- The text behind a run of plain code points, further ones, and bytes in hexadecimal behind a
percent sign. -/
def skipRun (further : String) : Text → Text
  | [] => []
  | .scalar '%' :: a :: b :: rest =>
    if isHexDigit a && isHexDigit b then skipRun further rest else .scalar '%' :: a :: b :: rest
  | c :: rest => if isPlain c || isOneOf further c then skipRun further rest else c :: rest

/-- The text behind the given character, if it starts with it. -/
def skipChar? (c : Char) : Text → Option Text
  | .scalar d :: rest => if d = c then some rest else none
  | _ => none

/-! ## The authority -/

/-- The text behind a number from 0 to 259 without leading zeros. Of three digits the first is 1, or
it is 2 and the second at most 5. -/
def skipOctet? (t : Text) : Option Text :=
  match t.takeWhile CodePoint.isDigit with
  | [] => none
  | [_] => some (t.drop 1)
  | [a, _] => if a = .scalar '0' then none else some (t.drop 2)
  | a :: b :: _ =>
    if a = .scalar '1' ∨ (a = .scalar '2' ∧ b.toNat ≤ 53) then some (t.drop 3) else none

/-- The text behind four numbers with points between them. -/
def skipAddress? (t : Text) : Option Text := do
  let t ← skipChar? '.' (← skipOctet? t)
  let t ← skipChar? '.' (← skipOctet? t)
  let t ← skipChar? '.' (← skipOctet? t)
  skipOctet? t

/-- The text behind a host: an address in brackets, four numbers, or a name, which may be empty. -/
def skipHost? (t : Text) : Option Text :=
  match skipChar? '[' t with
  | some rest => skipChar? ']' (rest.dropWhile (· ≠ .scalar ']'))
  | none => some ((skipAddress? t).getD (skipRun "" t))

/-- The greatest number of a service. -/
def serviceLimit : Nat := 2147483647

/-- The text behind the number of a service, which has a digit at least. -/
def skipService? (t : Text) : Option Text :=
  let digits := t.takeWhile CodePoint.isDigit
  let number := digits.foldl (fun n c => n * 10 + (c.toNat - 48)) 0
  if digits.isEmpty ∨ serviceLimit < number then none else some (t.drop digits.length)

/-- The text behind an authority: a user with an at sign if there is one, a host, and the number of
a service behind a colon if there is one. -/
def skipAuthority? (t : Text) : Option Text := do
  let rest ← skipHost? ((skipChar? '@' (skipRun ":" t)).getD t)
  match skipChar? ':' rest with
  | some service => skipService? service
  | none => some rest

/-! ## References -/

/-- The text behind a path, with an authority before it if it starts with two slashes. Behind an
authority a path starts with a slash. -/
def skipHierarchy? (t : Text) : Option Text :=
  match t with
  | .scalar '/' :: .scalar '/' :: rest =>
    (skipAuthority? rest).map fun rest =>
      if (skipChar? '/' rest).isSome then skipRun ":@/" rest else rest
  | _ => some (skipRun ":@/" t)

/-- Whether the text is a query behind a question mark and a fragment behind a number sign, each if
it is there, and nothing else. -/
def isTail (t : Text) : Bool :=
  let rest := match skipChar? '?' t with
    | some query => skipRun ":@/?" query
    | none => t
  match skipChar? '#' rest with
  | some fragment => (skipRun ":@/?[]" fragment).isEmpty
  | none => rest.isEmpty

/-- The text behind a scheme and its colon. A scheme is a letter, then letters, digits, and three
further characters. -/
def skipScheme? (t : Text) : Option Text :=
  match t with
  | [] => none
  | c :: rest =>
    if c.isAsciiLetter then
      skipChar? ':' (rest.dropWhile fun d => d.isAsciiLetter || d.isDigit || isOneOf "+-." d)
    else none

/-- Whether the text is a reference with a scheme. -/
def isAbsolute (t : Text) : Bool :=
  match (skipScheme? t).bind skipHierarchy? with
  | some rest => isTail rest
  | none => false

/-- Whether the text is a reference without a scheme. No colon stands in the first segment of its
path. -/
def isRelative (t : Text) : Bool :=
  let segment := t.takeWhile fun c => c ≠ .scalar '/' ∧ c ≠ .scalar '?' ∧ c ≠ .scalar '#'
  match skipHierarchy? t with
  | some rest => !segment.contains (.scalar ':') && isTail rest
  | none => false

/-- Whether the text is a reference to a resource. -/
def isReference (t : Text) : Bool :=
  isAbsolute t || isRelative t

example : isAbsolute (Text.ofString "http://www.w3.org/1998/Math/MathML") = true := by
  decide +kernel
example : isReference (Text.ofString "a/b:c") = true := by decide +kernel
example : isReference (Text.ofString "http://h:/") = false := by decide +kernel
example : isReference (Text.ofString "//[?]") = true := by decide +kernel
example : isReference (Text.ofString "a b") = false := by decide +kernel

end MathMarkup.Xml.Uri
