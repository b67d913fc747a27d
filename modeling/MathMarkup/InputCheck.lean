import MathMarkup.Text.Blank
import MathMarkup.Validation
import MathMarkup.Value

/-!
# Checking a source before it is parsed

A cheap look at the characters of a source, which reports all problems at once: its length, null
characters, surrogates, delimiters of three kinds that do not match, and `\begin` and `\end` tags
that do not.

`marks` lists the delimiters that count: not those behind a backslash, and not those behind a
command such as `\left` or `\Bigl`, which need not pair up. `unmatched` matches each kind by itself.

## Termination

The scans over the source recurse on it and count down the characters already looked at.
-/

namespace MathMarkup.InputCheck

/-! ## Delimiters -/

/-- The kinds of delimiters. -/
inductive Pair where
  | brace
  | bracket
  | parenthesis
deriving DecidableEq, Repr

namespace Pair

/-- All kinds in the order in which they are reported. -/
def all : List Pair := [.brace, .bracket, .parenthesis]

/-- The word for a kind. -/
def name : Pair → Text
  | .brace => "brace"
  | .bracket => "bracket"
  | .parenthesis => "parenthesis"

/-- The opening delimiter. -/
def opening : Pair → Char
  | .brace => '\x7b'
  | .bracket => '['
  | .parenthesis => '('

/-- The closing delimiter. -/
def closing : Pair → Char
  | .brace => '\x7d'
  | .bracket => ']'
  | .parenthesis => ')'

end Pair

/-- A delimiter at an offset. -/
structure Mark where
  offset : Nat
  pair : Pair
  opens : Bool
deriving DecidableEq, Repr

/-- The delimiter that a code point is. -/
def markAt? (offset : Nat) (c : CodePoint) : Option Mark :=
  (Pair.all.find? fun p => c = .scalar p.opening || c = .scalar p.closing).map fun p =>
    ⟨offset, p, c = .scalar p.opening⟩

/-- The commands whose delimiter does not count. -/
def sizedCommands : List Text :=
  ["left", "right", "middle", "big", "bigl", "bigr", "bigm", "bigg", "biggl", "biggr", "biggm",
   "Big", "Bigl", "Bigr", "Bigm", "Bigg", "Biggl", "Biggr", "Biggm"].map Text.ofString

/-- How many code points behind a backslash belong to a sized delimiter, if there is one. -/
def sizedTail? (rest : Text) : Option Nat :=
  let command := rest.takeWhile CodePoint.isAsciiLetter
  let behind := rest.drop command.length
  let gap := behind.takeWhile CodePoint.isSpace
  if sizedCommands.contains command then
    match behind.drop gap.length with
    | c :: _ =>
      if (Text.ofString "()[]").contains c then some (command.length + gap.length + 1) else none
    | [] => none
  else none

/-- The delimiters that count, in order. The first argument counts the code points still to be
passed over. -/
def marks : (taken : Nat) → (offset : Nat) → Text → List Mark
  | _, _, [] => []
  | taken + 1, offset, _ :: rest => marks taken (offset + 1) rest
  | 0, offset, c :: rest =>
    if c = .scalar '\\' then marks ((sizedTail? rest).getD 1) (offset + 1) rest
    else match markAt? offset c with
      | some mark => mark :: marks 0 (offset + 1) rest
      | none => marks 0 (offset + 1) rest

/-- The offsets of the opening delimiters that wait for their closing ones, latest first. -/
structure Pending where
  brace : List Nat := []
  bracket : List Nat := []
  parenthesis : List Nat := []
deriving DecidableEq, Repr

namespace Pending

/-- The offsets of one kind. -/
def get (p : Pending) : Pair → List Nat
  | .brace => p.brace
  | .bracket => p.bracket
  | .parenthesis => p.parenthesis

/-- The offsets with those of one kind replaced. -/
def set (p : Pending) (pair : Pair) (offsets : List Nat) : Pending :=
  match pair with
  | .brace => { p with brace := offsets }
  | .bracket => { p with bracket := offsets }
  | .parenthesis => { p with parenthesis := offsets }

@[simp] theorem get_set_self (p : Pending) (pair : Pair) (offsets : List Nat) :
    (p.set pair offsets).get pair = offsets := by
  cases pair <;> rfl

theorem get_set_of_ne (p : Pending) {pair other : Pair} (h : pair ≠ other) (offsets : List Nat) :
    (p.set pair offsets).get other = p.get other := by
  cases pair <;> cases other <;> first | rfl | exact absurd rfl h

end Pending

/-- The closing delimiters that find no opening one, in order, and the opening ones left at the
end. -/
def unmatched : Pending → List Mark → List Mark × Pending
  | pending, [] => ([], pending)
  | pending, mark :: rest =>
    if mark.opens then
      unmatched (pending.set mark.pair (mark.offset :: pending.get mark.pair)) rest
    else
      match pending.get mark.pair with
      | _ :: earlier => unmatched (pending.set mark.pair earlier) rest
      | [] =>
        let (closers, left) := unmatched pending rest
        (mark :: closers, left)

/-- A message about a delimiter. -/
def delimiterMessage (word : String) (pair : Pair) (shown : Char) (offset : Nat) : Text :=
  "Unmatched " ++ Text.ofString word ++ " " ++ pair.name ++ " '" ++ [CodePoint.scalar shown] ++
    "' at offset " ++ Text.ofNat offset

/-- The messages about delimiters: closing ones first, then opening ones by kind. -/
def delimiterErrors (source : Text) : List Text :=
  let (closers, left) := unmatched {} (marks 0 0 source)
  (closers.map fun m => delimiterMessage "closing" m.pair m.pair.closing m.offset) ++
    Pair.all.flatMap fun p =>
      (left.get p).reverse.map fun offset => delimiterMessage "opening" p p.opening offset

/-! ## Environment tags -/

/-- A `\begin` or `\end` with a name in braces. -/
structure Tag where
  offset : Nat
  opens : Bool
  name : Text
deriving DecidableEq, Repr

/-- The name in braces at the start of a text, and how many code points it takes with the spaces
before it and the braces. The name holds no brace. -/
def bracedName? (t : Text) : Option (Text × Nat) :=
  let gap := t.takeWhile CodePoint.isSpace
  match t.drop gap.length with
  | .scalar '\x7b' :: rest =>
    let name := rest.takeWhile fun c => c ≠ .scalar '\x7b' && c ≠ .scalar '\x7d'
    match rest.drop name.length with
    | .scalar '\x7d' :: _ => some (name, gap.length + name.length + 2)
    | _ => none
  | _ => none

/-- The tag whose backslash stands before the given text, and how many code points it takes behind
the backslash. -/
def tagAt? (offset : Nat) (rest : Text) : Option (Tag × Nat) :=
  let word? := if rest.startsWith "begin" then some (true, 5)
    else if rest.startsWith "end" then some (false, 3) else none
  word?.bind fun (opens, length) =>
    (bracedName? (rest.drop length)).map fun (name, more) =>
      (⟨offset, opens, name.trim CodePoint.isBlank⟩, length + more)

/-- The tags of a source, in order. The first argument counts the code points still to be passed
over. -/
def tags : (taken : Nat) → (offset : Nat) → Text → List Tag
  | _, _, [] => []
  | taken + 1, offset, _ :: rest => tags taken (offset + 1) rest
  | 0, offset, c :: rest =>
    if c = .scalar '\\' then
      match tagAt? offset rest with
      | some (tag, length) => tag :: tags length (offset + 1) rest
      | none => tags 0 (offset + 1) rest
    else tags 0 (offset + 1) rest

/-- How a tag is shown in a message. -/
def tagText (word : String) (name : Text) (offset : Nat) : Text :=
  Text.ofString word ++ "\x7b" ++ name ++ "\x7d at offset " ++ Text.ofNat offset

/-- The messages about tags. `pending` holds the environments that are open, latest first. -/
def tagErrors : (pending : List Tag) → List Tag → List Text
  | pending, [] =>
    pending.reverse.map fun t => tagText "\\begin" t.name t.offset ++ " is never closed"
  | pending, tag :: rest =>
    if tag.opens then tagErrors (tag :: pending) rest
    else
      match pending with
      | [] =>
        (tagText "\\end" tag.name tag.offset ++ " has no matching \\begin") :: tagErrors [] rest
      | opening :: outer =>
        if opening.name = tag.name then tagErrors outer rest
        else
          (tagText "\\end" tag.name tag.offset ++ " does not match " ++
            tagText "\\begin" opening.name opening.offset) :: tagErrors outer rest

/-- The messages about the environments of a source. -/
def environmentErrors (source : Text) : List Text :=
  tagErrors [] (tags 0 0 source)

/-! ## The whole check -/

/-- The message about a source that is too long. -/
def lengthErrors (limit : Number) (source : Text) : List Text :=
  if limit.isBelow source.length then
    ["Input is too long: " ++ Text.ofNat source.length ++ " > " ++ limit.fullText ++ " characters"]
  else []

/-- The message about the first null character. -/
def nullErrors (source : Text) : List Text :=
  match source.findIdx? (· = .scalar '\x00') with
  | some offset => ["Input contains a null byte at offset " ++ Text.ofNat offset]
  | none => []

/-- The message about the first surrogate. -/
def surrogateErrors (source : Text) : List Text :=
  match source.findIdx? CodePoint.isSurrogate with
  | some offset =>
    ["Input is not valid text: surrogates not allowed at offset " ++ Text.ofNat offset]
  | none => []

/-- The check of a source. -/
def checkText (limit : Number) (source : Text) : Validation :=
  ⟨lengthErrors limit source ++ nullErrors source ++ surrogateErrors source ++
    delimiterErrors source ++ environmentErrors source, []⟩

/-- The check of a value that is to be a source. -/
def check (limit : Number) : Value → Validation
  | .text source => checkText limit source
  | v => ⟨["Input must be a string, got " ++ v.typeName], []⟩

example : (checkText (.int 9) (Text.ofString "\x7b\\\x7d")).errors =
    [Text.ofString "Unmatched opening brace '\x7b' at offset 0"] := by decide +kernel

end MathMarkup.InputCheck
