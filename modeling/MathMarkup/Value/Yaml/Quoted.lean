import MathMarkup.Value.Json
import MathMarkup.Value.Yaml.Cursor
import MathMarkup.Value.Yaml.Error

/-!
# Quoted scalars

Between single quotes a quote is written twice; between double quotes a backslash starts an escape.
A quoted scalar may go over several lines, which are folded: blanks around a line end are dropped. A
backslash before a line end joins the lines.

A scalar is cut into parts first, up to the closing quote; then the parts are folded.
-/

namespace MathMarkup.Value.Yaml

open Json (hexValue?)

/-- A part of a quoted scalar. -/
inductive Part where
  /-- A code point as it is written. -/
  | raw (c : CodePoint)
  /-- A code point that an escape stands for. -/
  | escaped (c : CodePoint)
  /-- An escaped line end. -/
  | joint
deriving DecidableEq, Repr

/-! ## Cutting -/

/-- Whether a code point is a line end before a mark between documents, which no scalar may hold. -/
def breaksOff (c : CodePoint) (rest : Text) : Bool :=
  isBreak c && startsMarker rest

/-- The parts up to the closing single quote, and how many code points they take with it. -/
def readSingle? : Text → Option (List Part × Nat)
  | .scalar '\'' :: .scalar '\'' :: rest =>
    (readSingle? rest).map fun (parts, n) => (.escaped (.scalar '\'') :: parts, n + 2)
  | .scalar '\'' :: _ => some ([], 1)
  | c :: rest =>
    if breaksOff c rest then none
    else (readSingle? rest).map fun (parts, n) => (.raw c :: parts, n + 1)
  | [] => none

/-- The number of the code point that an escape letter stands for, if it is a simple escape. -/
def simpleEscape? : CodePoint → Option Nat
  | .scalar '0' => some 0x00
  | .scalar 'a' => some 0x07
  | .scalar 'b' => some 0x08
  | .scalar 't' => some 0x09
  | .scalar '\t' => some 0x09
  | .scalar 'n' => some 0x0A
  | .scalar 'v' => some 0x0B
  | .scalar 'f' => some 0x0C
  | .scalar 'r' => some 0x0D
  | .scalar 'e' => some 0x1B
  | .scalar ' ' => some 0x20
  | .scalar '"' => some 0x22
  | .scalar '/' => some 0x2F
  | .scalar '\\' => some 0x5C
  | .scalar 'N' => some 0x85
  | .scalar '_' => some 0xA0
  | .scalar 'L' => some 0x2028
  | .scalar 'P' => some 0x2029
  | _ => none

/-- How many hexadecimal digits follow an escape letter. -/
def escapeWidth : CodePoint → Nat
  | .scalar 'x' => 2
  | .scalar 'u' => 4
  | .scalar 'U' => 8
  | _ => 0

/-- The code point of hexadecimal digits. -/
def codePointOf (digits : Text) : Except Error CodePoint := do
  let step (n : Nat) (c : CodePoint) : Except Error Nat :=
    match hexValue? c with
    | some d => .ok (n * 16 + d)
    | none => .error .malformed
  match CodePoint.ofNat? (← digits.foldlM step 0) with
  | some c => .ok c
  | none => .error .noCodePoint

/-- The part that an escape letter and the text behind it give, and how many code points it takes
behind the letter. -/
def readEscape (e : CodePoint) (rest : Text) : Except Error (Part × Nat) :=
  match simpleEscape? e with
  | some n => .ok (.escaped (.scalar (Char.ofNat n)), 0)
  | none =>
    let width := escapeWidth e
    if isBreak e then
      if startsMarker rest then .error .malformed else .ok (.joint, 0)
    else if width = 0 ∨ (rest.take width).length < width then .error .malformed
    else (codePointOf (rest.take width)).map fun c => (.escaped c, width)

/-- The parts up to the closing double quote, and how many code points they take with it. The first
argument counts the code points of an escape already read. -/
def readDouble : (taken : Nat) → Text → Except Error (List Part × Nat)
  | _, [] => .error .malformed
  | taken + 1, _ :: rest => (readDouble taken rest).map fun (parts, n) => (parts, n + 1)
  | 0, .scalar '"' :: _ => .ok ([], 1)
  | 0, .scalar '\\' :: rest =>
    match rest with
    | [] => .error .malformed
    | e :: behind => do
      let (part, width) ← readEscape e behind
      let (parts, n) ← readDouble (width + 1) rest
      return (part :: parts, n + 1)
  | 0, c :: rest =>
    if breaksOff c rest then .error .malformed
    else (readDouble 0 rest).map fun (parts, n) => (.raw c :: parts, n + 1)

/-! ## Folding -/

/-- What stands between two visible parts: blanks on one line, line ends, or line ends behind a
joint, which are all kept. -/
inductive Between where
  | blanks (t : Text)
  | breaks (breaks : List CodePoint)
  | joined (breaks : List CodePoint)

namespace Between

/-- The text that it gives. -/
def text : Between → Text
  | .blanks t => t
  | .breaks bs => foldBreaks bs
  | .joined bs => bs.map breakValue

/-- A blank more. Next to line ends, blanks do not count. -/
def addBlank (c : CodePoint) : Between → Between
  | .blanks t => .blanks (t ++ [c])
  | b => b

/-- A line end more. -/
def addBreak (c : CodePoint) : Between → Between
  | .blanks _ => .breaks [c]
  | .breaks bs => .breaks (bs ++ [c])
  | .joined bs => .joined (bs ++ [c])

end Between

/-- The text of parts, behind what has been read since the last visible one. -/
def foldParts : Between → List Part → Text
  | b, [] => b.text
  | b, .raw c :: rest =>
    if isBreak c then foldParts (b.addBreak c) rest
    else if isGap c then foldParts (b.addBlank c) rest
    else b.text ++ c :: foldParts (.blanks []) rest
  | b, .escaped c :: rest => b.text ++ c :: foldParts (.blanks []) rest
  | b, .joint :: rest => b.text ++ foldParts (.joined []) rest

/-- The text of the parts of a quoted scalar. -/
def partsText (parts : List Part) : Text :=
  foldParts (.blanks []) parts

end MathMarkup.Value.Yaml
