import MathMarkup.Xml.CodePage
import MathMarkup.Xml.Piece

/-!
# How the bytes of a document are read

A document may start with a declaration that names its encoding. The text at hand was read as UTF-8;
`content?` reads the same bytes in the encoding that is named and drops the declaration. A byte
order mark in front settles the encoding, whatever name is given.
-/

namespace MathMarkup.Xml

/-- How the bytes of a document are read. -/
inductive Encoding where
  | utf8
  /-- ASCII, or a set of which only that part is read. -/
  | ascii
  | oneByte (page : CodePage)
deriving DecidableEq, Repr

namespace Encoding

/-- The text with ASCII letters in lower case. -/
def lowerCase (t : Text) : Text :=
  t.map fun
    | .scalar c => .scalar c.toLower
    | c => c

/-- The names of UTF-8. -/
def utf8Names : List Text :=
  ["utf-8", "utf8"].map Text.ofString

/-- The names of ASCII. -/
def asciiNames : List Text :=
  ["us-ascii", "ascii", "us", "iso646-us", "iso-ir-6", "ansi_x3.4-1968", "ansi_x3.4-1986", "cp367",
   "ibm367", "csascii"].map Text.ofString

/-- The names of sets with several bytes for some characters. -/
def wideNames : List Text :=
  ["euc-jp", "eucjp", "shift_jis", "shift-jis", "sjis", "ms_kanji", "csshiftjis", "cp932",
   "iso-2022-jp", "csiso2022jp", "euc-cn", "euccn", "gb2312", "cn-gb", "csgb2312", "gbk", "cp936",
   "ms936", "windows-936", "gb18030", "big5", "big-5", "big-five", "bigfive", "cn-big5", "csbig5",
   "cp950", "big5-hkscs", "euc-kr", "euckr", "cseuckr", "cp949", "uhc"].map Text.ofString

/-- The encoding with the given name, in any case. -/
def ofName? (name : Text) : Option Encoding :=
  let name := lowerCase name
  if utf8Names.contains name then some .utf8
  else if asciiNames.contains name || wideNames.contains name then some .ascii
  else (CodePage.ofName? name).map .oneByte

/-- The bytes of a code point in UTF-8. A surrogate has none. -/
def bytes? : CodePoint → Option (List Nat)
  | .scalar c => some ((String.utf8EncodeChar c).map UInt8.toNat)
  | .surrogate _ => none

/-- A text of UTF-8 bytes, read in another encoding. -/
def reread? : Encoding → Text → Option Text
  | .utf8, t => some t
  | .ascii, t => if t.all fun c => c.toNat < 0x80 then some t else none
  | .oneByte page, t => (t.mapM bytes?).bind fun bs => bs.flatten.mapM page.decode?

end Encoding

/-! ## The declaration -/

/-- Whether the text is the number of a version that can be read: all those that start with 1. -/
def isVersion : Text → Bool
  | .scalar '1' :: .scalar '.' :: minor => minor.all CodePoint.isDigit
  | _ => false

/-- Whether the text can be the name of an encoding: a letter, then letters, digits, points, hyphens
and underscores. -/
def isEncodingName : Text → Bool
  | [] => false
  | c :: rest => c.isAsciiLetter && rest.all fun d =>
    d.isAsciiLetter || d.isDigit || d = .scalar '.' || d = .scalar '-' || d = .scalar '_'

/-- Whether the fields at the end of a declaration say at most whether the document stands alone. -/
def isStandalone : List (Text × Text) → Bool
  | [] => true
  | [(key, value)] => key = Text.ofString "standalone" &&
    (value = Text.ofString "yes" || value = Text.ofString "no")
  | _ => false

/-- What a declaration with the given fields says about the encoding: its name, if there is one. The
version comes first; the encoding and whether the document stands alone may follow. -/
def encodingName? : List (Text × Text) → Option (Option Text)
  | (key, version) :: fields =>
    if key = Text.ofString "version" ∧ isVersion version then
      match fields with
      | (key, name) :: more =>
        if key = Text.ofString "encoding" then
          if isEncodingName name && isStandalone more then some (some name) else none
        else if isStandalone fields then some none else none
      | [] => some none
    else none
  | [] => none

/-- The encoding that a document names, and its text behind the declaration. A declaration stands at
the very start or nowhere. -/
def splitDeclaration? (t : Text) : Option (Option Text × Text) :=
  match t with
  | .scalar '<' :: .scalar '?' :: .scalar 'x' :: .scalar 'm' :: .scalar 'l' :: c :: rest =>
    if isSpace c then do
      let length ← lengthBefore? "?>" rest
      let body := c :: rest.take length
      if body.contains (.scalar '&') then none
      else
        let fields ← readAttributes? (body.length + 1) body
        return (← encodingName? fields, rest.drop (length + 2))
    else some (none, t)
  | _ => some (none, t)

/-- The text of a document as it is read, behind its declaration. -/
def content? (t : Text) : Option Text :=
  match t with
  | .scalar '\ufeff' :: rest => (splitDeclaration? rest).map Prod.snd
  | _ => do
    let (name?, rest) ← splitDeclaration? t
    match name? with
    | none => return rest
    | some name => (← Encoding.ofName? name).reread? rest

end MathMarkup.Xml
