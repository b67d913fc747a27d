import MathMarkup.Value.Json
import MathMarkup.Value.Yaml.Error

/-!
# Configuration files

A file with options or symbols holds one value, written in YAML when its name ends in `.yaml` or
`.yml` and in JSON otherwise. Its bytes are UTF-8, and each of the line ends CR LF and CR is read as
a line feed. The reader of YAML comes from outside and is a parameter; `Value.ofYaml` reads the part
of YAML that is common in such files.
-/

namespace MathMarkup

/-- Why a file gives no value. -/
inductive FileError where
  | missing
  | notUtf8
  | json (e : Value.Json.Error)
  | yaml (e : Value.Yaml.Error)
deriving DecidableEq, Repr

/-- What is stored under a path. -/
inductive FileContent where
  | missing
  | text (t : Text)
  | bytes (b : ByteArray)

/-- A file by the end of its name and its content. -/
structure ConfigFile where
  suffix : Text
  content : FileContent

namespace ConfigFile

/-- Every line end as a line feed. -/
def unifyLineEnds : Text → Text
  | .scalar '\r' :: .scalar '\n' :: rest => .scalar '\n' :: unifyLineEnds rest
  | .scalar '\r' :: rest => .scalar '\n' :: unifyLineEnds rest
  | c :: rest => c :: unifyLineEnds rest
  | [] => []

/-- Whether the name says YAML. Only the spellings in lower case count. -/
def isYaml (file : ConfigFile) : Bool :=
  (Text.ofString ".yaml").isSuffixOf file.suffix || (Text.ofString ".yml").isSuffixOf file.suffix

/-- Whether there is such a file. -/
def isPresent (file : ConfigFile) : Bool :=
  match file.content with
  | .missing => false
  | _ => true

/-- The text of a file. -/
def text (file : ConfigFile) : Except FileError Text :=
  match file.content with
  | .missing => .error .missing
  | .text t => .ok (unifyLineEnds t)
  | .bytes b =>
    match String.fromUTF8? b with
    | some s => .ok (unifyLineEnds (Text.ofString s))
    | none => .error .notUtf8

/-- The value that a file holds. -/
def load (yaml : Value.Yaml.Reader) (file : ConfigFile) : Except FileError Value := do
  let t ← file.text
  if file.isYaml then (yaml t).mapError .yaml else (Value.ofJson t).mapError .json

end ConfigFile

end MathMarkup
