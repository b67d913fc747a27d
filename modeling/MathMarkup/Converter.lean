import MathMarkup.Draft.Writer
import MathMarkup.Host
import MathMarkup.InputCheck
import MathMarkup.Markup.Check
import MathMarkup.Parser.Expression

/-!
# Converting sources to markup

A converter holds default options and a grammar. A conversion resolves its options, checks the
source, parses it, writes the tree as a document, and checks the document; what goes wrong with the
source on the way is told in the result, with a document that shows the source in place of the
formula.

A conversion runs on a `Host`. If the parse of the source uses up the stack, that is told in the
result, too; but nothing is left to tell it where the tree is written, or where a value that is no
text is spelled to be shown.
-/

namespace MathMarkup

/-- What converts sources: options for calls that give none, and a grammar. -/
structure Converter where
  options : Options
  grammar : Grammar

namespace Converter

/-- The converter with the given default options and symbols. -/
def ofSymbols (options : Options) (symbols : Symbol.Table) : Logged Converter := do
  let grammar ← Grammar.ofSymbols symbols
  return ⟨options, grammar⟩

/-- The symbols of a file, or the default ones. -/
def symbols (yaml : Value.Yaml.Reader) (file : Option ConfigFile) (path : Text) :
    Logged (Except SpellError Symbol.Table) :=
  match file with
  | none => pure (.ok .default)
  | some file => Symbol.Table.load yaml file path

/-- The converter with the given default options and the symbols of a file. -/
def create (yaml : Value.Yaml.Reader) (options : Options) (file : Option ConfigFile) (path : Text) :
    Logged (Except SpellError Converter) := do
  match ← symbols yaml file path with
  | .error e => return .error e
  | .ok table => return .ok (← ofSymbols options table)

/-- The converter with all defaults. -/
def default : Converter :=
  (ofSymbols {} .default).value

/-! ## Parsing -/

/-- Why a value gives no tree. -/
inductive ParseFailure where
  /-- The value is no text. -/
  | notText (typeName : Text)
  | parse (e : ParseError)
  /-- The stack is used up. -/
  | overflow (message : Text)
deriving Repr

/-- The message of a failure. -/
def ParseFailure.message : ParseFailure → Text
  | .notText typeName => "LaTeX input must be a string, got " ++ typeName
  | .parse e => e.diagnostic.shown
  | .overflow message => message

/-- The tree of a source. -/
def parse (c : Converter) (options : Option Options) (latex : Value) (host : Host := {}) :
    Logged (Except ParseFailure Node) :=
  let o := options.getD c.options
  match latex with
  | .text source =>
    if host.parses o source then do
      let result ← MathMarkup.parse c.grammar o source
      return result.mapError .parse
    else return .error (.overflow host.overflowMessage)
  | v => return .error (.notText v.typeName)

/-! ## Converting -/

/-- Why a conversion or a validation gives no result at all. -/
inductive Failure where
  | options (e : Options.Error)
  /-- A value that is to be shown, or a symbol of a file, has no spelling. -/
  | unspelled (e : SpellError)
  /-- The stack is used up. -/
  | overflow
  | generate (e : Draft.GenerateError)
  | check (e : Markup.CheckError)
deriving Repr

/-- The text that stands for a value: itself if it is one, and its spelling with quotes if not. -/
def sourceText (host : Host) : Value → Except Failure Text
  | .text source => .ok source
  | v => if host.spells v then (v.literal host.digits).mapError .unspelled else .error .overflow

/-- Whether a code point of a source is shown in the place of the formula. -/
def isShowable (c : CodePoint) : Bool :=
  c = .scalar '\t' || c = .scalar '\n' || c = .scalar '\r' || (0x20 ≤ c.toNat && !c.isSurrogate)

/-- The most code points of a source that are shown. -/
def shownLength : Nat := 100

/-- The part of a source that is shown in the place of the formula. -/
def excerpt (source : Text) : Text :=
  let cut := if shownLength < source.length then source.take shownLength ++ "..." else source
  cut.filter isShowable

/-- The tree that takes the place of the formula. -/
def errorNode (source : Text) : Node :=
  .element "merror" [] [.textElement ("Failed to convert: " ++ excerpt source) []]

/-- The result of a conversion that failed on account of the source. -/
def failed (host : Host) (latex : Value) (display : Bool) (errors : List Text)
    (details : List Diagnostic) : Except Failure Conversion := do
  let source ← sourceText host latex
  let tree := Draft.document (.ofNode (errorNode source))
  let mathml ← (tree.serialize display).mapError fun e => .generate (.write e)
  return { mathml := mathml, errors := errors, details := details }

/-- The result of a conversion with the problems of its document added to the warnings. -/
def recheck (xml : Xml.Reader) (conversion : Conversion) : Logged (Except Failure Conversion) :=
  if conversion.mathml.isEmpty then pure (.ok conversion)
  else match Markup.check xml conversion.mathml with
    | .error e => pure (.error (.check e))
    | .ok [] => pure (.ok conversion)
    | .ok problems => do
      let shown := match problems with
        | [p] => "(" ++ p.quoted ++ ",)"
        | _ => "(" ++ Text.join ", " (problems.map Text.quoted) ++ ")"
      .say .debug .converter ("Generated MathML has problems: " ++ shown)
      return .ok { conversion with warnings := conversion.warnings ++ problems }

/-- The document of a tree. -/
def generate (display : Bool) (node : Node) (host : Host := {}) :
    Logged (Except Failure Conversion) :=
  if host.walks node then do
    let result ← (Draft.ofNode node).generate display
    return result.mapError .generate
  else return .error .overflow

/-- The check of a source against the limit on its length. -/
def checkInput (c : Converter) (options : Option Options) (latex : Value) : Validation :=
  InputCheck.check (options.getD c.options).maxInputLength.number latex

/-- The conversion of a source with resolved options. What is written to the log before the stack is
used up is not told. -/
def convertWith (c : Converter) (o : Options) (latex : Value) (host : Host := {}) :
    Logged (Except Failure Conversion) := do
  let display := o.displayMode.isTruthy
  let input := c.checkInput (some o) latex
  if !input.isValid then
    .say .warning .converter ("Rejected LaTeX input: " ++ Draft.messageList input.errors)
    return failed host latex display input.errors []
  else match ← c.parse (some o) latex host with
    | .error (.parse e) =>
      .say .warning .converter ("Failed to parse LaTeX: " ++ e.diagnostic.shown)
      return failed host latex display [e.diagnostic.shown] [e.diagnostic]
    | .error e =>
      .say .error .converter ("Failed to convert LaTeX to MathML: " ++ e.message)
      return failed host latex display ["Internal error: " ++ e.message] []
    | .ok node =>
      match ← generate display node host with
      | .error e => return .error e
      | .ok conversion => recheck host.xml conversion

/-- The conversion of a source. The options are those given, or the converter's, changed by the
overrides. -/
def convert (c : Converter) (latex : Value) (options : Option Options)
    (overrides : List (Scalar × Value)) (host : Host := {}) :
    Logged (Except Failure Conversion) := do
  match ← (options.getD c.options).withOverrides overrides with
  | .error e => return .error (.options e)
  | .ok o => c.convertWith o latex host

/-- The conversion of a source for display or inside a line. The overrides may change that again. -/
def convertAs (c : Converter) (display : Bool) (latex : Value)
    (overrides : List (Scalar × Value)) (host : Host := {}) : Logged (Except Failure Conversion) :=
  c.convert latex none ((.text "display_mode", .bool display) :: overrides) host

/-! ## Validating -/

/-- The messages about a source that is parsed strictly: those of the check before the parse, and
the error of the parse or the violations of the tree. There is no result if the stack is used up. -/
def validate (c : Converter) (latex : Value) (options : Option Options) (host : Host := {}) :
    Logged (Except Failure Validation) := do
  let o := { options.getD c.options with strictMode := .bool true }
  let input := c.checkInput (some o) latex
  if !latex.isText then return .ok ⟨input.errors, []⟩
  else match ← c.parse (some o) latex host with
    | .error (.parse e) => return .ok ⟨input.errors ++ [e.diagnostic.shown], []⟩
    | .error _ => return .error .overflow
    | .ok node =>
      if host.walks node then
        match ← (Draft.ofNode node).checkLogged with
        | .error e => return .error (.unspelled e)
        | .ok tree => return .ok ⟨input.errors ++ tree.errors, []⟩
      else return .error .overflow

end Converter

/-- The markup text of a source, converted with default options. -/
def latexToMathml (yaml : Value.Yaml.Reader) (latex display : Value) (file : Option ConfigFile)
    (path : Text) (host : Host := {}) : Except Converter.Failure Text := do
  let converter ← (Converter.create yaml {} file path).value.mapError .unspelled
  let result ← (converter.convert latex none [(.text "display_mode", display)] host).value
  return result.mathml

end MathMarkup
