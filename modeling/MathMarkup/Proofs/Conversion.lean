import MathMarkup.Converter
import MathMarkup.Proofs.Content
import MathMarkup.Proofs.Generation
import MathMarkup.Proofs.ParsedTree
import MathMarkup.Proofs.Spelled

/-!
# The results of conversions

The document of a conversion is written from a tree with plain names: that of the source, or the one
that takes its place. So writing does not fail, reading it back for the last check does not fail
either, and a tree that comes out of a parse adds no error. What is left to go wrong lies with the
host: a value that is no text may have no spelling, and the stack may be used up where a tree is
gone through (`Converter.Exhausted`).

`Converter.Outcome` lists the ways a conversion ends, and `Converter.Answers` what a result says
about the value that was converted.
-/

namespace MathMarkup

/-! ## Texts without surrogates -/

/-- A text that holds no half of a surrogate pair. -/
def Text.IsValid (t : Text) : Prop :=
  t.Over fun c => c.isSurrogate = false

namespace Text

theorem isValid_ofString (s : String) : IsValid (ofString s) := by
  intro c hc
  obtain ⟨d, _, rfl⟩ := List.mem_map.mp hc
  rfl

end Text

/-- A source that passes the check holds no surrogate. -/
theorem InputCheck.isValid_of_check {limit : Number} {source : Text}
    (h : (check limit (.text source)).isValid = true) : source.IsValid := by
  have herrors : (checkText limit source).errors = [] := List.isEmpty_iff.mp h
  have hsurrogate : surrogateErrors source = [] := by
    simp only [checkText, List.append_eq_nil_iff] at herrors
    exact herrors.1.1.2
  unfold surrogateErrors at hsurrogate
  split at hsurrogate
  · cases hsurrogate
  · next hnone =>
    intro c hc
    exact List.findIdx?_eq_none_iff.mp hnone c hc

/-- What the default symbols stand for holds no surrogate. -/
theorem Symbol.Table.isValid_default (category : Category) :
    ∀ e ∈ Table.default.mapping category, e.2.IsValid := by
  have htexts : ∀ entries : List (String × String), ∀ e ∈ Category.texts entries,
      e.2.IsValid := by
    intro entries e he
    obtain ⟨x, _, rfl⟩ := List.mem_map.mp he
    exact Text.isValid_ofString x.2
  cases category <;> exact htexts _

/-! ## Valid documents -/

namespace Node

/-- The text of a node, or the values of its attributes, are valid. -/
def IsValid : Node → Prop
  | .text content => content.IsValid
  | .element _ attributes _ => ∀ a ∈ attributes, a.2.IsValid

end Node

theorem isValid_documentText (display : Bool) {n : Node} (hp : ∀ m ∈ n.nodes, m.Plain)
    (hv : ∀ m ∈ n.nodes, m.IsValid) : (documentText display n).IsValid := by
  refine over_documentText (fun _ _ => rfl) display hp fun m hm => ?_
  have hm' := hv m hm
  cases m <;> exact hm'

/-! ## The two trees of a conversion -/

/-- A tree without a root of its own that passes the check, is written, and is read back. -/
structure Node.Proper (n : Node) : Prop where
  inner : n.hasName "math" = false
  sound : ∀ m ∈ n.nodes, m.Sound
  plain : ∀ m ∈ n.nodes, m.Plain

theorem Node.Proper.serialize {n : Node} (h : n.Proper) (display : Bool) :
    Draft.serialize display (Draft.document (.ofNode n)) = .ok (documentText display n) :=
  serialize_document display h.inner h.plain

theorem Parser.Built.proper {p : CodePoint → Prop} {bare : Prop} {n : Node} (h : Built p bare n) :
    n.Proper :=
  ⟨h.hasName_math, h.forall_nodes (fun _ hm => hm.sound) fun _ _ => trivial,
    h.forall_nodes (fun _ hm => hm.plain) fun _ _ => trivial⟩

/-- The trees of all sources, whatever the symbols. -/
theorem Node.proper_of_parse {symbols : Symbol.Table} {options : Options} {source : Text}
    {node : Node}
    (h : (parse (Grammar.ofSymbols symbols).value options source).value = .ok node) :
    node.Proper := by
  have hm : Material (fun _ => True) ⟨(Grammar.ofSymbols symbols).value, options, source⟩
      (Token.tokenize source) :=
    material_ofSymbols (fun _ _ => trivial) ⟨trivial, trivial⟩ (fun _ _ _ _ _ => trivial) options
      fun _ _ => trivial
  have hb : Parser.Built (fun _ => True) True node :=
    Parser.built_of_parse hm (fun _ _ _ _ _ _ => Or.inr trivial) h
  exact hb.proper

/-- With the default symbols, a source that passes the check has a tree without surrogates. -/
theorem Node.isValid_of_parse {options : Options} {source : Text} {node : Node}
    (hsource : source.IsValid)
    (h : (parse (Grammar.ofSymbols .default).value options source).value = .ok node) :
    ∀ m ∈ node.nodes, m.IsValid := by
  have hm := material_ofSymbols (p := fun c => c.isSurrogate = false) (fun _ _ => rfl) ⟨rfl, rfl⟩
    Symbol.Table.isValid_default options hsource
  have hb : Parser.Built (fun c => c.isSurrogate = false) True node :=
    Parser.built_of_parse hm (fun _ _ _ _ _ _ => Or.inr trivial) h
  refine hb.forall_nodes (fun m hbm => ?_) fun _ hcontent => hcontent
  cases m with
  | text content =>
    cases hbm
    exact Text.over_nil
  | element name attributes children => exact hbm.names.2.values

namespace Converter

theorem isValid_excerpt (source : Text) : (excerpt source).IsValid := by
  intro c hc
  have hshow : isShowable c = true := (List.mem_filter.mp hc).2
  cases c with
  | scalar d => rfl
  | surrogate n => simp [isShowable, CodePoint.isSurrogate] at hshow

theorem nodes_errorNode (source : Text) : (errorNode source).nodes =
    [errorNode source, .textElement ("Failed to convert: " ++ excerpt source) [],
      .text ("Failed to convert: " ++ excerpt source)] := rfl

/-- The tree that takes the place of the formula. -/
theorem proper_errorNode (source : Text) : (errorNode source).Proper := by
  have hinner : Text.ofString "merror" ≠ Text.ofString "math" := by decide
  have hattributes : Xml.PlainAttributes [] := ⟨by simp, by simp, by simp⟩
  refine ⟨decide_eq_false hinner, ?_, ?_⟩
  · simp only [nodes_errorNode, List.forall_mem_cons]
    exact ⟨⟨by decide, by simp, Parser.fits_of_isFree (by simp) _⟩,
      ⟨by decide, by simp, Parser.fits_of_isFree (by simp) _⟩, trivial, by simp⟩
  · simp only [nodes_errorNode, List.forall_mem_cons]
    exact ⟨⟨by decide, by decide, hattributes⟩, ⟨by decide, by decide, hattributes⟩, trivial,
      by simp⟩

theorem isValid_errorNode (source : Text) : ∀ m ∈ (errorNode source).nodes, m.IsValid := by
  simp only [nodes_errorNode, List.forall_mem_cons]
  exact ⟨fun a ha => absurd ha List.not_mem_nil, fun a ha => absurd ha List.not_mem_nil,
    (Text.isValid_ofString _).append (isValid_excerpt source), by simp⟩

/-! ## The steps of a conversion -/

/-- The result for a tree. -/
def formula (o : Options) (node : Node) : Conversion where
  mathml := documentText o.displayMode.isTruthy node
  warnings := node.findings.map Markup.Problem.message

/-- The result that shows a source in the place of the formula. -/
def replacement (o : Options) (errors : List Text) (details : List Diagnostic) (source : Text) :
    Conversion where
  mathml := documentText o.displayMode.isTruthy (errorNode source)
  errors := errors
  details := details

theorem failed_eq (host : Host) (o : Options) (latex : Value) (errors : List Text)
    (details : List Diagnostic) :
    failed host latex o.displayMode.isTruthy errors details =
      (sourceText host latex).map (replacement o errors details) := by
  unfold failed
  cases sourceText host latex with
  | error failure => rfl
  | ok source =>
    have hwritten := (proper_errorNode source).serialize o.displayMode.isTruthy
    exact bind_eq_ok_iff.mpr ⟨source, rfl, bind_eq_ok_iff.mpr
      ⟨_, mapError_eq_ok_iff.mpr hwritten, rfl⟩⟩

/-- The last check adds what it finds to the warnings and changes nothing else. -/
theorem recheck_eq {xml : Xml.Reader} (hxml : xml.ReadsDocuments) (o : Options) {node : Node}
    (h : node.Proper) :
    (recheck xml { mathml := documentText o.displayMode.isTruthy node }).value =
      .ok (formula o node) := by
  have hfilled : (documentText o.displayMode.isTruthy node).isEmpty = false := rfl
  unfold recheck formula
  dsimp only
  rw [hfilled, if_neg Bool.false_ne_true, check_documentText hxml _ h.plain]
  cases node.findings with
  | nil => rfl
  | cons p ps => rfl

/-- A tree that passes the check is generated without a message. -/
theorem generate_proper {host : Host} (display : Bool) {node : Node} (h : node.Proper)
    (hroom : host.walks node = true) :
    (generate display node host).value = .ok { mathml := documentText display node } := by
  have hcheck := (Draft.check_ofNode_iff node).mpr h.sound
  have hgenerate : ((Draft.ofNode node).generate display).value = _ :=
    Draft.value_generate_of_check hcheck
  rw [h.serialize] at hgenerate
  unfold generate
  rw [if_pos hroom, Logged.value_bind, hgenerate]
  rfl

/-! ## The ways a conversion ends -/

/-- The messages of a conversion that gets no tree. -/
def ParseFailure.errors : ParseFailure → List Text
  | .parse e => [e.diagnostic.shown]
  | e => ["Internal error: " ++ e.message]

/-- The reports of a conversion that gets no tree. -/
def ParseFailure.details : ParseFailure → List Diagnostic
  | .parse e => [e.diagnostic]
  | _ => []

theorem ParseFailure.errors_ne_nil (e : ParseFailure) : e.errors ≠ [] := by
  cases e <;> exact List.cons_ne_nil _ _

/-- How a conversion with resolved options ends. -/
inductive Outcome (c : Converter) (o : Options) (host : Host) :
    Value → Except Failure Conversion → Prop where
  /-- A value that is no text is to be shown, and has no spelling. -/
  | unspelled {v : Value} {failure : Failure} (hv : v.isText = false)
    (h : sourceText host v = .error failure) : Outcome c o host v (.error failure)
  | rejected {v : Value} {source : Text} (hcheck : (c.checkInput (some o) v).isValid = false)
    (h : sourceText host v = .ok source) :
    Outcome c o host v (.ok (replacement o (c.checkInput (some o) v).errors [] source))
  | unparsed {source : Text} {e : ParseFailure}
    (hcheck : (c.checkInput (some o) (.text source)).isValid = true)
    (h : (c.parse (some o) (.text source) host).value = .error e) :
    Outcome c o host (.text source) (.ok (replacement o e.errors e.details source))
  /-- The stack is used up where the tree is gone through. -/
  | unwalked {source : Text} {node : Node}
    (hcheck : (c.checkInput (some o) (.text source)).isValid = true)
    (h : (c.parse (some o) (.text source) host).value = .ok node)
    (hroom : host.walks node = false) : Outcome c o host (.text source) (.error .overflow)
  | converted {source : Text} {node : Node}
    (hcheck : (c.checkInput (some o) (.text source)).isValid = true)
    (h : (c.parse (some o) (.text source) host).value = .ok node)
    (hroom : host.walks node = true) : Outcome c o host (.text source) (.ok (formula o node))

variable {c : Converter} {o : Options} {host : Host}

theorem isText_of_isValid {latex : Value} (h : (c.checkInput (some o) latex).isValid = true) :
    ∃ source, latex = .text source := by
  unfold checkInput InputCheck.check at h
  split at h
  · exact ⟨_, rfl⟩
  · cases h

/-- A text is parsed, if the stack has room for it. -/
theorem value_parse_text (source : Text) : (c.parse (some o) (.text source) host).value =
    if host.parses o source then (MathMarkup.parse c.grammar o source).value.mapError .parse
    else .error (.overflow host.overflowMessage) := by
  unfold parse
  exact apply_ite Logged.value _ _ _

theorem parse_eq_ok_iff {source : Text} {node : Node} :
    (c.parse (some o) (.text source) host).value = .ok node ↔
      host.parses o source = true ∧ (MathMarkup.parse c.grammar o source).value = .ok node := by
  rw [value_parse_text]
  split
  · next h => rw [mapError_eq_ok_iff, and_iff_right h]
  · next h => exact iff_of_false nofun fun hparse => h hparse.1

variable {symbols : Symbol.Table}

theorem proper_of_parse (hc : c.grammar = (Grammar.ofSymbols symbols).value) {source : Text}
    {node : Node} (h : (c.parse (some o) (.text source) host).value = .ok node) : node.Proper :=
  Node.proper_of_parse (hc ▸ (parse_eq_ok_iff.mp h).2)

theorem convertWith_rejected {latex : Value}
    (h : (c.checkInput (some o) latex).isValid = false) :
    (c.convertWith o latex host).value =
      (sourceText host latex).map (replacement o (c.checkInput (some o) latex).errors []) := by
  unfold convertWith
  simp [h, failed_eq]

/-- A value that passes the check is parsed, and its tree is written and checked. -/
theorem convertWith_of_isValid {latex : Value} (h : (c.checkInput (some o) latex).isValid = true) :
    (c.convertWith o latex host).value = match (c.parse (some o) latex host).value with
      | .error e => (sourceText host latex).map (replacement o e.errors e.details)
      | .ok node => match (generate o.displayMode.isTruthy node host).value with
        | .error failure => .error failure
        | .ok conversion => (recheck host.xml conversion).value := by
  unfold convertWith
  simp only [h, Bool.not_true, Bool.false_eq_true, if_false, Logged.value_bind, failed_eq]
  cases hparse : (c.parse (some o) latex host).value with
  | error e => cases e <;> rfl
  | ok node =>
    simp only [Logged.value_bind]
    cases (generate o.displayMode.isTruthy node host).value <;> rfl

theorem convertWith_unparsed {source : Text} {e : ParseFailure}
    (h : (c.checkInput (some o) (.text source)).isValid = true)
    (he : (c.parse (some o) (.text source) host).value = .error e) :
    (c.convertWith o (.text source) host).value =
      .ok (replacement o e.errors e.details source) := by
  rw [convertWith_of_isValid h, he]
  rfl

theorem convertWith_unwalked {source : Text} {node : Node}
    (h : (c.checkInput (some o) (.text source)).isValid = true)
    (hnode : (c.parse (some o) (.text source) host).value = .ok node)
    (hroom : host.walks node = false) :
    (c.convertWith o (.text source) host).value = .error .overflow := by
  rw [convertWith_of_isValid h, hnode]
  simp only [generate, hroom]
  rfl

theorem convertWith_proper (hxml : host.xml.ReadsDocuments) {source : Text} {node : Node}
    (h : (c.checkInput (some o) (.text source)).isValid = true)
    (hnode : (c.parse (some o) (.text source) host).value = .ok node)
    (hroom : host.walks node = true) (hp : node.Proper) :
    (c.convertWith o (.text source) host).value = .ok (formula o node) := by
  rw [convertWith_of_isValid h, hnode]
  simp only [generate_proper _ hp hroom, recheck_eq hxml o hp]

/-- A conversion ends in one of these ways. -/
theorem outcome_convertWith (hc : c.grammar = (Grammar.ofSymbols symbols).value)
    (hxml : host.xml.ReadsDocuments) (o : Options) (latex : Value) :
    Outcome c o host latex (c.convertWith o latex host).value := by
  cases hcheck : (c.checkInput (some o) latex).isValid with
  | false =>
    rw [convertWith_rejected hcheck]
    cases hsource : sourceText host latex with
    | ok source => exact .rejected hcheck hsource
    | error failure =>
      refine .unspelled (Bool.eq_false_iff.mpr fun htext => ?_) hsource
      obtain ⟨source, rfl⟩ := Value.isText_iff.mp htext
      cases hsource
  | true =>
    obtain ⟨source, rfl⟩ := isText_of_isValid hcheck
    cases hparse : (c.parse (some o) (.text source) host).value with
    | error e =>
      rw [convertWith_unparsed hcheck hparse]
      exact .unparsed hcheck hparse
    | ok node =>
      cases hroom : host.walks node with
      | false =>
        rw [convertWith_unwalked hcheck hparse hroom]
        exact .unwalked hcheck hparse hroom
      | true =>
        rw [convertWith_proper hxml hcheck hparse hroom (proper_of_parse hc hparse)]
        exact .converted hcheck hparse hroom

/-- A conversion whose options can be resolved is one with the resolved options. -/
theorem value_convert {latex : Value} {options : Option Options}
    {overrides : List (Scalar × Value)}
    (ho : ((options.getD c.options).withOverrides overrides).value = .ok o) :
    (c.convert latex options overrides host).value = (c.convertWith o latex host).value := by
  unfold convert
  rw [Logged.value_bind, ho]

/-! ## No result -/

/-- What keeps a conversion from giving a result: a value that is no text has no spelling, or the
stack is used up where the tree of a source is gone through. -/
inductive Exhausted (c : Converter) (o : Options) (host : Host) : Value → Failure → Prop where
  | spelling {v : Value} (hv : v.isText = false) (hroom : host.spells v = false) :
    Exhausted c o host v .overflow
  | digits {v : Value} {e : SpellError} (hv : v.isText = false) (hroom : host.spells v = true)
    (h : Value.TooLong host.digits v.scalars e) : Exhausted c o host v (.unspelled e)
  | tree {source : Text} {node : Node}
    (hcheck : (c.checkInput (some o) (.text source)).isValid = true)
    (h : (c.parse (some o) (.text source) host).value = .ok node)
    (hroom : host.walks node = false) : Exhausted c o host (.text source) .overflow

/-- A text always has a result where the stack has room for all trees. -/
theorem not_exhausted_text {source : Text} {failure : Failure}
    (hroom : ∀ node, host.walks node = true) : ¬Exhausted c o host (.text source) failure := by
  intro h
  cases h with
  | spelling hv => cases hv
  | digits hv => cases hv
  | @tree _ node _ _ hfull => exact absurd ((hroom node).symm.trans hfull) (by decide)

theorem sourceText_of_isText {v : Value} (hv : v.isText = false) : sourceText host v =
    if host.spells v then (v.literal host.digits).mapError .unspelled else .error .overflow := by
  unfold sourceText
  split
  · cases hv
  · rfl

theorem exhausted_of_sourceText {v : Value} {failure : Failure} (hv : v.isText = false)
    (h : sourceText host v = .error failure) : Exhausted c o host v failure := by
  rw [sourceText_of_isText hv] at h
  split at h
  · next hroom =>
    obtain ⟨e, he, rfl⟩ := mapError_eq_error_iff.mp h
    exact .digits hv hroom ((Value.literal_eq_error_iff v e).mp he)
  · next hroom =>
    cases h
    exact .spelling hv (Bool.eq_false_iff.mpr hroom)

theorem convertWith_of_unspelled {v : Value} {failure : Failure} (hv : v.isText = false)
    (h : sourceText host v = .error failure) : (c.convertWith o v host).value = .error failure := by
  have hcheck : (c.checkInput (some o) v).isValid = false := by
    refine Bool.eq_false_iff.mpr fun hvalid => ?_
    obtain ⟨source, rfl⟩ := isText_of_isValid hvalid
    cases hv
  rw [convertWith_rejected hcheck, h]
  rfl

theorem convertWith_of_exhausted {latex : Value} {failure : Failure}
    (h : Exhausted c o host latex failure) :
    (c.convertWith o latex host).value = .error failure := by
  cases h with
  | spelling hv hroom =>
    refine convertWith_of_unspelled hv ?_
    rw [sourceText_of_isText hv, if_neg (Bool.eq_false_iff.mp hroom)]
  | digits hv hroom h =>
    refine convertWith_of_unspelled hv ?_
    rw [sourceText_of_isText hv, if_pos hroom, (Value.literal_eq_error_iff _ _).mpr h]
    rfl
  | tree hcheck h hroom => exact convertWith_unwalked hcheck h hroom

/-- A conversion gives no result exactly if its host is exhausted. -/
theorem convertWith_eq_error_iff (hc : c.grammar = (Grammar.ofSymbols symbols).value)
    (hxml : host.xml.ReadsDocuments) {latex : Value} {failure : Failure} :
    (c.convertWith o latex host).value = .error failure ↔ Exhausted c o host latex failure := by
  refine ⟨fun h => ?_, convertWith_of_exhausted⟩
  have houtcome := outcome_convertWith hc hxml o latex
  rw [h] at houtcome
  cases houtcome with
  | unspelled hv hsource => exact exhausted_of_sourceText hv hsource
  | unwalked hcheck hparse hroom => exact .tree hcheck hparse hroom

/-! ## Results -/

/-- What a result says about the value that was converted. -/
structure Answers (c : Converter) (o : Options) (latex : Value) (host : Host) (r : Conversion) :
    Prop where
  /-- A conversion succeeds for a text that passes the check and has a tree. -/
  successful_iff : r.isSuccessful = true ↔ (∃ source, latex = .text source) ∧
    (c.checkInput (some o) latex).isValid = true ∧
    ∃ node, (c.parse (some o) latex host).value = .ok node
  /-- The document is then that of the tree. -/
  converted : ∀ node, r.isSuccessful = true → (c.parse (some o) latex host).value = .ok node →
    r.errors = [] ∧ r.details = [] ∧
      Draft.serialize o.displayMode.isTruthy (Draft.document (.ofNode node)) = .ok r.mathml
  /-- Otherwise it shows the value in the place of the formula. -/
  replaced : r.isSuccessful = false → r.errors ≠ [] ∧ ∃ source, sourceText host latex = .ok source ∧
    Draft.serialize o.displayMode.isTruthy (Draft.document (.ofNode (errorNode source))) =
      .ok r.mathml
  rejected : (c.checkInput (some o) latex).isValid = false →
    r.errors = (c.checkInput (some o) latex).errors ∧ r.details = []
  unparsed : ∀ e, (c.checkInput (some o) latex).isValid = true →
    (c.parse (some o) latex host).value = .error (.parse e) →
    r.errors = [e.diagnostic.shown] ∧ r.details = [e.diagnostic]
  /-- A parse that uses up the stack is told of, too. -/
  overflow : ∀ message, (c.checkInput (some o) latex).isValid = true →
    (c.parse (some o) latex host).value = .error (.overflow message) →
    r.errors = ["Internal error: " ++ message] ∧ r.details = []
  /-- The document holds no surrogate. -/
  valid : r.mathml.IsValid

theorem answers_rejected {latex : Value} {source : Text}
    (h : (c.checkInput (some o) latex).isValid = false) (hs : sourceText host latex = .ok source) :
    c.Answers o latex host (replacement o (c.checkInput (some o) latex).errors [] source) := by
  have hp := proper_errorNode source
  have hfailed : (c.checkInput (some o) latex).errors.isEmpty = false := h
  have hinvalid : ¬(c.checkInput (some o) latex).isValid = true := Bool.eq_false_iff.mp h
  exact {
    successful_iff := ⟨fun hr => absurd (hfailed.symm.trans hr) (by decide),
      fun hr => absurd hr.2.1 hinvalid⟩
    converted := fun node hr => absurd (hfailed.symm.trans hr) (by decide)
    replaced := fun _ => ⟨List.isEmpty_eq_false_iff.mp hfailed, source, hs, hp.serialize _⟩
    rejected := fun _ => ⟨rfl, rfl⟩
    unparsed := fun e hvalid => absurd hvalid hinvalid
    overflow := fun message hvalid => absurd hvalid hinvalid
    valid := isValid_documentText _ hp.plain (isValid_errorNode source) }

theorem answers_unparsed {source : Text} {e : ParseFailure}
    (h : (c.checkInput (some o) (.text source)).isValid = true)
    (he : (c.parse (some o) (.text source) host).value = .error e) :
    c.Answers o (.text source) host (replacement o e.errors e.details source) := by
  have hp := proper_errorNode source
  have hfailed : (replacement o e.errors e.details source).isSuccessful = false :=
    List.isEmpty_eq_false_iff.mpr e.errors_ne_nil
  have hvalid : ¬(c.checkInput (some o) (.text source)).isValid = false := by simp [h]
  exact {
    successful_iff := by simp [hfailed, he]
    converted := fun node hr => absurd (hfailed.symm.trans hr) (by decide)
    replaced := fun _ => ⟨e.errors_ne_nil, source, rfl, hp.serialize _⟩
    rejected := fun hrejected => absurd hrejected hvalid
    unparsed := fun e' _ he' => by
      cases he.symm.trans he'
      exact ⟨rfl, rfl⟩
    overflow := fun message _ he' => by
      cases he.symm.trans he'
      exact ⟨rfl, rfl⟩
    valid := isValid_documentText _ hp.plain (isValid_errorNode source) }

theorem answers_converted {source : Text} {node : Node}
    (h : (c.checkInput (some o) (.text source)).isValid = true)
    (hnode : (c.parse (some o) (.text source) host).value = .ok node) (hp : node.Proper)
    (hv : ∀ m ∈ node.nodes, m.IsValid) : c.Answers o (.text source) host (formula o node) := by
  have hvalid : ¬(c.checkInput (some o) (.text source)).isValid = false := by simp [h]
  exact {
    successful_iff := ⟨fun _ => ⟨⟨source, rfl⟩, h, node, hnode⟩, fun _ => rfl⟩
    converted := fun node' _ hnode' => by
      cases hnode.symm.trans hnode'
      exact ⟨rfl, rfl, hp.serialize _⟩
    replaced := nofun
    rejected := fun hrejected => absurd hrejected hvalid
    unparsed := fun e _ he => by cases hnode.symm.trans he
    overflow := fun message _ he => by cases hnode.symm.trans he
    valid := isValid_documentText _ hp.plain hv }

end Converter

end MathMarkup
