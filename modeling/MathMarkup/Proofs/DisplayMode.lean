import MathMarkup.Proofs.Conversion
import MathMarkup.Proofs.ParserOptions

/-!
# Display mode

Whether a formula is displayed is said by one attribute of the root and by nothing else: the two
conversions of a value have the same messages, and documents that are the same behind the start tag
of the root; or both have no result, for the same reason (`Converter.convert_displayMode`). The room
on the stack must not depend on the display mode either (`Host.ParsesAlike`).
-/

namespace MathMarkup

/-- The start tag of the root. -/
def rootTag (display : Bool) : Text :=
  "<math xmlns=\"http://www.w3.org/1998/Math/MathML\" display=\"" ++
    Text.ofString (if display then "block" else "inline") ++ "\">"

theorem rootTag_true : rootTag true = Text.ofString
    "<math xmlns=\"http://www.w3.org/1998/Math/MathML\" display=\"block\">" := by
  simp [rootTag, ← Text.ofString_append]

theorem rootTag_false : rootTag false = Text.ofString
    "<math xmlns=\"http://www.w3.org/1998/Math/MathML\" display=\"inline\">" := by
  simp [rootTag, ← Text.ofString_append]

theorem documentText_eq (display : Bool) (n : Node) :
    documentText display n = rootTag display ++ (n.written ++ Text.ofString "</math>") := by
  have htag : CodePoint.scalar '<' :: (Text.ofString "math" ++
      (Xml.attributesText (rootAttributes display) ++ [CodePoint.scalar '>'])) =
      rootTag display := by
    cases display <;> decide +kernel
  rw [← htag]
  simp [documentText]
  rfl

/-- The room on the stack for a parse depends only on what a parse reads of its options. -/
def Host.ParsesAlike (host : Host) : Prop :=
  ∀ (o o' : Options) (source : Text), o.ReadAlike o' → host.parses o' source = host.parses o source

namespace Converter

/-- The two results differ in the start tag of the root only. -/
def Redisplayed (display display' : Bool) (result result' : Except Failure Conversion) : Prop :=
  ∃ errors warnings details behind,
    result = .ok ⟨rootTag display ++ behind, errors, warnings, details⟩ ∧
    result' = .ok ⟨rootTag display' ++ behind, errors, warnings, details⟩

theorem redisplayed_documents (display display' : Bool) (n : Node) (errors warnings : List Text)
    (details : List Diagnostic) :
    Redisplayed display display' (.ok ⟨documentText display n, errors, warnings, details⟩)
      (.ok ⟨documentText display' n, errors, warnings, details⟩) := by
  rw [documentText_eq, documentText_eq]
  exact ⟨_, _, _, _, rfl, rfl⟩

variable {c : Converter} {host : Host}

theorem parse_displayMode (hparses : host.ParsesAlike) (o : Options) (v v' : Value)
    (source : Text) :
    (c.parse (some { o with displayMode := v' }) (.text source) host).value =
      (c.parse (some { o with displayMode := v }) (.text source) host).value := by
  have halike := Options.readAlike_displayMode o v v'
  rw [value_parse_text, value_parse_text, hparses _ _ source halike,
    parse_eq_of_readAlike halike]

/-- Both conversions end in the same way, and only the root says which one it was. -/
theorem redisplayed_convertWith {symbols : Symbol.Table}
    (hc : c.grammar = (Grammar.ofSymbols symbols).value) (hxml : host.xml.ReadsDocuments)
    (hparses : host.ParsesAlike) (o : Options) (latex v v' : Value) :
    (∃ failure, Exhausted c { o with displayMode := v } host latex failure ∧
      (c.convertWith { o with displayMode := v } latex host).value = .error failure ∧
      (c.convertWith { o with displayMode := v' } latex host).value = .error failure) ∨
    Redisplayed v.isTruthy v'.isTruthy (c.convertWith { o with displayMode := v } latex host).value
      (c.convertWith { o with displayMode := v' } latex host).value := by
  have hinput : c.checkInput (some { o with displayMode := v' }) latex =
      c.checkInput (some { o with displayMode := v }) latex := rfl
  have houtcome : Outcome c { o with displayMode := v } host latex _ :=
    outcome_convertWith hc hxml _ latex
  generalize (c.convertWith { o with displayMode := v } latex host).value = result at houtcome
  cases houtcome with
  | unspelled hv h =>
    exact Or.inl ⟨_, exhausted_of_sourceText hv h, rfl, convertWith_of_unspelled hv h⟩
  | rejected hcheck h =>
    rw [convertWith_rejected (hinput ▸ hcheck), hinput, h]
    exact Or.inr (redisplayed_documents _ _ _ _ _ _)
  | unparsed hcheck h =>
    rw [convertWith_unparsed (hinput ▸ hcheck) ((parse_displayMode hparses o v v' _).trans h)]
    exact Or.inr (redisplayed_documents _ _ _ _ _ _)
  | unwalked hcheck h hroom =>
    exact Or.inl ⟨_, .tree hcheck h hroom, rfl,
      convertWith_unwalked (hinput ▸ hcheck) ((parse_displayMode hparses o v v' _).trans h) hroom⟩
  | converted hcheck h hroom =>
    rw [convertWith_proper hxml (hinput ▸ hcheck) ((parse_displayMode hparses o v v' _).trans h)
      hroom (proper_of_parse hc h)]
    exact Or.inr (redisplayed_documents _ _ _ _ _ _)

/-- Display mode changes one attribute of the root and nothing else. Whatever is converted, with
whatever symbols and options, it gives the same messages for display and inside a line, and
documents that go on in the same way behind the start tag of the root; unless the host is exhausted,
which has both fail alike. -/
theorem convert_displayMode (defaults : Options) (symbols : Symbol.Table) (latex : Value)
    (options : Option Options) (host : Host) (hxml : host.xml.ReadsDocuments)
    (hparses : host.ParsesAlike) :
    (∃ failure, Exhausted (ofSymbols defaults symbols).value
        { options.getD defaults with displayMode := .bool true } host latex failure ∧
      ((ofSymbols defaults symbols).value.convert latex options
        [(.text "display_mode", .bool true)] host).value = .error failure ∧
      ((ofSymbols defaults symbols).value.convert latex options
        [(.text "display_mode", .bool false)] host).value = .error failure) ∨
    ∃ errors warnings details behind,
      ((ofSymbols defaults symbols).value.convert latex options
        [(.text "display_mode", .bool true)] host).value = .ok ⟨Text.ofString
          "<math xmlns=\"http://www.w3.org/1998/Math/MathML\" display=\"block\">" ++ behind,
          errors, warnings, details⟩ ∧
      ((ofSymbols defaults symbols).value.convert latex options
        [(.text "display_mode", .bool false)] host).value = .ok ⟨Text.ofString
          "<math xmlns=\"http://www.w3.org/1998/Math/MathML\" display=\"inline\">" ++ behind,
          errors, warnings, details⟩ := by
  have hgrammar : (ofSymbols defaults symbols).value.grammar =
      (Grammar.ofSymbols symbols).value := rfl
  have hresolved : ∀ v, ((options.getD (ofSymbols defaults symbols).value.options).withOverrides
      [(.text "display_mode", v)]).value = .ok { options.getD defaults with displayMode := v } :=
    fun v => Options.withOverrides_flag _ v (f := .displayMode) (by decide)
  rw [value_convert (hresolved _), value_convert (hresolved _), ← rootTag_true, ← rootTag_false]
  exact redisplayed_convertWith hgrammar hxml hparses (options.getD defaults) latex (.bool true)
    (.bool false)

/-- A number that is no text is converted twice, and shown by its digits. -/
theorem convert_displayMode_number :
    Xml.Reader.ReadsDocuments Xml.document? ∧ Host.ParsesAlike {} ∧
    ∃ errors warnings details behind,
      ((ofSymbols {} .default).value.convert (.int 7) none
        [(.text "display_mode", .bool true)]).value = .ok ⟨Text.ofString
          "<math xmlns=\"http://www.w3.org/1998/Math/MathML\" display=\"block\">" ++ behind,
          errors, warnings, details⟩ ∧
      ((ofSymbols {} .default).value.convert (.int 7) none
        [(.text "display_mode", .bool false)]).value = .ok ⟨Text.ofString
          "<math xmlns=\"http://www.w3.org/1998/Math/MathML\" display=\"inline\">" ++ behind,
          errors, warnings, details⟩ := by
  have hparses : Host.ParsesAlike {} := fun _ _ _ _ => rfl
  refine ⟨Xml.readsDocuments_document?, hparses, ?_⟩
  rcases convert_displayMode {} .default (.int 7) none {} Xml.readsDocuments_document? hparses with
    ⟨failure, hexhausted, -⟩ | h
  · cases hexhausted with
    | spelling _ hroom => cases hroom
    | digits _ _ h =>
      obtain ⟨limit, hlimit, -, s, hs, hlong⟩ := h
      cases hlimit
      rw [List.mem_singleton.mp hs] at hlong
      exact absurd hlong (by decide +kernel)
  · exact h

end Converter

end MathMarkup
