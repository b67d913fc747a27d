import MathMarkup.Proofs.Conversion

/-!
# The last check of a successful conversion

A successful conversion has written the document of a parsed tree and read it back. Two things may
be found then. If the document cannot be read, because it lies too deep or holds a code point that
no document may hold, this is all that is found; such a code point comes from the source
(`Converter.mem_source_of_successful`). Otherwise, elements that do not have their fixed number of
children are found, one by one, and nothing else (`Converter.mem_warnings_iff_of_successful`).
-/

namespace MathMarkup

/-! ## What a source may hold -/

/-- A source that passes the check holds no null character. -/
theorem InputCheck.ne_null_of_check {limit : Number} {source : Text}
    (h : (check limit (.text source)).isValid = true) : ∀ c ∈ source, c ≠ .scalar '\x00' := by
  have herrors : (checkText limit source).errors = [] := List.isEmpty_iff.mp h
  have hnull : nullErrors source = [] := by
    simp only [checkText, List.append_eq_nil_iff] at herrors
    exact herrors.1.1.1.2
  unfold nullErrors at hnull
  split at hnull
  · cases hnull
  · next hnone =>
    intro c hc
    simpa using List.findIdx?_eq_none_iff.mp hnone c hc

/-- What the default symbols stand for may stand in a document. -/
theorem Symbol.Table.isChar_default (category : Category) :
    ∀ e ∈ Table.default.mapping category, e.2.Over fun c => Xml.isChar c = true := by
  have hall : ∀ category ∈ Category.all, ∀ e ∈ Table.default.mapping category,
      e.2.all Xml.isChar = true := by decide +kernel
  intro e he
  exact List.all_eq_true.mp (hall category (Category.mem_all category) e he)

/-! ## The document of a parsed tree -/

namespace Parser

variable {p : CodePoint → Prop} {bare : Prop}

theorem Built.holds {n : Node} (h : Built p bare n) : n.Holds p := by
  cases n with
  | text content =>
    cases h
    exact Text.over_nil
  | element name attributes children => exact h.names.2.values

/-- In the document of a parsed tree stand plain characters, angle brackets, and what stands in the
source or is shown for a symbol. -/
theorem over_document {options : Options} {source : Text} {node : Node}
    (hp : ∀ c, Xml.isChar c = true → p c) (hsource : source.Over p) (display : Bool)
    (hplain : ∀ m ∈ node.nodes, m.Plain)
    (h : (parse (Grammar.ofSymbols .default).value options source).value = .ok node) :
    (documentText display node).Over p := by
  have hplainChars : ∀ c, Text.IsPlain c → p (.scalar c) :=
    fun c hc => hp _ (Xml.isChar_of_isPlain c hc)
  have hm := material_ofSymbols hplainChars ⟨hp _ (by decide), hp _ (by decide)⟩
    (fun category e he c hc => hp c (Symbol.Table.isChar_default category e he c hc)) options
    hsource
  have hb : Built p True node := built_of_parse hm (fun _ _ _ _ _ _ => Or.inr trivial) h
  exact over_documentText hplainChars display hplain
    (hb.forall_nodes (fun _ hbm => hbm.holds) fun _ hcontent => hcontent)

/-! ## What is found in it -/

theorem Built.known {name : Text} {attributes : Assoc Text Text} {children : List Node}
    (h : Built p bare (.element name attributes children)) :
    Markup.knownElements.contains name = true := by
  have hall : ∀ n ∈ elementNames, Markup.knownElements.contains n = true := by
    simp [elementNames, leafNames, wrapperNames, commandPairNames, scriptNames,
      Markup.knownElements]
  exact hall name h.names.1

/-- An element that is to hold a text holds no element. -/
theorem Built.elements_of_token {name : Text} {attributes : Assoc Text Text} {children : List Node}
    (h : Built p bare (.element name attributes children)) (ht : name ∈ Markup.tokenElements) :
    children.filter Node.isElement = [] := by
  cases h with
  | leaf _ _ _ => rfl
  | space _ => rfl
  | row _ _ => exact absurd ht (by decide)
  | wrapper hn _ _ =>
    have all : ∀ n ∈ wrapperNames, n ∉ Markup.tokenElements := by decide
    exact absurd ht (all name hn)
  | pair hn _ _ _ _ _ =>
    have all : ∀ n ∈ commandPairNames, n ∉ Markup.tokenElements := by decide
    exact absurd ht (all name hn)
  | script hn _ _ _ _ _ =>
    have all : ∀ limits, ∀ n ∈ scriptNames limits, n ∉ Markup.tokenElements := by decide
    exact absurd ht (all _ name hn)
  | @scripts _ base _ _ _ _ _ _ _ _ _ =>
    have apart : ∀ limits : Bool, (if limits then Text.ofString "munderover" else "msubsup") ∉
        Markup.tokenElements := by decide
    exact absurd ht (apart _)
  | tableRow _ _ _ => exact absurd ht (by decide)
  | table _ _ _ => exact absurd ht (by decide)

end Parser

/-- An element that does not have its fixed number of children. -/
def Node.Misfits (name : Text) (expected found : Nat) : Node → Prop
  | .text _ => False
  | .element n _ children => n = name ∧ Markup.fixedArity? name = some expected ∧
    (children.filter Node.isElement).length = found ∧ found ≠ expected

/-- The number of its children is all that is ever wrong with a node of a parsed tree. -/
theorem Parser.Built.mem_problems_iff {p : CodePoint → Prop} {bare : Prop} {n : Node}
    (h : Built p bare n) {problem : Markup.Problem} : problem ∈ n.problems ↔
      ∃ name expected found, n.Misfits name expected found ∧
        problem = .arity name expected found := by
  cases n with
  | text content => simp [Node.problems, Node.Misfits]
  | element name attributes children =>
    have htoken : (Markup.tokenElements.contains name &&
        decide (0 < (children.filter Node.isElement).length)) = false := by
      cases hcontains : Markup.tokenElements.contains name with
      | false => rfl
      | true =>
        rw [h.elements_of_token (List.contains_iff_mem.mp hcontains)]
        rfl
    simp only [Node.problems, Markup.elementProblems, h.known, htoken, Node.Misfits]
    cases hfixed : Markup.fixedArity? name with
    | none => simp [hfixed]
    | some expected =>
      by_cases hfound : (children.filter Node.isElement).length = expected
      · simp [hfixed, hfound]
      · simp [hfixed, hfound]

namespace Converter

variable {o : Options} {host : Host}

/-- A successful conversion has parsed a source that passes the check. -/
theorem exists_of_successful {defaults : Options} {latex : Value} {options : Option Options}
    {overrides : List (Scalar × Value)} {r : Conversion} (hxml : host.xml.ReadsDocuments)
    (ho : ((options.getD defaults).withOverrides overrides).value = .ok o)
    (hr : ((ofSymbols defaults .default).value.convert latex options overrides host).value = .ok r)
    (hs : r.isSuccessful = true) :
    ∃ source node, latex = .text source ∧
      (InputCheck.check o.maxInputLength.number (.text source)).isValid = true ∧
      ((ofSymbols defaults .default).value.parse (some o) (.text source) host).value = .ok node ∧
      (MathMarkup.parse (Grammar.ofSymbols .default).value o source).value = .ok node ∧
      node.Proper ∧ r = formula o node := by
  have hc : (ofSymbols defaults .default).value.grammar = (Grammar.ofSymbols .default).value := rfl
  rw [value_convert ho] at hr
  have houtcome := outcome_convertWith hc hxml o latex
  rw [hr] at houtcome
  cases houtcome with
  | rejected hcheck _ => exact absurd (hcheck.symm.trans hs) (by decide)
  | @unparsed _ e _ _ => exact absurd (List.isEmpty_iff.mp hs) e.errors_ne_nil
  | converted hcheck h _ =>
    exact ⟨_, _, rfl, hcheck, h, (parse_eq_ok_iff.mp h).2, proper_of_parse hc h, rfl⟩

/-- A conversion with all defaults. -/
theorem convert_default {source : Text} {node : Node}
    (hcheck : ((ofSymbols {} .default).value.checkInput (some {}) (.text source)).isValid = true)
    (hparse : (MathMarkup.parse (Grammar.ofSymbols .default).value {} source).value = .ok node) :
    ((ofSymbols {} .default).value.convert (.text source) none []).value =
      .ok (formula {} node) := by
  have ho : (((none : Option Options).getD (ofSymbols {} .default).value.options).withOverrides
      []).value = .ok {} := rfl
  have h : ((ofSymbols {} .default).value.parse (some {}) (.text source)).value = .ok node :=
    parse_eq_ok_iff.mpr ⟨rfl, hparse⟩
  have hxml : ({} : Host).xml.ReadsDocuments := Xml.readsDocuments_document?
  exact (value_convert ho).trans (convertWith_proper hxml hcheck h rfl
    (Node.proper_of_parse hparse))

/-- Success with the default symbols means that the document holds nothing illegal but what the
source holds, and no null character or surrogate. If there is such a code point, the result says
that the document cannot be read. -/
theorem mem_source_of_successful (defaults : Options) (latex : Value)
    (options : Option Options) (overrides : List (Scalar × Value)) (o : Options) (host : Host)
    (r : Conversion) (hxml : host.xml.ReadsDocuments)
    (ho : ((options.getD defaults).withOverrides overrides).value = .ok o)
    (hr : ((ofSymbols defaults .default).value.convert latex options overrides host).value = .ok r)
    (hs : r.isSuccessful = true) :
    ∃ source, latex = .text source ∧
      (∀ c ∈ r.mathml, Xml.isChar c = false →
        c ∈ source ∧ c ≠ .scalar '\x00' ∧ c.isSurrogate = false) ∧
      ((∃ c ∈ r.mathml, Xml.isChar c = false) →
        r.warnings = [Text.ofString "XML syntax error"]) := by
  obtain ⟨source, node, rfl, hcheck, -, hparse, hp, rfl⟩ := exists_of_successful hxml ho hr hs
  refine ⟨source, rfl, fun c hc hillegal => ?_, fun ⟨c, hc, hillegal⟩ => ?_⟩
  -- what is not legal by itself is traced back to the source
  · have hover : (documentText o.displayMode.isTruthy node).Over
        fun c => Xml.isChar c = true ∨ c ∈ source :=
      Parser.over_document (fun _ => Or.inl) (fun _ => Or.inr) _ hp.plain hparse
    have hmem : c ∈ source := (hover c hc).resolve_left (by simp [hillegal])
    exact ⟨hmem, InputCheck.ne_null_of_check hcheck c hmem,
      InputCheck.isValid_of_check hcheck c hmem⟩
  · have hillegible : ¬node.legible 1 = true := fun hl =>
      absurd (over_of_legible _ hp.plain hl c hc) (by simp [hillegal])
    simp [formula, Node.findings, hillegible, Markup.Problem.message]

/-- The control character U+0001 is converted with success, and its document cannot be read. -/
theorem mem_source_of_successful_control :
    Xml.Reader.ReadsDocuments Xml.document? ∧
    (({} : Options).withOverrides []).value = .ok {} ∧
    ∃ r, ((ofSymbols {} .default).value.convert (.text [.scalar '\x01']) none []).value = .ok r ∧
      r.isSuccessful = true ∧ .scalar '\x01' ∈ r.mathml ∧ Xml.isChar (.scalar '\x01') = false ∧
      (∀ c ∈ r.mathml, Xml.isChar c = false → c = .scalar '\x01') ∧
      r.warnings = [Text.ofString "XML syntax error"] := by
  have ho : (({} : Options).withOverrides []).value = .ok {} := rfl
  have hcheck : ((ofSymbols {} .default).value.checkInput (some {})
      (.text [.scalar '\x01'])).isValid = true := by decide
  have hparse : (MathMarkup.parse (Grammar.ofSymbols .default).value {} [.scalar '\x01']).value =
      .ok (.textElement [.scalar '\x01'] []) := by decide +kernel
  have hr := convert_default hcheck hparse
  have hmem : CodePoint.scalar '\x01' ∈ documentText false (.textElement [.scalar '\x01'] []) := by
    decide
  have hillegal : Xml.isChar (.scalar '\x01') = false := by decide
  obtain ⟨source, hsame, hsource, hwarning⟩ :=
    mem_source_of_successful {} _ none [] {} {} _ Xml.readsDocuments_document? ho hr rfl
  cases hsame
  exact ⟨Xml.readsDocuments_document?, ho, _, hr, rfl, hmem, hillegal,
    fun c hc h => List.mem_singleton.mp (hsource c hc h).1, hwarning ⟨_, hmem, hillegal⟩⟩

/-- With the default symbols, the warnings of a successful conversion of a source that may itself
stand in a document are about numbers of children: there is one for each element that does not have
its fixed number. The exception is a tree that lies too deep to be read back. -/
theorem mem_warnings_iff_of_successful (defaults : Options) (source : Text)
    (options : Option Options) (overrides : List (Scalar × Value)) (o : Options) (host : Host)
    (r : Conversion) (hxml : host.xml.ReadsDocuments)
    (ho : ((options.getD defaults).withOverrides overrides).value = .ok o)
    (hsource : source.Over fun c => Xml.isChar c = true)
    (hr : ((ofSymbols defaults .default).value.convert (.text source) options overrides
      host).value = .ok r)
    (hs : r.isSuccessful = true) :
    ∃ node,
      ((ofSymbols defaults .default).value.parse (some o) (.text source) host).value = .ok node ∧
      Draft.serialize o.displayMode.isTruthy (Draft.document (.ofNode node)) = .ok r.mathml ∧
      ((Node.element "math" [] [node]).height ≤ 256 → ∀ w, w ∈ r.warnings ↔
        ∃ m ∈ node.nodes, ∃ name expected found, m.Misfits name expected found ∧
          w = "Element <" ++ name ++ "> requires " ++ Text.ofNat expected ++ " children, found " ++
            Text.ofNat found) ∧
      (256 < (Node.element "math" [] [node]).height →
        r.warnings = [Text.ofString "XML syntax error"]) := by
  obtain ⟨_, node, hsame, hcheck, hnode, hparse, hp, rfl⟩ := exists_of_successful hxml ho hr hs
  cases hsame
  have hm := material_ofSymbols Xml.isChar_of_isPlain ⟨by decide, by decide⟩
    Symbol.Table.isChar_default o hsource
  have hb : Parser.Built (fun c => Xml.isChar c = true) True node :=
    Parser.built_of_parse hm (fun _ _ _ _ _ _ => Or.inr trivial) hparse
  have hholds : ∀ m ∈ node.nodes, m.Holds fun c => Xml.isChar c = true :=
    hb.forall_nodes (fun _ hbm => hbm.holds) fun _ hcontent => hcontent
  have hheight : (Node.element "math" [] [node]).height = 1 + node.height := by
    simp [Node.height, Node.heightOfAll, Nat.add_comm]
  have hlegible : node.legible 1 = true ↔ (Node.element "math" [] [node]).height ≤ 256 := by
    rw [Node.legible_iff (by decide), and_iff_right hholds, hheight]
    rfl
  refine ⟨node, hnode, hp.serialize _, fun hlow w => ?_, fun hhigh => ?_⟩
  · have hproblems : ∀ m ∈ node.nodes, ∀ problem, problem ∈ m.problems ↔
        ∃ name expected found, m.Misfits name expected found ∧
          problem = .arity name expected found :=
      hb.forall_nodes (fun _ hbm _ => hbm.mem_problems_iff) fun _ _ _ => by
        simp [Node.problems, Node.Misfits]
    show w ∈ node.findings.map Markup.Problem.message ↔ _
    rw [Node.findings, if_pos (hlegible.mpr hlow), List.mem_map]
    constructor
    · rintro ⟨problem, hproblem, rfl⟩
      obtain ⟨m, hm, hproblem⟩ := List.mem_flatMap.mp hproblem
      obtain ⟨name, expected, found, hmisfits, rfl⟩ := (hproblems m hm problem).mp hproblem
      exact ⟨m, hm, name, expected, found, hmisfits, rfl⟩
    · rintro ⟨m, hm, name, expected, found, hmisfits, rfl⟩
      have hproblem := (hproblems m hm _).mpr ⟨name, expected, found, hmisfits, rfl⟩
      exact ⟨_, List.mem_flatMap.mpr ⟨m, hm, hproblem⟩, rfl⟩
  · have hillegible : ¬node.legible 1 = true := fun hl => absurd (hlegible.mp hl) (by omega)
    simp [formula, Node.findings, hillegible, Markup.Problem.message]

/-- A letter with a script has the two children that it asks for. -/
theorem mem_warnings_iff_of_successful_script :
    Xml.Reader.ReadsDocuments Xml.document? ∧
    (({} : Options).withOverrides []).value = .ok {} ∧
    (Text.ofString "x^2").Over (fun c => Xml.isChar c = true) ∧
    ∃ r, ((ofSymbols {} .default).value.convert (.text "x^2") none []).value = .ok r ∧
      r.isSuccessful = true ∧ r.warnings = [] := by
  have ho : (({} : Options).withOverrides []).value = .ok {} := rfl
  have hsource : (Text.ofString "x^2").Over fun c => Xml.isChar c = true :=
    Text.over_ofString Xml.isChar_of_isPlain (by decide)
  have hcheck :
      ((ofSymbols {} .default).value.checkInput (some {}) (.text "x^2")).isValid = true := by
    decide
  have hparse : (MathMarkup.parse (Grammar.ofSymbols .default).value {} "x^2").value =
      .ok (.element "msup" [] [.identifier "x", .number "2"]) := by decide
  have hr := convert_default hcheck hparse
  obtain ⟨node, hnode, _, hlow, _⟩ :=
    mem_warnings_iff_of_successful {} "x^2" none [] {} {} _ Xml.readsDocuments_document? ho hsource
      hr rfl
  cases hparse.symm.trans (parse_eq_ok_iff.mp hnode).2
  refine ⟨Xml.readsDocuments_document?, ho, hsource, _, hr, rfl,
    List.eq_nil_iff_forall_not_mem.mpr fun w hw => ?_⟩
  obtain ⟨m, hm, name, expected, found, hmisfits, _⟩ := (hlow (by decide) w).mp hw
  have hnodes : (Node.element "msup" [] [.identifier "x", .number "2"]).nodes =
      [.element "msup" [] [.identifier "x", .number "2"], .identifier "x", .text "x", .number "2",
        .text "2"] := rfl
  have hpair : Markup.fixedArity? "msup" = some 2 := by decide
  have hfree : Markup.fixedArity? "mi" = none ∧ Markup.fixedArity? "mn" = none := by decide
  simp only [hnodes, List.mem_cons, List.not_mem_nil, or_false] at hm
  rcases hm with rfl | rfl | rfl | rfl | rfl
  · obtain ⟨rfl, hfixed, rfl, hne⟩ := hmisfits
    rw [hpair] at hfixed
    cases hfixed
    exact hne rfl
  · obtain ⟨rfl, hfixed, _⟩ := hmisfits
    rw [hfree.1] at hfixed
    cases hfixed
  · exact hmisfits
  · obtain ⟨rfl, hfixed, _⟩ := hmisfits
    rw [hfree.2] at hfixed
    cases hfixed
  · exact hmisfits

end Converter

end MathMarkup
