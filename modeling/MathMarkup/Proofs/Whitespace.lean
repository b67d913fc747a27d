import MathMarkup.Proofs.Leaves
import MathMarkup.Proofs.ParsedTree
import MathMarkup.Proofs.Squeezing
import MathMarkup.Proofs.Strictness

/-!
# Preserved white space

The option to preserve white space makes a difference to the texts in a tree only: the tree without
it is the one with it, squeezed (`parse_preserveWhitespace`).

Two runs are compared up to squeezing, which gives trees that are the same once both are squeezed.
That there is nothing left to squeeze in the tree without the option is a matter of that run alone.
A text in it comes from a text argument, which has been squeezed, or from a token, and the spaces in
a token are single: its first code point is no blank, and behind a backslash there is one plain
space at most.
-/

namespace MathMarkup

/-! ## Spaces in tokens -/

theorem CodePoint.isSpace_eq_false_of_isBlank {c : CodePoint} (h : c.isBlank = false) :
    c.isSpace = false :=
  (Bool.or_eq_false_iff.mp h).1

namespace Token

theorem mem_take_numberTail {rest : Text} {d : CodePoint} (hd : d ∈ rest.take (numberTail rest)) :
    d.isDigit = true ∨ d = .scalar '.' := by
  have hwhole := List.prefix_iff_eq_take.mp (List.takeWhile_prefix (l := rest) CodePoint.isDigit)
  simp only [numberTail] at hd
  split at hd
  · next places hplaces =>
    have hpart :=
      List.prefix_iff_eq_take.mp (List.takeWhile_prefix (l := places) CodePoint.isDigit)
    rw [Nat.add_assoc, List.take_add, ← hwhole, hplaces, Nat.add_comm 1, List.take_succ_cons,
      ← hpart] at hd
    rcases List.mem_append.mp hd with hd | hd
    · exact Or.inl (List.mem_takeWhile_imp hd)
    · rcases List.mem_cons.mp hd with rfl | hd
      · exact Or.inr rfl
      · exact Or.inl (List.mem_takeWhile_imp hd)
  · rw [← hwhole] at hd
    exact Or.inl (List.mem_takeWhile_imp hd)

/-- Behind a backslash stand letters, or one code point that is no space, or one plain space. -/
theorem take_commandTail (rest : Text) : (∀ d ∈ rest.take (commandTail rest), d.isSpace = false) ∨
    rest.take (commandTail rest) = [.scalar ' '] := by
  cases rest with
  | nil => exact Or.inl (by simp)
  | cons c rest =>
    have hletters :=
      List.prefix_iff_eq_take.mp (List.takeWhile_prefix (l := rest) CodePoint.isAsciiLetter)
    have hletter : ∀ d : CodePoint, d.isAsciiLetter = true → d.isSpace = false := by
      intro d hd
      refine Bool.eq_false_iff.mpr fun hspace => ?_
      rw [CodePoint.isAsciiLetter_eq_false_of_isSpace hspace] at hd
      cases hd
    simp only [commandTail]
    split
    · next hc =>
      rw [Nat.add_comm, List.take_succ_cons, ← hletters]
      exact Or.inl (List.forall_mem_cons.mpr
        ⟨hletter c hc, fun d hd => hletter d (List.mem_takeWhile_imp hd)⟩)
    · split
      · next hc =>
        rcases hc with rfl | hc
        · exact Or.inr rfl
        · exact Or.inl (by simpa using hc)
      · exact Or.inl (by simp)

/-- Behind its first code point a token takes in no spaces, or a single plain one. -/
theorem take_lexeme (c : CodePoint) (rest : Text) :
    (∀ d ∈ rest.take (lexeme c rest).2, d.isSpace = false) ∨
      rest.take (lexeme c rest).2 = [.scalar ' '] := by
  have hpoint : (CodePoint.scalar '.').isSpace = false := by decide
  unfold lexeme
  split_ifs
  · exact take_commandTail rest
  · exact Or.inl (by simp)
  · exact Or.inl (by simp)
  · refine Or.inl fun d hd => ?_
    rcases mem_take_numberTail hd with hdigit | rfl
    · have hblank := CodePoint.isBlank_eq_false_of_isDigit hdigit
      exact CodePoint.isSpace_eq_false_of_isBlank hblank
    · exact hpoint
  · exact Or.inl (by simp)

/-- The spaces in the value of a token are single. -/
theorem singlySpaced_value {x : Token} {source : Text} (hx : x ∈ tokenize source) :
    x.value.SinglySpaced := by
  obtain ⟨c, rest, -, hvalue⟩ := lexeme_of_mem_tokenize hx
  have hc : c.isSpace = false := CodePoint.isSpace_eq_false_of_isBlank
    (isBlank_of_mem_scan hx c (by rw [hvalue]; rfl))
  rw [hvalue]
  rcases take_lexeme c rest with htail | htail
  · exact Text.singlySpaced_of_no_space (List.forall_mem_cons.mpr ⟨hc, htail⟩)
  · rw [htail]
    refine ⟨fun d hd hspace => ?_, List.isChain_pair.mpr fun hspaces => ?_⟩
    · simp only [List.mem_cons, List.not_mem_nil, or_false] at hd
      rcases hd with rfl | rfl
      · simp [hc] at hspace
      · rfl
    · simp [hc] at hspaces

end Token

namespace Parser

open Node

variable {p : Text → Text → Bool} {s : Setup} {tokens : List Token}

/-! ## Trees without certain leaves -/

/-- No leaf that a token or a text argument could give is counted. -/
structure NoneCounted (s : Setup) (p : Text → Text → Bool) (tokens : List Token) : Prop where
  number : ∀ t ∈ tokens, p "mn" t.value = false
  text : ∀ t ∈ tokens, p "mtext" t.value = false
  argument : ∀ raw, p "mtext" (textOfRaw s raw) = false

/-- Of the commands that read a raw group only those for text make a leaf. -/
theorem tally_raw (hp : CountsLeaves p) (htext : ∀ raw, p "mtext" (textOfRaw s raw) = false)
    {t : Token} {c : Command} {build : Text → Node} (h : reading s t c = .raw build)
    (raw : Text) : (build raw).tally p = 0 := by
  cases c with
  | sizedSpace =>
    cases h
    exact tally_around hp (by decide)
  | text variant =>
    cases h
    simp [textNode, textElement, tally_leaf, htext]
  | operatorName =>
    cases h
    exact tally_identifier hp
  | _ => cases h

/-- What is read from such tokens has no leaf that is counted. -/
theorem Derives.tally_eq_zero {w : List Token} {form : Form} (hp : CountsLeaves p)
    (hnone : NoneCounted s p tokens) (h : Derives s w form) (hw : w <:+: tokens) :
    form.tally p = 0 := by
  have head : ∀ {t : Token} {v : List Token}, t :: v <:+: tokens → t ∈ tokens :=
    fun h => h.subset List.mem_cons_self
  have keeps : ∀ {t : Token} {c : Command} {r : Reading}, reading s t c = r → r.KeepsTally p :=
    fun hr => hr ▸ keepsTally_reading hp _ _
  have slot : ∀ {n : Node}, n.tally p = 0 → n.slot.tally p = 0 :=
    fun hn => (tally_slot hp).trans hn
  have collapse : ∀ {done : List Sibling}, siblingsTally p done = 0 →
      (collapseSiblings done).tally p = 0 :=
    fun hd => (tally_collapseSiblings hp _).trans hd
  have text : ∀ {t : Token}, t ∈ tokens → (textElement t.value []).tally p = 0 := fun ht => by
    simp [textElement, tally_leaf, hnone.text _ ht]
  -- A rule makes no leaf of its own, those for single tokens and raw groups aside.
  induction h with
  | nothing => rfl
  | next _ _ ihu ihw =>
    refine (siblingsTally_cons _ _).trans ?_
    exact Nat.add_eq_zero_iff.mpr ⟨ihw hw.right, ihu hw.left⟩
  | script _ _ _ hb ihu ihw =>
    refine (siblingsTally_bindScript? hp hb).trans ?_
    exact Nat.add_eq_zero_iff.mpr ⟨ihu hw.left, ihw hw.right.tail⟩
  | limits _ _ ih => exact (siblingsTally_placeLimits _ _).trans (ih hw.left)
  | group _ _ _ ih => exact collapse (ih hw.tail.left)
  | brackets _ _ _ ih => exact collapse (ih hw.tail.left)
  | absent => rfl
  | present _ ih => exact ih hw
  | symbol _ => exact tally_symbolNode hp (hnone.text _ (head hw))
  | number _ => simp [Form.tally, Node.number, tally_leaf, hnone.number _ (head hw)]
  | text _ => exact text (head hw)
  | braced _ ih => exact ih hw
  | bracketed _ ih => exact (tally_wrapped hp (by decide)).trans (ih hw)
  | unknown _ _ => exact text (head hw)
  | plain _ _ hr => exact keeps hr
  | raw _ _ hr _ => exact tally_raw hp hnone.argument hr _
  | one _ _ hr _ ih => exact (keeps hr _).trans (slot (ih hw.tail))
  | two _ _ hr _ _ ihv ihw =>
    refine (keeps hr _ _).trans (Nat.add_eq_zero_iff.mpr ⟨slot ?_, slot ?_⟩)
    · exact ihv hw.tail.left
    · exact ihw hw.tail.right
  | delimiter _ _ hr _ => exact keeps hr _
  | squareRoot _ _ _ _ _ ihv ihw =>
    refine (tally_rootNode hp _ _).trans (Nat.add_eq_zero_iff.mpr ⟨?_, slot ?_⟩)
    · exact ihv hw.tail.left
    · exact ihw hw.tail.right
  | root _ _ _ _ _ _ ihu ihw =>
    have hu := slot (ihu hw.tail.left)
    have hn := slot (ihw hw.tail.right.right)
    refine (tally_around hp (by decide)).trans ?_
    simp [hu, hn]
  | leftRight _ _ _ _ _ _ _ ih =>
    exact (tally_pairNode hp _ _ _).trans (collapse (ih hw.tail.tail.left))
  | firstCell _ ih => simp [Form.tally, collapse (ih hw), rowsTally]
  | nextCell _ _ _ ihu ihw =>
    have hrows := ihu hw.left
    have hcell := collapse (ihw hw.right.tail)
    simp only [Form.tally, rowsTally_cons, tallyAll_cons] at hrows ⊢
    omega
  | nextRow _ _ _ _ ihu _ ihw =>
    have hrows := ihu hw.left
    have hcell := collapse (ihw hw.right.tail.right)
    simp only [Form.tally, rowsTally_cons, tallyAll_cons, tallyAll_nil, tallyAll_reverse] at hrows ⊢
    omega
  | flow _ _ ih => exact (tally_flowNode hp _ _ _).trans (collapse (ih hw))
  | grid _ _ ih =>
    have hrows := ih hw
    refine (tally_gridNode hp _ _ _).trans ?_
    rw [rowsTally_reverse, rowsTally_cons, tallyAll_reverse, ← rowsTally_cons]
    exact hrows
  | environment _ _ _ _ _ _ ih => exact ih hw.tail.right.right.left
  | placed _ ih =>
    have hn := ih hw
    unfold placedNode
    split
    · exact (tally_addAttribute _ _).trans hn
    · exact hn
  | group_script _ ih => exact slot (ih hw)
  | atom_script _ _ ih => exact ih hw

/-! ## Squeezed trees -/

/-- Whether a text element is counted: those of which the spaces are not single. -/
def isLoose (name content : Text) : Bool :=
  decide (name = "mtext") && decide (content.squeezed ≠ content)

theorem countsLeaves_isLoose : CountsLeaves isLoose := by
  intro name content h
  have hname : name = Text.ofString "mtext" := by
    rw [isLoose, Bool.and_eq_true, decide_eq_true_eq] at h
    exact h.1
  rw [hname]
  decide

theorem isLoose_eq_false {content : Text} (h : content.SinglySpaced) (name : Text) :
    isLoose name content = false := by
  simp [isLoose, h.squeezed_eq]

/-- Where white space is not preserved the spaces in the texts of a tree are single. -/
theorem singlySpaced_of_parse {grammar : Grammar} {options : Options} {source : Text} {node : Node}
    (hpreserves : options.preserveWhitespace.isTruthy = false)
    (h : (parse grammar options source).value = .ok node) :
    ∀ content ∈ node.contents "mtext", content.SinglySpaced := by
  have hnone : NoneCounted ⟨grammar, options, source⟩ isLoose (Token.tokenize source) := by
    refine ⟨fun t ht => ?_, fun t ht => ?_, fun raw => ?_⟩
    · exact isLoose_eq_false (Token.singlySpaced_value ht) _
    · exact isLoose_eq_false (Token.singlySpaced_value ht) _
    · refine isLoose_eq_false ?_ _
      simp only [textOfRaw, hpreserves, Bool.false_eq_true, if_false, (Text.squeezeSpaces_eq _).1]
      exact Text.singlySpaced_squeezed _
  obtain ⟨done, hd, rfl⟩ := derives_of_parse h
  have htally : (collapseSiblings done).tally isLoose = 0 :=
    (tally_collapseSiblings countsLeaves_isLoose done).trans
      (hd.tally_eq_zero countsLeaves_isLoose hnone (List.infix_refl _))
  intro content hcontent
  have hcount : (contents "mtext" (collapseSiblings done)).countP
      (fun content => decide (content.squeezed ≠ content)) = 0 :=
    (countP_contents _ _ _).trans htally
  have hsqueezed : content.squeezed = content := by
    simpa using List.countP_eq_zero.mp hcount content hcontent
  rw [← hsqueezed]
  exact Text.singlySpaced_squeezed content

theorem mem_contents_of_mem_children {key name content : Text} {attributes : Assoc Text Text}
    {children : List Node} {c : Node} (hc : c ∈ children) (h : content ∈ c.contents key) :
    content ∈ (element name attributes children).contents key := by
  obtain ⟨m, hm, rfl⟩ := List.mem_map.mp h
  obtain ⟨hm, hname⟩ := List.mem_filter.mp hm
  exact List.mem_map_of_mem
    (List.mem_filter.mpr ⟨mem_nodes_element.mpr (Or.inr ⟨c, hc, hm⟩), hname⟩)

/-- A text element of a built tree holds a single text. -/
theorem Built.eq_text_of_mtext {q : CodePoint → Prop} {bare : Prop} {attributes : Assoc Text Text}
    {children : List Node} (h : Built q bare (.element "mtext" attributes children)) :
    ∃ content : Text, children = [.text content] := by
  generalize hname : Text.ofString "mtext" = name at h
  cases h with
  | leaf hn ha ht => exact ⟨_, rfl⟩
  | space | row | tableRow | table => exact absurd hname (by decide)
  | wrapper hn | pair hn =>
    subst hname
    exact absurd hn (by decide)
  | @script _ _ base _ hn =>
    subst hname
    revert hn
    cases takesLimits base <;> exact fun hn => absurd hn (by decide)
  | @scripts _ base =>
    revert hname
    cases takesLimits base <;> exact fun hname => absurd hname (by decide)

/-- Where spaces are single already squeezing leaves a built tree as it is. -/
theorem Built.squeezed_eq {q : CodePoint → Prop} {bare : Prop} {n : Node} (h : Built q bare n)
    (hspaces : ∀ content ∈ n.contents "mtext", content.SinglySpaced) : n.squeezed = n := by
  induction n using inductionOn with
  | text content => rfl
  | element name attributes children ih =>
    have hchildren : children.map (squeezedIn (decide (name = "mtext"))) = children := by
      by_cases hname : name = "mtext"
      · subst hname
        obtain ⟨content, rfl⟩ := h.eq_text_of_mtext
        have hcontent := hspaces content (by simp [contents, nodes, nodesOfAll, hasName, innerText,
          innerTexts])
        simp [squeezedIn, hcontent.squeezed_eq]
      · rw [decide_eq_false hname]
        refine (List.map_congr_left fun c hc => ?_).trans (List.map_id children)
        rcases h.of_mem_children hc with hbuilt | ⟨content, rfl, -⟩
        · exact ih c hc hbuilt fun content hcontent =>
            hspaces content (mem_contents_of_mem_children hc hcontent)
        · rfl
    rw [squeezed, squeezedIn_element, hchildren]

/-! ## Two runs -/

theorem squeezedIn_placedNode {inText : Bool} (s : Setup) (t : Token) (n : Node) :
    (placedNode s t n).squeezedIn inText = placedNode s t (n.squeezedIn inText) := by
  unfold placedNode
  split
  · exact squeezedIn_addAttribute _ _ n
  · rfl

/-- A run that preserves white space on the left, one that does not on the right, and no failure is
excused. -/
def squeezing (tokens : List Token) : Pairing where
  left := fun _ => False
  right := fun _ => False
  node := SameSqueezed
  tokens := tokens

theorem relates_squeezing (tokens : List Token) (grammar : Grammar) (options : Options)
    (source : Text) :
    Relates (squeezing tokens)
      ⟨grammar, { options with preserveWhitespace := .bool true }, source⟩
      ⟨grammar, { options with preserveWhitespace := .bool false }, source⟩ where
  closed := Or.inl ⟨rfl, rfl⟩
  fitting := fitting_sameSqueezed
  grammar := rfl
  raw _ _ _ := rfl
  commandText _ _ h := h.symm
  columns h := by rw [h]
  unknownCommand _ _ _ := Or.inl rfl
  unknownEnvironment _ _ _ _ := Or.inl rfl
  textNode variant raw := by
    intro inText
    have hpreserved : textOfRaw
        ⟨grammar, { options with preserveWhitespace := .bool true }, source⟩ raw =
          unescapeText raw := rfl
    have hsqueezed : textOfRaw
        ⟨grammar, { options with preserveWhitespace := .bool false }, source⟩ raw =
          (unescapeText raw).squeezed := (Text.squeezeSpaces_eq _).1
    rw [hpreserved, hsqueezed, textNode, textNode, squeezedIn_textElement, squeezedIn_textElement,
      Text.squeezed_squeezed]
  placedNode {t n n'} _ h := by
    intro inText
    exact (squeezedIn_placedNode _ t n').trans
      ((congrArg _ (h inText)).trans (squeezedIn_placedNode ⟨grammar, options, source⟩ t n).symm)

theorem matched_squeezing (grammar : Grammar) (options : Options) (source : Text)
    (tokens : List Token) :
    Matched (squeezing tokens)
      (readTokens ⟨grammar, { options with preserveWhitespace := .bool true }, source⟩ tokens)
      (readTokens ⟨grammar, { options with preserveWhitespace := .bool false }, source⟩ tokens) :=
  matched_readTokens (relates_squeezing tokens grammar options source) ⟨rfl, rfl⟩ rfl rfl
    (map_moved_eq_self fun _ _ => rfl)

end Parser

/-- White space that is preserved makes a difference to texts only. With the option and without it a
parse fails with the same error, or the tree without it is the one with it, in which each maximal
run of spaces in a text element is replaced by one plain space. All spaces in the text elements of
the tree without the option are plain, and no two of them stand next to each other. -/
theorem parse_preserveWhitespace (grammar : Grammar) (options : Options) (source : Text) :
    (parse grammar { options with preserveWhitespace := .bool false } source).value =
        (parse grammar { options with preserveWhitespace := .bool true } source).value.map
          Node.squeezed ∧
      ∀ node, (parse grammar { options with preserveWhitespace := .bool false } source).value =
          .ok node →
        ∀ content ∈ node.contents "mtext", content.SinglySpaced := by
  refine ⟨?_, fun node h => Parser.singlySpaced_of_parse rfl h⟩
  have hstays : ∀ node, (parse grammar { options with preserveWhitespace := .bool false }
      source).value = .ok node → node.squeezed = node := fun node h =>
    have hbuilt : Parser.Built (fun _ => True) True node :=
      Parser.built_of_parse (material_true _ _) (fun _ _ _ _ _ _ => Or.inr trivial) h
    hbuilt.squeezed_eq (Parser.singlySpaced_of_parse rfl h)
  have hmatched := Parser.matched_squeezing grammar options source (Token.tokenize source)
  rw [← Parser.value_parse_eq_readTokens, ← Parser.value_parse_eq_readTokens] at hmatched
  generalize (parse grammar { options with preserveWhitespace := .bool false } source).value =
    squeezing at hmatched hstays ⊢
  generalize (parse grammar { options with preserveWhitespace := .bool true } source).value =
    preserving at hmatched ⊢
  cases hmatched with
  | @ok node node' hsame =>
    have hsqueezed : node'.squeezed = node.squeezed := hsame false
    rw [hstays node' rfl] at hsqueezed
    exact congrArg Except.ok hsqueezed
  | error herror => exact congrArg Except.error (herror.eq fun _ => rfl)
  | left _ h => exact h.elim
  | right _ h => exact h.elim

/-- A run with a line break in a text, and a backslash that takes in a space. -/
theorem parse_preserveWhitespace_text :
    let symbols : Symbol.Table := ⟨fun
      | .textVariants => [("\\text", "normal")]
      | _ => []⟩
    (parse (Grammar.ofSymbols symbols).value { preserveWhitespace := .bool true }
      "\\text\x7ba \n b\x7d\\ ").value =
        .ok (.row [.textElement "a \n b" [], .textElement "\\ " []]) ∧
      (Node.row [.textElement "a \n b" [], .textElement "\\ " []]).squeezed =
        .row [.textElement "a b" [], .textElement "\\ " []] ∧
      ∀ content ∈ Node.contents "mtext" (.row [.textElement "a b" [], .textElement "\\ " []]),
        content.SinglySpaced := by
  intro symbols
  have hcommands : Command.categoryOrder.flatMap (Command.ofCategory symbols) =
      [(Text.ofString "\\text", Command.text "normal")] := rfl
  have hgrammar := Grammar.value_ofSymbols hcommands (by simp [Command.structural])
  have hpreserving : (parse (Grammar.ofSymbols symbols).value
      { preserveWhitespace := .bool true } "\\text\x7ba \n b\x7d\\ ").value =
        .ok (.row [.textElement "a \n b" [], .textElement "\\ " []]) := by
    rw [hgrammar]
    decide +kernel
  have hsqueezed : (parse (Grammar.ofSymbols symbols).value
      { preserveWhitespace := .bool false } "\\text\x7ba \n b\x7d\\ ").value =
        .ok (.row [.textElement "a b" [], .textElement "\\ " []]) := by
    rw [hgrammar]
    decide +kernel
  obtain ⟨htrees, hspaces⟩ := parse_preserveWhitespace (Grammar.ofSymbols symbols).value {}
    "\\text\x7ba \n b\x7d\\ "
  rw [hpreserving] at htrees
  exact ⟨hpreserving, Except.ok.inj (htrees.symm.trans hsqueezed), hspaces _ hsqueezed⟩

end MathMarkup
