import MathMarkup.Proofs.Height
import MathMarkup.Proofs.Stages

/-!
# The order of two scripts

A base has a subscript and a superscript in either order. The expression is read in stages
(`siblingsFrom`): what stands before the scripts, the two scripts, and what stands behind them. The
scripts may change places, since binding them does (`bindScript?_comm`) and since each is read
wherever there is room for it; behind them the siblings are the same, so that the rest is read alike
(`parse_scripts_comm`).

The node of the base with both scripts then stays as it is: later rounds put siblings behind it, or
fold it into a row (`kept_shows`).
-/

namespace MathMarkup

namespace Parser

variable {done bound all : List Sibling} {a b n : Node}

/-! ## Binding two scripts -/

theorem bindScript?_comm (a b : Node) (done : List Sibling) :
    (bindScript? .superscript b done).bind (bindScript? .subscript a) =
      (bindScript? .subscript a done).bind (bindScript? .superscript b) := by
  cases done with
  | nil => rfl
  | cons latest earlier =>
    cases latest with
    | scripted base scripts => cases scripts <;> rfl
    | atom n =>
      simp only [bindScript?]
      cases foldParens (.atom n :: earlier) <;> rfl

/-- Two scripts that are bound have a base in common. -/
theorem exists_base_of_bindScript?
    (h : (bindScript? .subscript a done).bind (bindScript? .superscript b) = some bound) :
    ∃ base earlier, bound = .scripted base (.both a b) :: earlier := by
  cases done with
  | nil => cases h
  | cons latest earlier =>
    cases latest with
    | scripted base scripts => cases scripts <;> cases h
    | atom n =>
      simp only [bindScript?] at h
      cases hfold : foldParens (.atom n :: earlier) with
      | nil =>
        rw [hfold] at h
        cases h
      | cons x rest =>
        rw [hfold] at h
        cases h
        exact ⟨_, _, rfl⟩

/-! ## Nodes that stay -/

theorem hasName_scriptNode (base : Node) (scripts : Scripts) :
    (scriptNode base scripts).hasName "mo" = false := by
  have hall : ∀ name ∈ Node.scriptedNames, decide (name = Text.ofString "mo") = false := by decide
  obtain ⟨name, hname, heq⟩ := scriptNode_eq base scripts
  rw [heq]
  exact hall name hname

theorem length_nodes_of_scriptNode_eq {base base' : Node} {scripts scripts' : Scripts}
    (h : scriptNode base scripts = scriptNode base' scripts') :
    scripts.nodes.length = scripts'.nodes.length := by
  obtain ⟨_, -, heq⟩ := scriptNode_eq base scripts
  obtain ⟨_, -, heq'⟩ := scriptNode_eq base' scripts'
  rw [heq, heq'] at h
  have hchildren := (Node.element.inj h).2.2
  simpa using congrArg List.length hchildren

/-- What a script is added to is there afterwards, and it was a single script. -/
theorem Scripts.of_add? {scripts all : Scripts} {script : Script}
    (h : scripts.add? script n = some all) :
    scripts.nodes.length = 1 ∧ scripts.nodes ⊆ all.nodes := by
  unfold Scripts.add? at h
  split at h <;> cases h <;> simp [Scripts.nodes]

theorem mem_nodes_scriptNode {base m : Node} {scripts : Scripts} :
    m ∈ (scriptNode base scripts).nodes ↔
      m = scriptNode base scripts ∨ ∃ c ∈ base :: scripts.nodes, m ∈ c.nodes := by
  obtain ⟨name, -, heq⟩ := scriptNode_eq base scripts
  rw [heq, Node.mem_nodes_element]

theorem mem_nodes_setAttribute {m : Node} {key value : Text} (hm : m ∈ n.nodes) (hne : m ≠ n) :
    m ∈ (n.setAttribute key value).nodes := by
  cases n with
  | text content => exact hm
  | element name attributes children =>
    exact Node.mem_nodes_element.mpr (Or.inr ((Node.mem_nodes_element.mp hm).resolve_left hne))

theorem mem_nodes_slot {m : Node} (hm : m ∈ n.nodes) (he : m.isElement = true) :
    m ∈ n.slot.nodes := by
  cases n with
  | text content =>
    rw [Node.mem_nodes_text.mp hm] at he
    cases he
  | element name attributes children => exact hm

/-- The node stands in one of the siblings. -/
def Shows (n : Node) (done : List Sibling) : Prop :=
  ∃ x ∈ done, n ∈ x.node.nodes

theorem shows_foldParens (h : Shows n done) : Shows n (foldParens done) := by
  unfold foldParens
  split
  · exact h
  · split
    · split
      · next k _ =>
        obtain ⟨x, hx, hn⟩ := h
        rw [← List.take_append_drop k (_ :: _), List.mem_append] at hx
        rcases hx with hx | hx
        · refine ⟨_, List.mem_cons_self, Node.mem_nodes_element.mpr (Or.inr ⟨x.node, ?_, hn⟩)⟩
          exact List.mem_reverse.mpr (List.mem_map_of_mem hx)
        · exact ⟨x, List.mem_cons_of_mem _ hx, hn⟩
      · exact h
    · exact h

theorem shows_cons {x : Sibling} (h : Shows n done) : Shows n (x :: done) := by
  obtain ⟨y, hy, hn⟩ := h
  exact ⟨y, List.mem_cons_of_mem _ hy, hn⟩

variable {base : Node}

/-- A further script goes to another base, or to a base that had a single one. -/
theorem shows_bindScript? {script : Script} (h : Shows (scriptNode base (.both a b)) done)
    (hbound : bindScript? script n done = some bound) :
    Shows (scriptNode base (.both a b)) bound := by
  unfold bindScript? at hbound
  split at hbound
  · next base' scripts earlier =>
    obtain ⟨all, hall, rfl⟩ := Option.map_eq_some_iff.mp hbound
    obtain ⟨x, hx, hmem⟩ := h
    rcases List.mem_cons.mp hx with rfl | hx
    · obtain ⟨hlength, hsub⟩ := Scripts.of_add? hall
      have hne : scriptNode base (.both a b) ≠ scriptNode base' scripts := fun heq => by
        have hboth := length_nodes_of_scriptNode_eq heq
        rw [hlength] at hboth
        cases hboth
      obtain ⟨c, hc, hmem⟩ := (mem_nodes_scriptNode.mp hmem).resolve_left hne
      exact ⟨_, List.mem_cons_self, mem_nodes_scriptNode.mpr
        (Or.inr ⟨c, List.cons_subset_cons base' hsub hc, hmem⟩)⟩
    · exact shows_cons ⟨x, hx, hmem⟩
  · have hfolded := shows_foldParens h
    split at hbound
    · next latest earlier hfold =>
      cases hbound
      rw [hfold] at hfolded
      obtain ⟨x, hx, hmem⟩ := hfolded
      rcases List.mem_cons.mp hx with rfl | hx
      · exact ⟨_, List.mem_cons_self, mem_nodes_scriptNode.mpr
          (Or.inr ⟨_, List.mem_cons_self, mem_nodes_slot hmem rfl⟩)⟩
      · exact shows_cons ⟨x, hx, hmem⟩
    · cases hbound

/-- Only an operator has its limits placed. -/
theorem shows_placeLimits (movable : Bool) (h : Shows (scriptNode base (.both a b)) done) :
    Shows (scriptNode base (.both a b)) (placeLimits movable done) := by
  unfold placeLimits
  split
  · next node earlier =>
    split
    · next hname =>
      obtain ⟨x, hx, hmem⟩ := h
      rcases List.mem_cons.mp hx with rfl | hx
      · have hne : scriptNode base (.both a b) ≠ node := by
          rintro rfl
          rw [hasName_scriptNode] at hname
          cases hname
        exact ⟨_, List.mem_cons_self, mem_nodes_setAttribute hmem hne⟩
      · exact shows_cons ⟨x, hx, hmem⟩
    · exact h
  · exact h

/-- The node of a base with two scripts stays where it is. -/
theorem kept_shows (base a b : Node) :
    Kept (fun _ => True) (Shows (scriptNode base (.both a b))) where
  atom h _ := shows_cons h
  script h _ hbound := shows_bindScript? h hbound
  limits movable h := shows_placeLimits movable h

theorem mem_nodes_collapseSiblings (h : Shows n done) : n ∈ (collapseSiblings done).nodes := by
  obtain ⟨x, hx, hn⟩ := h
  have hchild : x.node ∈ (done.map Sibling.node).reverse :=
    List.mem_reverse.mpr (List.mem_map_of_mem hx)
  unfold collapseSiblings
  generalize (done.map Sibling.node).reverse = children at hchild
  match children with
  | [] => cases hchild
  | [child] =>
    rw [List.mem_singleton.mp hchild] at hn
    exact hn
  | _ :: _ :: _ => exact Node.mem_nodes_element.mpr (Or.inr ⟨_, hchild, hn⟩)

/-- Behind two scripts the node of their base stays. -/
theorem shows_of_siblingsFrom {s : Setup} {k : Nat} {w : List Token}
    (hdone : Shows (scriptNode base (.both a b)) done) (h : siblingsFrom s k done w = some all) :
    Shows (scriptNode base (.both a b)) all := by
  obtain ⟨d, hrun⟩ := result?_eq_some_iff.mp h
  exact outcome_ok ((kept_shows base a b).yields_siblings noStop (yields_true _)
    (fun _ _ => yields_true _) hdone _) hrun

/-! ## Two scripts in a source -/

variable {grammar : Grammar} {options : Options} {u v first second sub sup : Text}
  {script script' : Script} {before : Node} {k : Nat}

/-- Two scripts that parse on their own are bound one after the other if there is room for both
groups. -/
theorem siblingsOf_scripts (hdebug : options.debugMode.isTruthy = false)
    (hfirst : ∀ x ∈ (Token.tokenize first).getLast?, x.isBareBackslash = false)
    (hsecond : ∀ x ∈ (Token.tokenize second).getLast?, x.isBareBackslash = false)
    (ha : (parse grammar options first).value = .ok a)
    (hb : (parse grammar options second).value = .ok b) :
    siblingsOf grammar options k done
        (scriptSource script first ++ (scriptSource script' second ++ v)) = some all ↔
      (FitsIn ⟨grammar, options, first⟩ k (Token.tokenize first) ∧
        FitsIn ⟨grammar, options, second⟩ k (Token.tokenize second)) ∧
        ∃ bound, (bindScript? script a.slot done).bind (bindScript? script' b.slot) = some bound ∧
          siblingsOf grammar options k bound v = some all := by
  rw [siblingsOf_script hdebug hfirst ha]
  simp only [siblingsOf_script hdebug hsecond hb, Option.bind_eq_some_iff]
  constructor
  · rintro ⟨hfits, once, honce, hfits', bound, hbound, hall⟩
    exact ⟨⟨hfits, hfits'⟩, bound, ⟨once, honce, hbound⟩, hall⟩
  · rintro ⟨⟨hfits, hfits'⟩, bound, ⟨once, honce, hbound⟩, hall⟩
    exact ⟨hfits, once, honce, hfits', bound, hbound, hall⟩

/-- Two scripts that parse on their own may change places. -/
theorem siblingsOf_scripts_comm (hdebug : options.debugMode.isTruthy = false)
    (hsub : ∀ x ∈ (Token.tokenize sub).getLast?, x.isBareBackslash = false)
    (hsup : ∀ x ∈ (Token.tokenize sup).getLast?, x.isBareBackslash = false)
    (ha : (parse grammar options sub).value = .ok a)
    (hb : (parse grammar options sup).value = .ok b) (v : Text) :
    siblingsOf grammar options k done
        (scriptSource .superscript sup ++ (scriptSource .subscript sub ++ v)) =
      siblingsOf grammar options k done
        (scriptSource .subscript sub ++ (scriptSource .superscript sup ++ v)) := by
  refine Option.ext fun all => ?_
  rw [siblingsOf_scripts hdebug hsup hsub hb ha, siblingsOf_scripts hdebug hsub hsup ha hb,
    bindScript?_comm, and_comm (a := FitsIn ⟨grammar, options, sup⟩ k _)]

theorem length_tokenize_scripts_comm
    (hsub : ∀ x ∈ (Token.tokenize sub).getLast?, x.isBareBackslash = false)
    (hsup : ∀ x ∈ (Token.tokenize sup).getLast?, x.isBareBackslash = false) (v : Text) :
    (Token.tokenize (scriptSource .superscript sup ++ (scriptSource .subscript sub ++ v))).length =
      (Token.tokenize
        (scriptSource .subscript sub ++ (scriptSource .superscript sup ++ v))).length := by
  simp only [length_tokenize_scriptSource hsub, length_tokenize_scriptSource hsup]
  omega

/-- A subscript and a superscript may stand in either order. Let `u` and the arguments of the
scripts parse on their own, none of them ending with a bare backslash, and let nodes not be marked
with places. Then either order parses exactly if the other one does, and to the same node, whatever
stands behind the scripts. In this node a base has both scripts. -/
theorem parse_scripts_comm (grammar : Grammar) (hdebug : options.debugMode.isTruthy = false)
    (hu : (parse grammar options u).value = .ok before)
    (ha : (parse grammar options sub).value = .ok a)
    (hb : (parse grammar options sup).value = .ok b)
    (hlast : ∀ x ∈ (Token.tokenize u).getLast?, x.isBareBackslash = false)
    (hsub : ∀ x ∈ (Token.tokenize sub).getLast?, x.isBareBackslash = false)
    (hsup : ∀ x ∈ (Token.tokenize sup).getLast?, x.isBareBackslash = false) (v : Text) :
    (∀ n, (parse grammar options
        (u ++ "_\x7b" ++ sub ++ "\x7d^\x7b" ++ sup ++ "\x7d" ++ v)).value = .ok n ↔
      (parse grammar options
        (u ++ "^\x7b" ++ sup ++ "\x7d_\x7b" ++ sub ++ "\x7d" ++ v)).value = .ok n) ∧
    ∀ n, (parse grammar options
        (u ++ "_\x7b" ++ sub ++ "\x7d^\x7b" ++ sup ++ "\x7d" ++ v)).value = .ok n →
      ∃ name base, (name = Text.ofString "msubsup" ∨ name = Text.ofString "munderover") ∧
        Node.element name [] [base, a.slot, b.slot] ∈ n.nodes := by
  have hsubSup : u ++ "_\x7b" ++ sub ++ "\x7d^\x7b" ++ sup ++ "\x7d" ++ v =
      u ++ (scriptSource .subscript sub ++ (scriptSource .superscript sup ++ v)) := by
    simp only [scriptSource, List.append_assoc]
    rfl
  have hsupSub : u ++ "^\x7b" ++ sup ++ "\x7d_\x7b" ++ sub ++ "\x7d" ++ v =
      u ++ (scriptSource .superscript sup ++ (scriptSource .subscript sub ++ v)) := by
    simp only [scriptSource, List.append_assoc]
    rfl
  rw [hsubSup, hsupSub]
  obtain ⟨mid, hmid, -⟩ := value_parse_eq_ok_iff.mp hu
  refine ⟨fun n => ?_, fun n hn => ?_⟩
  · rw [value_parse_append_script hdebug hlast hmid, value_parse_append_script hdebug hlast hmid,
      length_tokenize_scripts_comm hsub hsup, siblingsOf_scripts_comm hdebug hsub hsup ha hb]
  · obtain ⟨all, hall, rfl⟩ := (value_parse_append_script hdebug hlast hmid).mp hn
    obtain ⟨-, bound, hbound, hrest⟩ := (siblingsOf_scripts hdebug hsub hsup ha hb).mp hall
    obtain ⟨base, earlier, rfl⟩ := exists_base_of_bindScript? hbound
    have hshows : Shows (scriptNode base (.both a.slot b.slot)) all :=
      shows_of_siblingsFrom ⟨_, List.mem_cons_self, Node.mem_nodes_self _⟩ hrest
    refine ⟨_, base, ?_, mem_nodes_collapseSiblings hshows⟩
    split
    · exact Or.inr rfl
    · exact Or.inl rfl

/-- A table with three symbols, the parentheses and a plus. -/
def parenTable : Symbol.Table where
  mapping
    | .symbolOperators => [("(", "("), (")", ")"), ("+", "+")]
    | _ => []

theorem value_ofSymbols_parenTable : (Grammar.ofSymbols parenTable).value =
    ⟨Command.structural, Environment.table, [("(", "("), (")", ")"), ("+", "+")]⟩ :=
  Grammar.value_ofSymbols rfl Command.nodup_keys_structural

/-- The base of both scripts is a run in parentheses. -/
theorem parse_scripts_comm_run :
    (parse (Grammar.ofSymbols parenTable).value {} "(x)_\x7bi\x7d^\x7b2\x7d+1").value =
        .ok (.row [.element "msubsup" [] [.row [.operator "(" [], .identifier "x",
          .operator ")" []], .identifier "i", .number "2"], .operator "+" [], .number "1"]) ∧
      (parse (Grammar.ofSymbols parenTable).value {} "(x)^\x7b2\x7d_\x7bi\x7d+1").value =
        .ok (.row [.element "msubsup" [] [.row [.operator "(" [], .identifier "x",
          .operator ")" []], .identifier "i", .number "2"], .operator "+" [], .number "1"]) := by
  have hu : (parse (Grammar.ofSymbols parenTable).value {} "(x)").value =
      .ok (.row [.operator "(" [], .identifier "x", .operator ")" []]) := by
    rw [value_ofSymbols_parenTable]
    decide
  have ha : (parse (Grammar.ofSymbols parenTable).value {} "i").value = .ok (.identifier "i") := by
    rw [value_ofSymbols_parenTable]
    decide
  have hb : (parse (Grammar.ofSymbols parenTable).value {} "2").value = .ok (.number "2") := by
    rw [value_ofSymbols_parenTable]
    decide
  have hparse : (parse (Grammar.ofSymbols parenTable).value {}
      "(x)_\x7bi\x7d^\x7b2\x7d+1").value = .ok (.row [.element "msubsup" [] [.row [
        .operator "(" [], .identifier "x", .operator ")" []], .identifier "i", .number "2"],
          .operator "+" [], .number "1"]) := by
    rw [value_ofSymbols_parenTable]
    decide +kernel
  have hcomm := parse_scripts_comm _ rfl hu ha hb (by decide) (by decide) (by decide) "+1"
  exact ⟨hparse, (hcomm.1 _).mp hparse⟩

end Parser

end MathMarkup
