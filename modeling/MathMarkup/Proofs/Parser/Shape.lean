import MathMarkup.Proofs.Parser.Built
import MathMarkup.Proofs.Parser.Derivation

/-!
# Derivations build trees

By induction on a derivation, all nodes that occur in what is read are built (`Derives.built`). The
one thing that a derivation does not settle by itself is whether the argument of a script is an
element; it is asked for as a hypothesis.
-/

namespace MathMarkup.Parser

variable {p : CodePoint → Prop} {bare : Prop} {s : Setup} {tokens : List Token}

/-- All nodes in a form are built. What an environment makes is built if its names are proper. -/
def Form.Built (p : CodePoint → Prop) (bare : Prop) : Form → Prop
  | .siblings done => ∀ x ∈ done, SiblingBuilt p bare x
  | .group n | .brackets n | .atom n | .placed n | .script n => Parser.Built p bare n
  | .optional content => ∀ n ∈ content, Parser.Built p bare n
  | .rows cells finished => RowsBuilt p bare (cells :: finished)
  | .body name e _ n => name.Over p → e.columnAlign.Over p → e.opening.Over p →
    e.closing.Over p → Parser.Built p bare n

/-! ## Single rules -/

theorem siblingBuilt_placeLimits (hm : Material p s tokens) {done : List Sibling}
    (h : ∀ x ∈ done, SiblingBuilt p bare x) (movable : Bool) :
    ∀ x ∈ placeLimits movable done, SiblingBuilt p bare x := by
  unfold placeLimits
  split
  · next node earlier =>
    split
    · intro x hx
      rcases List.mem_cons.mp hx with rfl | hx
      · have hnode : Built p bare node := h _ List.mem_cons_self
        exact hnode.setAttribute (by simp [attributeNames]) (over_truthText hm.plain movable)
      · exact h x (List.mem_cons_of_mem _ hx)
    · exact h
  · exact h

theorem built_symbolNode (hm : Material p s tokens) {value : Text} (hv : value.Over p) :
    BuiltElement p bare (symbolNode s.grammar value) := by
  unfold symbolNode
  split
  · next shown hget =>
    exact ⟨built_operator (hm.operator value shown hget) attributesOver_nil, rfl⟩
  · split
    · exact ⟨built_identifier hv, rfl⟩
    · exact ⟨built_textElement hv attributesOver_nil, rfl⟩

theorem built_placedNode (hm : Material p s tokens) (t : Token) {n : Node} (h : Built p bare n) :
    Built p bare (placedNode s t n) := by
  unfold placedNode
  split
  · exact h.addAttribute (by simp [attributeNames]) (Text.over_ofInt hm.plain _)
  · exact h

theorem isElement_placedNode (s : Setup) (t : Token) (n : Node) :
    (placedNode s t n).isElement = n.isElement := by
  unfold placedNode
  split
  · cases n <;> rfl
  · rfl

theorem over_delimiter (hm : Material p s tokens) {d : Token} (hd : d ∈ tokens)
    {shown : Option Text} (h : delimiter? s.grammar d = some shown) :
    (shown.getD []).Over p := by
  unfold delimiter? at h
  split at h
  · split at h
    · cases h
      exact Text.over_nil
    · split at h
      · cases h
        intro c hc
        rw [List.mem_singleton.mp hc]
        exact hm.angles.1
      · split at h
        · cases h
          intro c hc
          rw [List.mem_singleton.mp hc]
          exact hm.angles.2
        · cases h
          exact hm.token d hd
  · cases h
    exact hm.token d hd
  · split at h
    · next value hget =>
      cases h
      exact hm.command _ _ hget
    · cases h
  · cases h

theorem built_pairNode (hm : Material p s tokens) {opening closing : Option Text} {content : Node}
    (ho : (opening.getD []).Over p) (hc : (closing.getD []).Over p) (h : Built p bare content) :
    Built p bare (pairNode opening content closing) := by
  have fence : ∀ {shown : Option Text}, (shown.getD []).Over p →
      ∀ n ∈ (shown.map fenceNode).toList, Built p bare n := by
    intro shown hs n hn
    cases shown with
    | none => cases hn
    | some d =>
      rw [List.mem_singleton.mp hn]
      exact built_fenceNode hm.plain hs
  refine built_collapse fun n hn => ?_
  rcases List.mem_append.mp hn with hn | hn
  · rcases List.mem_append.mp hn with hn | hn
    · exact fence ho n hn
    · split at hn
      · cases hn
      · rw [List.mem_singleton.mp hn]
        exact h
  · exact fence hc n hn

theorem builtElement_rootNode {degree : Option Node} {radicand : Node}
    (hd : ∀ n ∈ degree, Built p bare n) (hr : BuiltElement p bare radicand) :
    BuiltElement p bare (Reading.rootNode degree radicand) := by
  cases degree with
  | none => exact builtElement_wrapper (by simp [wrapperNames]) attributesOver_nil hr.1
  | some n =>
    exact builtElement_pair (by simp [commandPairNames]) attributesOver_nil hr
      ⟨(hd n rfl).slot, (hd n rfl).isElement_slot⟩

theorem NameGroup.over_name (hm : Material p s tokens) {w : List Token} {name : Text}
    (h : NameGroup w name) (hw : w ⊆ tokens) : name.Over p := by
  obtain ⟨opening, pieces, closing, rfl, _, _, _, _, rfl⟩ := h
  refine Text.Over.flatten fun t ht => ?_
  obtain ⟨token, htoken, rfl⟩ := List.mem_map.mp ht
  exact hm.token token (hw (by simp [htoken]))

theorem RawGroup.over_content (hm : Material p s tokens) {w : List Token} {content : Text}
    (h : RawGroup s w content) : content.Over p := by
  obtain ⟨opening, body, closing, _, _, _, rfl⟩ := h
  exact hm.source.between _ _

theorem over_environmentOf (hm : Material p s tokens) (name : Text) :
    (environmentOf s.grammar name).columnAlign.Over p ∧
      (environmentOf s.grammar name).opening.Over p ∧
      (environmentOf s.grammar name).closing.Over p := by
  unfold environmentOf
  cases hget : s.grammar.environments.get? name with
  | some e => exact hm.environment name e hget
  | none => exact ⟨Text.over_nil, Text.over_nil, Text.over_nil⟩

theorem built_flowNode (hm : Material p s tokens) {name : Text} (hname : name.Over p)
    (e : Environment) {n : Node} (h : Built p bare n) :
    BuiltElement p bare (flowNode name e n) := by
  unfold flowNode
  split
  · exact builtElement_wrapper (by simp [wrapperNames])
      (attributesOver_word hm.plain (by simp [attributeNames]) (by decide)) h
  · refine ⟨.row (attributesOver_one (by simp [attributeNames]) ?_) (by simpa using h), rfl⟩
    exact (Text.over_ofString hm.plain (by decide)).append hname

theorem built_gridNode (hm : Material p s tokens) {e : Environment} (ha : e.columnAlign.Over p)
    (ho : e.opening.Over p) (hc : e.closing.Over p) (argument : Text) {rows : List (List Node)}
    (h : RowsBuilt p bare rows) : BuiltElement p bare (gridNode e argument rows) := by
  unfold gridNode
  split
  · exact builtElement_wrapper (by simp [wrapperNames])
      (attributesOver_two (by simp) (by simp [attributeNames]) ho (by simp [attributeNames]) hc)
      (built_tableNode h.dropEmptyRow ha)
  · exact ⟨built_tableNode h.dropEmptyRow (over_columnAlignment hm.plain argument), rfl⟩
  · exact ⟨built_tableNode h.dropEmptyRow ha, rfl⟩

section Rows

variable {n : Node} {cells : List Node} {rows : List (List Node)}

/-- A row stays built if the same cells stand in it in another order. -/
theorem RowsBuilt.reverse_cells (h : RowsBuilt p bare (cells :: rows)) :
    RowsBuilt p bare (cells.reverse :: rows) := by
  rw [rowsBuilt_cons_iff] at h ⊢
  simpa using h

theorem RowsBuilt.reverse (h : RowsBuilt p bare rows) : RowsBuilt p bare rows.reverse where
  ne_nil := by simpa using h.ne_nil
  cells_ne_nil row hrow := h.cells_ne_nil row (List.mem_reverse.mp hrow)
  built row hrow := h.built row (List.mem_reverse.mp hrow)

theorem RowsBuilt.cons_cell (hn : Built p bare n) (h : RowsBuilt p bare (cells :: rows)) :
    RowsBuilt p bare ((n :: cells) :: rows) := by
  obtain ⟨⟨-, hcells⟩, hrows⟩ := rowsBuilt_cons_iff.mp h
  exact rowsBuilt_cons_iff.mpr ⟨⟨by simp, List.forall_mem_cons.mpr ⟨hn, hcells⟩⟩, hrows⟩

theorem rowsBuilt_single (hn : Built p bare n) : RowsBuilt p bare [[n]] :=
  rowsBuilt_cons_iff.mpr ⟨⟨by simp, by simpa using hn⟩, by simp⟩

theorem RowsBuilt.cons_row (hn : Built p bare n) (h : RowsBuilt p bare rows) :
    RowsBuilt p bare ([n] :: rows) :=
  rowsBuilt_cons_iff.mpr ⟨⟨by simp, by simpa using hn⟩, fun row hrow =>
    ⟨h.cells_ne_nil row hrow, h.built row hrow⟩⟩

end Rows

/-! ## All rules -/

/-- The argument of a script inside the tokens is an element, or `bare` holds. -/
def ScriptsFilled (s : Setup) (tokens : List Token) (bare : Prop) : Prop :=
  ∀ t w n, t :: w <:+: tokens → (Script.ofToken? t).isSome = true → Derives s w (.script n) →
    n.isElement = true ∨ bare

/-- What is read inside the tokens at hand is built. -/
theorem Derives.built {w : List Token} {form : Form} (hm : Material p s tokens)
    (hs : ScriptsFilled s tokens bare) (h : Derives s w form) (hw : w <:+: tokens) :
    form.Built p bare := by
  have builds : ∀ {t : Token} {c : Command} {r : Reading},
      s.grammar.commands.get? t.value = some c → reading s t c = r → r.Builds p bare :=
    fun hget hr => hr ▸ reading_builds hm _ (hm.command _ _ hget)
  have place : ∀ {n : Node}, Parser.Built p bare n → BuiltElement p bare n.slot :=
    fun hn => ⟨hn.slot, hn.isElement_slot⟩
  induction h with
  | nothing =>
    intro x hx
    cases hx
  | next _ _ ihu ihw =>
    intro x hx
    rcases List.mem_cons.mp hx with rfl | hx
    · exact ihw hw.right
    · exact ihu hw.left x hx
  | script _ ht hd hb ihu ihw =>
    have hn := hs _ _ _ hw.right (by rw [ht]; rfl) hd
    exact siblingBuilt_bindScript? (ihu hw.left) ⟨ihw hw.right.tail, hn⟩ hb
  | limits _ _ ih => exact siblingBuilt_placeLimits hm (ih hw.left) _
  | group _ _ _ ih => exact built_collapseSiblings (ih hw.tail.left)
  | brackets _ _ _ ih => exact built_collapseSiblings (ih hw.tail.left)
  | absent =>
    intro n hn
    cases hn
  | present _ ih =>
    intro n hn
    cases hn
    exact ih hw
  | symbol _ => exact (built_symbolNode hm (hm.token _ (hw.subset List.mem_cons_self))).1
  | number _ => exact built_number (hm.token _ (hw.subset List.mem_cons_self))
  | text _ =>
    exact built_textElement (hm.token _ (hw.subset List.mem_cons_self)) attributesOver_nil
  | braced _ ih => exact ih hw
  | bracketed _ ih =>
    exact .wrapper (by simp [wrapperNames]) (attributesOver_words hm.plain (by simp)
      (by simp [attributeNames]) (by decide) (by simp [attributeNames]) (by decide)) (ih hw)
  | unknown _ _ =>
    exact built_textElement (hm.token _ (hw.subset List.mem_cons_self)) attributesOver_nil
  | plain _ hget hr => exact (builds hget hr).1
  | raw _ hget hr hraw => exact (builds hget hr _ (hraw.over_content hm)).1
  | one _ hget hr _ ih => exact (builds hget hr _ (place (ih hw.tail))).1
  | two _ hget hr _ _ ihv ihw =>
    exact (builds hget hr _ _ (place (ihv hw.tail.left)) (place (ihw hw.tail.right))).1
  | delimiter _ hget hr hd =>
    exact (builds hget hr _ (over_delimiter hm (hw.subset (by simp)) hd)).1
  | squareRoot _ _ _ _ _ ihv ihw =>
    exact (builtElement_rootNode (ihv hw.tail.left) (place (ihw hw.tail.right))).1
  | root _ _ _ _ _ _ ihu ihw =>
    exact (builtElement_pair (by simp [commandPairNames]) attributesOver_nil
      (place (ihw hw.tail.right.right)) (place (ihu hw.tail.left))).1
  | leftRight _ _ _ hd _ _ hd' ih =>
    exact built_pairNode hm (over_delimiter hm (hw.subset (by simp)) hd)
      (over_delimiter hm (hw.subset (by simp)) hd')
      (built_collapseSiblings (ih hw.tail.tail.left))
  | firstCell _ ih => exact rowsBuilt_single (built_collapseSiblings (ih hw))
  | nextCell _ _ _ ihu ihw =>
    exact (ihu hw.left).cons_cell (built_collapseSiblings (ihw hw.right.tail))
  | nextRow _ _ _ _ ihu _ ihw =>
    have hcell := built_collapseSiblings (ihw hw.right.tail.right)
    exact .cons_row hcell (ihu hw.left).reverse_cells
  | flow _ _ ih =>
    intro hname _ _ _
    exact (built_flowNode hm hname _ (built_collapseSiblings (ih hw))).1
  | grid _ _ ih =>
    intro _ ha ho hc
    exact (built_gridNode hm ha ho hc _ (ih hw).reverse_cells.reverse).1
  | environment _ hname _ _ _ _ ih =>
    obtain ⟨ha, ho, hc⟩ := over_environmentOf hm _
    exact ih hw.tail.right.right.left (hname.over_name hm hw.tail.left.subset) ha ho hc
  | placed _ ih => exact built_placedNode hm _ (ih hw)
  | group_script _ ih => exact (ih hw).slot
  | atom_script _ _ ih => exact ih hw

end MathMarkup.Parser
