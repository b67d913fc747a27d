import MathMarkup.Proofs.Command
import MathMarkup.Proofs.Parser.Shape

/-!
# What is read as nothing

An expression is read as the empty text if nothing in it is shown. Such an expression holds
commands on the placement of limits, and besides them at most one thing, which shows nothing
itself: a group in braces, or a pair of `\left.` and `\right.` (`Blank`). All other atoms are
elements.

A blank group as the argument of a script is an empty row. A blank pair is not: it leaves the place
of the script to the empty text. `HasBlankScript` says that tokens hold a script with such an
argument.
-/

namespace MathMarkup.Parser

/-- A command on the placement of limits. -/
def isLimits (t : Token) : Bool :=
  t.isCommand "\\limits" || t.isCommand "\\nolimits"

/-- The delimiter that is not shown. -/
def isPoint (t : Token) : Bool :=
  t.isSymbol "."

/-- The kinds of blank runs of tokens. -/
inductive BlankKind where
  | content
  | group
  | pair
deriving DecidableEq, Repr

/-- The tokens show nothing. -/
inductive Blank : BlankKind → List Token → Prop where
  | limits {w : List Token} : (∀ t ∈ w, isLimits t = true) → Blank .content w
  | around {u v w : List Token} {kind : BlankKind} : (∀ t ∈ u, isLimits t = true) →
      kind ≠ .content → Blank kind w → (∀ t ∈ v, isLimits t = true) →
      Blank .content (u ++ (w ++ v))
  | group {opening closing : Token} {w : List Token} : opening.isOpenBrace = true →
      Blank .content w → closing.isCloseBrace = true → Blank .group (opening :: (w ++ [closing]))
  | pair {left d right d' : Token} {w : List Token} : left.isCommand "\\left" = true →
      isPoint d = true → Blank .content w → right.isCommand "\\right" = true →
      isPoint d' = true → Blank .pair (left :: d :: (w ++ [right, d']))

/-- A script whose argument is a blank pair that is not in braces. -/
def HasBlankScript (tokens : List Token) : Prop :=
  ∃ marker pair, marker :: pair <:+: tokens ∧ (Script.ofToken? marker).isSome = true ∧
    Blank .pair pair

variable {s : Setup} {w : List Token}

/-- Further commands on limits leave a blank content blank. -/
theorem Blank.append_limits {t : Token} (h : Blank .content w) (ht : isLimits t = true) :
    Blank .content (w ++ [t]) := by
  cases h with
  | limits hall =>
    refine .limits fun x hx => ?_
    rcases List.mem_append.mp hx with hx | hx
    · exact hall x hx
    · rw [List.mem_singleton.mp hx]
      exact ht
  | @around u v w kind hu hk hw hv =>
    have hv' : ∀ x ∈ v ++ [t], isLimits x = true := by
      intro x hx
      rcases List.mem_append.mp hx with hx | hx
      · exact hv x hx
      · rw [List.mem_singleton.mp hx]
        exact ht
    have := Blank.around hu hk hw hv'
    simpa using this

theorem isLimits_of_limits? (hg : s.grammar.Regular) {t : Token} {movable : Bool}
    (h : limits? s.grammar t = some movable) : isLimits t = true := by
  unfold limits? at h
  split at h
  · next ht =>
    split at h
    · next b hget =>
      rw [hg.get?_eq_limits_iff] at hget
      cases b
      · have : t.isCommand "\\nolimits" = true := Token.is_iff.mpr ⟨ht, by simpa using hget⟩
        simp [isLimits, this]
      · have : t.isCommand "\\limits" = true := Token.is_iff.mpr ⟨ht, by simpa using hget⟩
        simp [isLimits, this]
    · cases h
  · cases h

theorem isPoint_of_delimiter? {grammar : Grammar} {d : Token}
    (h : delimiter? grammar d = some none) : isPoint d = true := by
  unfold delimiter? at h
  split at h
  · next hk =>
    split at h
    · next hv => exact Token.is_iff.mpr ⟨hk, hv⟩
    · split at h
      · cases h
      · split at h <;> cases h
  · cases h
  · split at h <;> cases h
  · cases h

/-! ## Forms that are blank -/

/-- A form that shows nothing is read from blank tokens. -/
def Form.IsBlankIn (w : List Token) : Form → Prop
  | .siblings done => (done = [] → ∀ t ∈ w, isLimits t = true) ∧
    ∀ n, done = [.atom n] → n.isElement = false → Blank .content w
  | .group n => n.isElement = false → Blank .group w
  | .atom n | .placed n => n.isElement = false → Blank .group w ∨ Blank .pair w
  | .script n => n.isElement = false → Blank .pair w
  | .brackets _ | .optional _ | .rows _ _ => True
  | .body _ _ _ n => n.isElement = true

theorem eq_of_isElement_collapseSiblings {done : List Sibling}
    (h : (collapseSiblings done).isElement = false) :
    done = [] ∨ ∃ n, done = [.atom n] ∧ n.isElement = false := by
  match done with
  | [] => exact Or.inl rfl
  | [.atom n] => exact Or.inr ⟨n, rfl, h⟩
  | [.scripted base (.sub _)] | [.scripted base (.sup _)] | [.scripted base (.both _ _)] => cases h
  | x :: y :: rest =>
    -- Two siblings and more are a row.
    exfalso
    unfold collapseSiblings Node.collapse at h
    split at h
    · next heq => simp at heq
    · next heq =>
      have hlen := congrArg List.length heq
      simp at hlen
    · cases h

theorem Form.IsBlankIn.content {done : List Sibling} (h : (Form.siblings done).IsBlankIn w)
    (hn : (collapseSiblings done).isElement = false) : Blank .content w := by
  rcases eq_of_isElement_collapseSiblings hn with rfl | ⟨n, rfl, hn⟩
  · exact .limits (h.1 rfl)
  · exact h.2 n rfl hn

theorem bindScript?_eq_some {script : Script} {n : Node} {done bound : List Sibling}
    (h : bindScript? script n done = some bound) :
    ∃ base scripts earlier, bound = .scripted base scripts :: earlier := by
  unfold bindScript? at h
  split at h
  · obtain ⟨all, _, rfl⟩ := Option.map_eq_some_iff.mp h
    exact ⟨_, _, _, rfl⟩
  · split at h
    · cases h
      exact ⟨_, _, _, rfl⟩
    · cases h

theorem placeLimits_eq_nil {movable : Bool} {done : List Sibling}
    (h : placeLimits movable done = []) : done = [] := by
  unfold placeLimits at h
  split at h
  · split at h <;> cases h
  · exact h

/-- Placing limits does not turn an element into something that is none. -/
theorem placeLimits_eq_atom {movable : Bool} {done : List Sibling} {n : Node}
    (h : placeLimits movable done = [.atom n]) (hn : n.isElement = false) : done = [.atom n] := by
  unfold placeLimits at h
  split at h
  · next node earlier =>
    split at h
    · next hmo =>
      cases h
      cases node with
      | text content => cases hmo
      | element name attributes children => cases hn
    · exact h
  · exact h

theorem reading_eq_leftRight {t : Token} {c : Command} (h : reading s t c = .leftRight) :
    c = .left := by
  cases c <;> first | rfl | cases h

/-- A pair that is no element shows no delimiter and has no content. -/
theorem of_isElement_pairNode {opening closing : Option Text} {content : Node}
    (hb : Built (fun _ => True) True content)
    (h : (pairNode opening content closing).isElement = false) :
    opening = none ∧ content.isElement = false ∧ closing = none := by
  have hempty := hb.isEmpty_iff
  unfold pairNode at h
  by_cases hc : content.isElement = false
  · rw [if_pos (hempty.mpr hc)] at h
    cases opening with
    | some d => cases closing <;> cases h
    | none =>
      cases closing with
      | some d => cases h
      | none => exact ⟨rfl, hc, rfl⟩
  · rw [if_neg (mt hempty.mp hc)] at h
    exfalso
    cases opening <;> cases closing
    · exact hc h
    all_goals cases h

/-- What a derivation reads as no element shows nothing. -/
theorem Derives.isBlankIn (hg : s.grammar.Regular) {form : Form} (h : Derives s w form) :
    form.IsBlankIn w := by
  have built : ∀ {w form}, Derives s w form → form.Built (fun _ => True) True := fun {w _} h =>
    h.built (material_true s w) (fun _ _ _ _ _ _ => Or.inr trivial) List.infix_rfl
  have builds : ∀ {t : Token} {c : Command} {r : Reading}, reading s t c = r →
      r.Builds (fun _ => True) True :=
    fun hr => hr ▸ reading_builds (material_true s []) _ fun _ _ => trivial
  have element : ∀ {n : Node} {q : Prop}, n.isElement = true → n.isElement = false → q := by
    intro n q h h'
    rw [h] at h'
    cases h'
  have place : ∀ {n : Node} {w}, Derives s w (.group n) →
      BuiltElement (fun _ => True) True n.slot :=
    fun hd => ⟨(built hd).slot, (built hd).isElement_slot⟩
  induction h with
  | nothing =>
    exact ⟨fun _ _ ht => (List.not_mem_nil ht).elim, nofun⟩
  | next _ _ ihu ihw =>
    refine ⟨nofun, fun m hm hne => ?_⟩
    cases hm
    have hu := ihu.1 rfl
    rcases ihw hne with hw | hw
    · simpa using Blank.around hu (by decide) hw (v := []) (by simp)
    · simpa using Blank.around hu (by decide) hw (v := []) (by simp)
  | script _ _ _ hb _ _ =>
    obtain ⟨base, scripts, earlier, rfl⟩ := bindScript?_eq_some hb
    exact ⟨nofun, nofun⟩
  | limits _ ht ih =>
    have hlimits := isLimits_of_limits? hg ht
    refine ⟨fun h x hx => ?_, fun n hn hne => ?_⟩
    · rcases List.mem_append.mp hx with hx | hx
      · exact ih.1 (placeLimits_eq_nil h) x hx
      · rw [List.mem_singleton.mp hx]
        exact hlimits
    · exact (ih.2 n (placeLimits_eq_atom hn hne) hne).append_limits hlimits
  | group hopen _ hclose ih => exact fun hne => .group hopen (ih.content hne) hclose
  | brackets _ _ _ _ => trivial
  | absent => trivial
  | present _ _ => trivial
  | @symbol t _ =>
    have hb : BuiltElement (fun _ => True) True (symbolNode s.grammar t.value) :=
      built_symbolNode (material_true s []) fun _ _ => trivial
    exact element hb.2
  | number _ => exact element rfl
  | text _ => exact element rfl
  | braced _ ih => exact fun hne => Or.inl (ih hne)
  | bracketed _ _ => exact element rfl
  | unknown _ _ => exact element rfl
  | plain _ _ hr => exact element (builds hr).2
  | raw _ _ hr _ => exact element (builds hr _ fun _ _ => trivial).2
  | one _ _ hr hd _ => exact element (builds hr _ (place hd)).2
  | two _ _ hr hd hd' _ _ => exact element (builds hr _ _ (place hd) (place hd')).2
  | delimiter _ _ hr _ => exact element (builds hr _ fun _ _ => trivial).2
  | squareRoot _ _ _ hd hd' _ _ => exact element (builtElement_rootNode (built hd) (place hd')).2
  | root _ _ _ _ _ _ _ _ => exact element rfl
  | leftRight ht hget hr hd hdone hright hd' ih =>
    intro hne
    obtain ⟨rfl, hcontent, rfl⟩ := of_isElement_pairNode (built_collapseSiblings (built hdone)) hne
    rw [reading_eq_leftRight hr, hg.get?_eq_left_iff] at hget
    exact Or.inr (.pair (Token.is_iff.mpr ⟨ht, hget⟩) (isPoint_of_delimiter? hd)
      (ih.content hcontent) hright (isPoint_of_delimiter? hd'))
  | firstCell _ _ => trivial
  | nextCell _ _ _ _ _ => trivial
  | nextRow _ _ _ _ _ _ _ => trivial
  | flow _ hd _ =>
    exact (built_flowNode (material_true s []) (fun _ _ => trivial) _
      (built_collapseSiblings (built hd))).2
  | grid _ hd _ =>
    exact (built_gridNode (material_true s []) (fun _ _ => trivial) (fun _ _ => trivial)
      (fun _ _ => trivial) _ (built hd).reverse_cells.reverse).2
  | environment _ _ _ _ _ _ ih => exact element ih
  | placed _ ih =>
    intro hne
    rw [isElement_placedNode] at hne
    exact ih hne
  | group_script hd _ => exact element (place hd).2
  | atom_script ht _ ih =>
    intro hne
    rcases ih hne with hw | hw
    · -- A group would start with a brace.
      cases hw with
      | group hopen _ _ =>
        rw [ht] at hopen
        cases hopen
    · exact hw

/-- Without a blank script, all arguments of scripts are elements. -/
theorem scriptsFilled_hasBlankScript (hg : s.grammar.Regular) (tokens : List Token) :
    ScriptsFilled s tokens (HasBlankScript tokens) := by
  intro t w n hinfix ht hd
  cases hn : n.isElement with
  | true => exact Or.inl rfl
  | false => exact Or.inr ⟨t, w, hinfix, ht, hd.isBlankIn hg hn⟩

end MathMarkup.Parser
