import Mathlib.Data.List.Chain
import MathMarkup.Proofs.Document
import MathMarkup.Proofs.Parser.Vanishing
import MathMarkup.Proofs.ParsedTree

/-!
# Scripts without an element

In a parsed tree the places of fractions, roots, accents and scripts are filled by elements, and an
empty argument is an empty row. There is one exception: the argument of a script that is not in
braces and shows nothing, such as `\left.\right.`, is the empty text. It disappears when the tree
is written, and the script is left with too few children.
-/

namespace MathMarkup.Parser

variable {s : Setup} {c : Cursor}

/-! ## Reading what is blank -/

theorem limits?_of_isLimits (hg : s.grammar.Regular) {t : Token} (h : isLimits t = true) :
    ∃ movable, limits? s.grammar t = some movable := by
  have found : ∀ movable, t.isCommand (if movable then Text.ofString "\\limits"
      else Text.ofString "\\nolimits") = true → limits? s.grammar t = some movable := by
    intro movable ht
    obtain ⟨hk, hv⟩ := Token.is_iff.mp ht
    unfold limits?
    rw [if_pos hk, hg.get?_eq_limits_iff.mpr hv]
  unfold isLimits at h
  rw [Bool.or_eq_true] at h
  rcases h with h | h
  · exact ⟨true, found true h⟩
  · exact ⟨false, found false h⟩

/-- A command on limits is no script and closes nothing. -/
theorem of_isLimits {t : Token} (h : isLimits t = true) :
    Scope.closedBy? t = none ∧ Script.ofToken? t = none ∧ t.isCloseBrace = false ∧
      t.isCommand "\\right" = false := by
  have hk : t.kind = .command ∧ (t.value = Text.ofString "\\limits" ∨
      t.value = Text.ofString "\\nolimits") := by
    unfold isLimits at h
    rw [Bool.or_eq_true] at h
    rcases h with h | h
    · exact ⟨(Token.is_iff.mp h).1, Or.inl (Token.is_iff.mp h).2⟩
    · exact ⟨(Token.is_iff.mp h).1, Or.inr (Token.is_iff.mp h).2⟩
  obtain ⟨hk, hv⟩ := hk
  rcases hv with hv | hv <;>
    simp [Scope.closedBy?, Script.ofToken?, Token.isCloseBrace, Token.isCloseBracket,
      Token.isCommand, Token.isSymbol, Token.isBrace, Token.isBracket, Token.is, hk, hv]

/-- The stop comes at a closing brace or at `\right` only. -/
def Quiet (stop : Stop) : Prop :=
  ∀ position t, t.isCloseBrace = false → t.isCommand "\\right" = false → stop position t = false

/-- What blank tokens are read as: a content as the empty text up to its stop, anything else as an
atom that is the empty text. -/
def ReadsBlank (s : Setup) : BlankKind → List Token → Prop
  | .content, w => ∀ depth c stop t tail, Quiet stop → (∀ position, stop position t = true) →
    c.rest = w ++ t :: tail → Gives (expressionWith s (inside s depth) stop) c fun n c' =>
      n = .text [] ∧ c'.rest = t :: tail
  | _, w => ∀ depth c tail, c.rest = w ++ tail →
    Gives (atom s (inside s depth)) c fun n c' => n = .text [] ∧ c'.rest = tail

/-- Siblings that show nothing stay as they are behind a command on limits. -/
def ShowNothing (done : List Sibling) : Prop :=
  done = [] ∨ done = [.atom (.text [])]

theorem ShowNothing.placeLimits {done : List Sibling} (h : ShowNothing done) (movable : Bool) :
    placeLimits movable done = done := by
  rcases h with rfl | rfl <;> rfl

theorem ShowNothing.collapse {done : List Sibling} (h : ShowNothing done) :
    collapseSiblings done = .text [] := by
  rcases h with rfl | rfl <;> rfl

/-- Commands on limits are passed over while nothing is shown. -/
theorem gives_siblings_limits (hg : s.grammar.Regular) {nested : Nested} {stop : Stop}
    (hq : Quiet stop) {done : List Sibling} (hd : ShowNothing done) {u tail : List Token}
    (hu : ∀ t ∈ u, isLimits t = true) {post : List Sibling → Cursor → Prop}
    (h : ∀ rounds c, c.rest = tail → tail.length ≤ rounds →
      Gives (siblings s nested stop rounds done) c post)
    {rounds : Nat} {c : Cursor} (hc : c.rest = u ++ tail) (hrounds : c.rest.length ≤ rounds) :
    Gives (siblings s nested stop rounds done) c post := by
  induction u generalizing rounds c with
  | nil => exact h rounds c hc (by rw [hc] at hrounds; exact hrounds)
  | cons t u ih =>
    have ht := hu t List.mem_cons_self
    obtain ⟨hclose, hscript, hbrace, hright⟩ := of_isLimits ht
    obtain ⟨movable, hlimits⟩ := limits?_of_isLimits hg ht
    have hc' : c.rest = t :: (u ++ tail) := hc
    cases rounds with
    | zero =>
      rw [hc'] at hrounds
      cases hrounds
    | succ rounds =>
      unfold siblings
      refine Outcome.get_bind ?_
      rw [hc']
      simp only [hq c.position t hbrace hright, hclose, hscript, hlimits, Option.isSome_none,
        Bool.false_eq_true, if_false]
      refine Outcome.bind (gives_takeLimits movable hc' done) ?_
      rintro _ c1 ⟨hw, rfl⟩
      rw [hd.placeLimits]
      have hrest : c1.rest = u ++ tail := by
        have hsplit := hw.rest
        rw [hc'] at hsplit
        exact (List.cons.inj hsplit).2.symm
      refine ih (fun x hx => hu x (List.mem_cons_of_mem _ hx)) hrest ?_
      have hlen := hw.length_le
      simp only [List.length_singleton] at hlen
      omega

theorem gives_siblings_stop {nested : Nested} {stop : Stop} {done : List Sibling} {rounds : Nat}
    {t : Token} {tail : List Token} (ht : ∀ position, stop position t = true)
    (hc : c.rest = t :: tail) :
    Gives (siblings s nested stop rounds done) c fun done' c' => done' = done ∧ c' = c := by
  cases rounds with
  | zero => exact ⟨rfl, rfl⟩
  | succ rounds =>
    unfold siblings
    refine Outcome.get_bind ?_
    rw [hc]
    simp only [ht c.position, if_true]
    exact ⟨rfl, rfl⟩

/-- Behind the last thing that shows nothing only commands on limits may follow, up to the stop. -/
theorem gives_siblings_rest (hg : s.grammar.Regular) {nested : Nested} {stop : Stop}
    (hq : Quiet stop) {done : List Sibling} (hd : ShowNothing done) {v tail : List Token}
    {t : Token} (hv : ∀ t ∈ v, isLimits t = true) (ht : ∀ position, stop position t = true)
    {rounds : Nat} (hc : c.rest = v ++ t :: tail) (hrounds : c.rest.length ≤ rounds) :
    Gives (siblings s nested stop rounds done) c fun done' c' =>
      ShowNothing done' ∧ c'.rest = t :: tail := by
  refine gives_siblings_limits hg hq hd hv ?_ hc hrounds
  intro rounds' c' hc' _
  refine (gives_siblings_stop ht hc').weaken ?_
  rintro done' c'' ⟨rfl, rfl⟩
  exact ⟨hd, hc'⟩

/-- A blank group or pair starts with a token that is taken for an atom. -/
theorem Blank.exists_head (hg : s.grammar.Regular) {kind : BlankKind} {w : List Token}
    (h : Blank kind w) (hk : kind ≠ .content) : ∃ t rest, w = t :: rest ∧
      t.isCloseBrace = false ∧ t.isCommand "\\right" = false ∧ Scope.closedBy? t = none ∧
      Script.ofToken? t = none ∧ limits? s.grammar t = none := by
  cases h with
  | limits _ => exact absurd rfl hk
  | around _ _ _ _ => exact absurd rfl hk
  | @group opening closing w hopen _ _ =>
    obtain ⟨ht, hv⟩ := Token.is_iff.mp hopen
    refine ⟨opening, _, rfl, ?_⟩
    simp [Scope.closedBy?, Script.ofToken?, Token.isCloseBrace, Token.isCloseBracket,
      Token.isCommand, Token.isSymbol, Token.isBrace, Token.isBracket, Token.is, limits?, ht, hv]
  | @pair left d right d' w hleft _ _ _ _ =>
    obtain ⟨ht, hv⟩ := Token.is_iff.mp hleft
    have hget : s.grammar.commands.get? (Text.ofString "\\left") = some .left :=
      hg.get?_eq_left_iff.mpr rfl
    refine ⟨left, _, rfl, ?_⟩
    simp [Scope.closedBy?, Script.ofToken?, Token.isCloseBrace, Token.isCloseBracket,
      Token.isCommand, Token.isSymbol, Token.isBrace, Token.isBracket, Token.is, limits?, ht, hv,
      hget]

theorem gives_takeDelimiter_point {command d : Token} {rest : List Token} (hd : isPoint d = true)
    (hc : c.rest = d :: rest) : Gives (takeDelimiter s command) c fun shown c' =>
      shown = none ∧ c' = c.skip 1 := by
  obtain ⟨hk, hv⟩ := Token.is_iff.mp hd
  have hpoint : delimiter? s.grammar d = some none := by
    simp [delimiter?, hk, hv]
  unfold takeDelimiter
  refine Outcome.next_bind (fun hnil => ?_) fun t rest' hc' => ?_
  · rw [hc] at hnil
    cases hnil
  · rw [hc] at hc'
    cases hc'
    simp only [hpoint]
    exact ⟨rfl, rfl⟩

/-- The only ways into one more scope are those of an expression there. -/
theorem inside_eq_some {depth : Nat} {i : Inside} (h : inside s depth = some i) :
    ∃ depth', ∀ stop, i.content stop = expressionWith s (inside s depth') stop := by
  cases depth with
  | zero => cases h
  | succ depth =>
    cases h
    exact ⟨depth, fun _ => rfl⟩

theorem gives_group_blank {opening closing : Token} {w : List Token}
    (hopen : opening.isOpenBrace = true) (hclose : closing.isCloseBrace = true)
    (ih : ReadsBlank s .content w) (depth : Nat) {tail : List Token}
    (hc : c.rest = opening :: (w ++ closing :: tail)) :
    Gives (group s (inside s depth)) c fun n c' => n = .text [] ∧ c'.rest = tail := by
  unfold group
  refine Outcome.next_bind (fun _ => trivial) fun t rest hc' => ?_
  rw [hc] at hc'
  cases hc'
  simp only [if_pos hopen]
  refine Outcome.enter_bind (fun _ => trivial) fun i hi => ?_
  obtain ⟨depth', hcontent⟩ := inside_eq_some hi
  rw [hcontent]
  have hquiet : Quiet stopAtBrace := fun _ t hb _ => hb
  refine Outcome.bind (ih depth' _ stopAtBrace closing tail hquiet (fun _ => hclose) ?_) ?_
  · show (c.skip 1).rest = _
    rw [Cursor.rest_skip, hc]
    rfl
  · rintro n c1 ⟨rfl, hc1⟩
    refine Outcome.next_bind (fun _ => trivial) fun t rest hc1' => ?_
    rw [hc1] at hc1'
    cases hc1'
    exact ⟨rfl, by simp [hc1]⟩

theorem gives_leftRight_blank {command d right d' : Token} {w : List Token}
    (hd : isPoint d = true) (hright : right.isCommand "\\right" = true) (hd' : isPoint d' = true)
    (ih : ReadsBlank s .content w) (depth : Nat) {tail : List Token}
    (hc : c.rest = d :: (w ++ right :: d' :: tail)) :
    Gives (leftRight s (inside s depth) command) c fun n c' => n = .text [] ∧ c'.rest = tail := by
  unfold leftRight
  refine Outcome.bind (gives_takeDelimiter_point hd hc) ?_
  rintro _ _ ⟨rfl, rfl⟩
  refine Outcome.enter_bind (fun _ => trivial) fun i hi => ?_
  obtain ⟨depth', hcontent⟩ := inside_eq_some hi
  rw [hcontent]
  have hquiet : Quiet stopAtRight := fun _ t _ hr => hr
  refine Outcome.bind (ih depth' _ stopAtRight right (d' :: tail) hquiet (fun _ => hright) ?_) ?_
  · show (c.skip 1).rest = _
    rw [Cursor.rest_skip, hc]
    rfl
  · rintro n c1 ⟨rfl, hc1⟩
    refine Outcome.next_bind (fun _ => trivial) fun t rest hc1' => ?_
    rw [hc1] at hc1'
    cases hc1'
    simp only [outcome_bind, outcome_popScope]
    have hpoint : (c1.skip 1).rest = d' :: tail := by
      rw [Cursor.rest_skip, hc1]
      rfl
    refine Outcome.weaken (gives_takeDelimiter_point hd' hpoint) ?_
    · rintro _ _ ⟨rfl, rfl⟩
      refine ⟨rfl, ?_⟩
      show (c1.rest.drop 1).drop 1 = tail
      rw [hc1]
      rfl

theorem placedNode_nothing (s : Setup) (t : Token) : placedNode s t (.text []) = .text [] := by
  unfold placedNode
  split <;> rfl

/-- An atom that is read as the empty text is the empty text in its place too. -/
theorem gives_atom_blank {nested : Nested} {t : Token} {w tail : List Token} (hc : c.rest = t :: w)
    (h : ∀ c : Cursor, c.rest = t :: w →
      Gives (atomAt s nested t) c fun n c' => n = .text [] ∧ c'.rest = tail) :
    Gives (atom s nested) c fun n c' => n = .text [] ∧ c'.rest = tail := by
  rw [atom_eq]
  refine Outcome.peek_bind (fun _ => trivial) fun t' rest ht => ?_
  rw [hc] at ht
  cases ht
  refine Outcome.trace_bind fun log => Outcome.bind (h _ hc) ?_
  rintro n c' ⟨rfl, hrest⟩
  exact ⟨placedNode_nothing s t, hrest⟩

section Kinds

variable {w : List Token}

theorem readsBlank_limits (hg : s.grammar.Regular) (hw : ∀ t ∈ w, isLimits t = true) :
    ReadsBlank s .content w := by
  intro depth c stop t tail hq ht hc
  unfold expressionWith
  refine Outcome.get_bind (Outcome.bind
    (gives_siblings_rest hg hq (Or.inl rfl) hw ht hc (Nat.le_refl _)) ?_)
  rintro done c' ⟨hd, hc'⟩
  exact ⟨hd.collapse, hc'⟩

theorem ReadsBlank.atom {kind : BlankKind} (hk : kind ≠ .content) (h : ReadsBlank s kind w)
    (depth : Nat) {tail : List Token} (hc : c.rest = w ++ tail) :
    Gives (atom s (inside s depth)) c fun n c' => n = .text [] ∧ c'.rest = tail := by
  cases kind with
  | content => exact absurd rfl hk
  | group => exact h depth c _ hc
  | pair => exact h depth c _ hc

/-- The one atom of a blank content shows nothing, and what stands around it is passed over. -/
theorem readsBlank_around (hg : s.grammar.Regular) {kind : BlankKind} {u v : List Token}
    (hu : ∀ t ∈ u, isLimits t = true) (hk : kind ≠ .content) (hw : Blank kind w)
    (ih : ReadsBlank s kind w) (hv : ∀ t ∈ v, isLimits t = true) :
    ReadsBlank s .content (u ++ (w ++ v)) := by
  intro depth c stop t tail hq ht hc
  have hc' : c.rest = u ++ (w ++ (v ++ t :: tail)) := by
    rw [hc]
    simp
  unfold expressionWith
  refine Outcome.get_bind (Outcome.bind (q := fun done c' => ShowNothing done ∧
    c'.rest = t :: tail) (gives_siblings_limits hg hq (Or.inl rfl) hu ?_ hc' (Nat.le_refl _)) ?_)
  · intro rounds c1 hc1 hrounds
    obtain ⟨first, rest, rfl, hbrace, hright, hclose, hscript, hlimits⟩ := hw.exists_head hg hk
    cases rounds with
    | zero => cases hrounds
    | succ rounds =>
      unfold siblings
      refine Outcome.get_bind ?_
      rw [hc1]
      simp only [List.cons_append, hq c1.position first hbrace hright, hclose, hscript, hlimits,
        Option.isSome_none, Bool.false_eq_true, if_false]
      refine Outcome.bind (ih.atom hk depth hc1) ?_
      rintro n c2 ⟨rfl, hc2⟩
      refine gives_siblings_rest hg hq (Or.inr rfl) hv ht hc2 ?_
      simp only [List.cons_append, List.length_cons, List.length_append] at hrounds
      rw [hc2]
      simp only [List.length_cons, List.length_append]
      omega
  · rintro done c' ⟨hd, hc2⟩
    exact ⟨hd.collapse, hc2⟩

theorem readsBlank_group {opening closing : Token} (hopen : opening.isOpenBrace = true)
    (ih : ReadsBlank s .content w) (hclose : closing.isCloseBrace = true) :
    ReadsBlank s .group (opening :: (w ++ [closing])) := by
  intro depth c tail hc
  have hc' : c.rest = opening :: (w ++ closing :: tail) := by
    rw [hc]
    simp
  refine gives_atom_blank hc' fun c hc => ?_
  have hkind : opening.kind = .brace := (Token.is_iff.mp hopen).1
  simp only [atomAt, hkind, if_pos hopen]
  exact gives_group_blank hopen hclose ih depth hc

theorem readsBlank_pair (hg : s.grammar.Regular) {left d right d' : Token}
    (hleft : left.isCommand "\\left" = true) (hd : isPoint d = true)
    (ih : ReadsBlank s .content w) (hright : right.isCommand "\\right" = true)
    (hd' : isPoint d' = true) : ReadsBlank s .pair (left :: d :: (w ++ [right, d'])) := by
  intro depth c tail hc
  have hc' : c.rest = left :: d :: (w ++ right :: d' :: tail) := by
    rw [hc]
    simp
  obtain ⟨hkind, hvalue⟩ := Token.is_iff.mp hleft
  have hget := hg.get?_eq_left_iff.mpr hvalue
  refine gives_atom_blank hc' fun c hc => ?_
  simp only [atomAt, hkind, command_eq]
  refine Outcome.peek_bind (fun _ => trivial) fun t rest ht => ?_
  rw [hc] at ht
  cases ht
  simp only [hkind, if_true, commandAt, hget, reading, Reading.parser]
  refine Outcome.advance_bind (Outcome.trace_bind fun log => ?_)
  refine gives_leftRight_blank hd hright hd' ih depth ?_
  show c.rest.drop 1 = _
  rw [hc]
  rfl

end Kinds

theorem readsBlank (hg : s.grammar.Regular) {kind : BlankKind} {w : List Token}
    (h : Blank kind w) : ReadsBlank s kind w := by
  induction h with
  | limits hw => exact readsBlank_limits hg hw
  | around hu hk hw hv ih => exact readsBlank_around hg hu hk hw ih hv
  | group hopen _ hclose ih => exact readsBlank_group hopen ih hclose
  | pair hleft hd _ hright hd' ih => exact readsBlank_pair hg hleft hd ih hright hd'

/-- The argument of a script is no element exactly if a blank pair was read for it. -/
theorem isElement_scriptArgument_iff (hg : s.grammar.Regular) {depth : Nat} {stop : Stop}
    {script : Script} {marker : Token} {n : Node} {c' : Cursor} {w : List Token}
    (hrun : (scriptArgument s (inside s depth) stop script marker).run c = .ok n c')
    (hw : Took w c c') : n.isElement = false ↔ Blank .pair w := by
  constructor
  · intro hn
    obtain ⟨v, hv, hd⟩ :=
      outcome_ok (gives_scriptArgument (follows_inside s depth) stop script marker c) hrun
    have hsame : v = w := List.append_cancel_right (hv.rest.symm.trans hw.rest)
    exact hsame ▸ hd.isBlankIn hg hn
  · intro hblank
    have hatom := readsBlank hg hblank depth c c'.rest hw.rest
    obtain ⟨t, rest, rfl, _⟩ := hblank.exists_head hg (by decide)
    have hopen : t.isOpenBrace = false := by
      cases hblank with
      | pair hleft _ _ _ _ =>
        obtain ⟨hk, hv⟩ := Token.is_iff.mp hleft
        simp [Token.isOpenBrace, Token.isBrace, Token.is, hk]
    have hgives : Gives (scriptArgument s (inside s depth) stop script marker) c fun n _ =>
        n.isElement = false := by
      unfold scriptArgument
      refine Outcome.get_bind ?_
      rw [hw.rest, List.cons_append]
      dsimp only
      split
      · trivial
      · rw [if_neg (by simp [hopen])]
        refine hatom.weaken ?_
        rintro _ _ ⟨rfl, _⟩
        rfl
    exact outcome_ok hgives hrun

end MathMarkup.Parser

namespace MathMarkup

/-! ## Trees without blank scripts -/

/-- All places of an element with a fixed number of children are filled by elements. -/
def Node.Filled : Node → Prop
  | .text _ => True
  | .element name _ children =>
    name ∈ Node.pairNames ∨ name ∈ Node.tripleNames → ∀ c ∈ children, c.isElement = true

theorem Parser.Built.filled {p : CodePoint → Prop} {bare : Prop} {n : Node} (h : Built p bare n)
    (hb : ¬bare) : n.Filled := by
  -- Most names do not ask for a fixed number of children.
  have other : ∀ names : List Text, (∀ m ∈ names, m ∉ Node.pairNames ∧ m ∉ Node.tripleNames) →
      ∀ {name : Text}, name ∈ names → ∀ {q : Prop},
      name ∈ Node.pairNames ∨ name ∈ Node.tripleNames → q := by
    intro names hall name hn q hm
    rcases hm with hm | hm
    · exact absurd hm (hall name hn).1
    · exact absurd hm (hall name hn).2
  cases h with
  | nothing => trivial
  | leaf hn _ _ => exact other leafNames (by simp [leafNames, Node.pairNames, Node.tripleNames]) hn
  | space _ =>
    exact other ["mspace"] (by simp [Node.pairNames, Node.tripleNames]) List.mem_cons_self
  | row _ _ => exact other ["mrow"] (by simp [Node.pairNames, Node.tripleNames]) List.mem_cons_self
  | wrapper hn _ _ =>
    exact other wrapperNames (by simp [wrapperNames, Node.pairNames, Node.tripleNames]) hn
  | pair _ _ _ h1 _ h2 =>
    intro _
    simp [h1, h2]
  | script _ _ _ h1 _ h2 =>
    intro _
    simp [h1, h2.resolve_right hb]
  | scripts _ _ h1 _ h2 _ h3 =>
    intro _
    simp [h1, h2.resolve_right hb, h3.resolve_right hb]
  | tableRow _ _ _ =>
    exact other ["mtr"] (by simp [Node.pairNames, Node.tripleNames]) List.mem_cons_self
  | table _ _ _ =>
    exact other ["mtable"] (by simp [Node.pairNames, Node.tripleNames]) List.mem_cons_self

/-- A node whose places are all filled has no problem with its number of children. -/
theorem Node.arity_not_mem_problems {n : Node} (hs : n.Sound) (hf : n.Filled) (name : Text)
    (expected found : Nat) : Markup.Problem.arity name expected found ∉ n.problems := by
  cases n with
  | text content => simp [Node.problems]
  | element tag attributes children =>
    obtain ⟨_, _, htwo, hthree, _⟩ := hs
    intro hmem
    simp only [Node.problems, Markup.elementProblems, List.mem_append] at hmem
    rcases hmem with (hmem | hmem) | hmem
    · split at hmem <;> simp at hmem
    · split at hmem <;> simp at hmem
    · cases harity : Markup.fixedArity? tag with
      | none =>
        rw [harity] at hmem
        cases hmem
      | some k =>
        have hk := Markup.fixedArity?_eq_some_iff.mp harity
        have hall : children.filter Node.isElement = children := by
          refine List.filter_eq_self.mpr (hf ?_)
          exact hk.imp And.left And.left
        have hlength : children.length = k := by
          rcases hk with ⟨hn, rfl⟩ | ⟨hn, rfl⟩
          · exact htwo hn
          · exact hthree hn
        rw [harity, hall, hlength] at hmem
        simp at hmem

/-- A marker of a script before a token that starts a pair. -/
def marksPair (marker first : Token) : Bool :=
  (Script.ofToken? marker).isSome && first.isCommand "\\left"

theorem not_hasBlankScript {tokens : List Token}
    (h : tokens.IsChain fun marker first => marksPair marker first = false) :
    ¬Parser.HasBlankScript tokens := by
  rintro ⟨marker, pair, hinfix, hmarker, hblank⟩
  cases hblank with
  | pair hleft _ _ _ _ =>
    have hchain := h.infix hinfix
    rw [List.isChain_cons_cons] at hchain
    have hfirst := hchain.1
    rw [marksPair, hmarker, hleft] at hfirst
    cases hfirst

/-- What holds of trees of which no argument of a script is a blank pair without braces. Every place
of an element with a fixed number of children is filled by an element, and the document that is
written has no problem with numbers of children. The condition is exact: the argument read for a
script is no element if and only if a blank pair was read for it. -/
theorem filled_of_parse (symbols : Symbol.Table) (options : Options) (source : Text) :
    (∀ node, (parse (Grammar.ofSymbols symbols).value options source).value = .ok node →
      ¬Parser.HasBlankScript (Token.tokenize source) →
      (∀ m ∈ node.nodes, m.Filled) ∧
      ∀ display, ∃ text,
        Draft.serialize display (Draft.document (.ofNode node)) = .ok text ∧
        ∀ xml : Xml.Reader, xml.ReadsDocuments → ∃ problems,
          Markup.problems xml text = .ok problems ∧
          ∀ name expected found, .arity name expected found ∉ problems) ∧
    (∀ depth stop script marker c n c' w,
      (Parser.scriptArgument ⟨(Grammar.ofSymbols symbols).value, options, source⟩
        (Parser.inside ⟨(Grammar.ofSymbols symbols).value, options, source⟩ depth) stop script
        marker).run c = .ok n c' → Parser.Took w c c' →
      (n.isElement = false ↔ Parser.Blank .pair w)) := by
  have hregular := Grammar.regular_ofSymbols symbols
  refine ⟨fun node h hblank => ?_, fun depth stop script marker c n c' w hrun hw =>
    Parser.isElement_scriptArgument_iff hregular hrun hw⟩
  have hb : Parser.Built (fun _ => True) (Parser.HasBlankScript (Token.tokenize source)) node :=
    Parser.built_of_parse (material_true _ _) (Parser.scriptsFilled_hasBlankScript hregular _) h
  have hnodes : ∀ m ∈ node.nodes, m.Sound ∧ m.Filled ∧ m.Plain := by
    intro m hm
    rcases hb.mem_nodes hm with hbm | ⟨content, rfl, _⟩
    · exact ⟨hbm.sound, hbm.filled hblank, hbm.plain⟩
    · exact ⟨trivial, trivial, trivial⟩
  have hplain : ∀ m ∈ node.nodes, m.Plain := fun m hm => (hnodes m hm).2.2
  refine ⟨fun m hm => (hnodes m hm).2.1, fun display => ⟨_,
    serialize_document display hb.hasName_math hplain, fun xml hxml => ⟨_,
      problems_documentText hxml display hplain, ?_⟩⟩⟩
  intro name expected found hmem
  split at hmem
  · obtain ⟨m, hm, hmm⟩ := List.mem_flatMap.mp hmem
    exact Node.arity_not_mem_problems (hnodes m hm).1 (hnodes m hm).2.1 name expected found hmm
  · simp at hmem

/-- A blank pair in braces is an empty row. The same pair without braces is read as the empty text.
-/
theorem filled_of_parse_braces :
    ((parse (Grammar.ofSymbols ⟨fun _ => []⟩).value {}
        (Text.ofString "1^\x7b\\left.\\right.\x7d")).value =
          .ok (.element "msup" [] [.number "1", .row []]) ∧
      (∀ m ∈ (Node.element "msup" [] [.number "1", .row []]).nodes, m.Filled) ∧
      ∃ text problems, Draft.serialize false (Draft.document
          (.ofNode (.element "msup" [] [.number "1", .row []]))) = .ok text ∧
        Markup.problems Xml.document? text = .ok problems ∧
        ∀ name expected found, .arity name expected found ∉ problems) ∧
    ∃ n c', (Parser.scriptArgument ⟨(Grammar.ofSymbols ⟨fun _ => []⟩).value, {}, []⟩
        (Parser.inside ⟨(Grammar.ofSymbols ⟨fun _ => []⟩).value, {}, []⟩ 1) Parser.noStop
        .superscript ⟨.symbol, "^", {}⟩).run { rest := Token.tokenize "\\left.\\right." } =
          .ok n c' ∧
      n.isElement = false ∧ Parser.Blank .pair (Token.tokenize "\\left.\\right.") := by
  constructor
  · have hparse : (parse (Grammar.ofSymbols ⟨fun _ => []⟩).value {}
        (Text.ofString "1^\x7b\\left.\\right.\x7d")).value =
          .ok (.element "msup" [] [.number "1", .row []]) := by
      rw [Grammar.ofSymbols_nil]
      decide +kernel
    have hchain : (Token.tokenize (Text.ofString "1^\x7b\\left.\\right.\x7d")).IsChain
        fun marker first => marksPair marker first = false := by
      decide
    obtain ⟨hfilled, hdocument⟩ := (filled_of_parse _ _ _).1 _ hparse (not_hasBlankScript hchain)
    obtain ⟨text, htext, hproblems⟩ := hdocument false
    obtain ⟨problems, hchecked, harity⟩ := hproblems _ Xml.readsDocuments_document?
    exact ⟨hparse, hfilled, text, problems, htext, hchecked, harity⟩
  · obtain ⟨n, c', hrun, hn, hrest⟩ : ∃ n c', (Parser.scriptArgument
        ⟨(Grammar.ofSymbols ⟨fun _ => []⟩).value, {}, []⟩
        (Parser.inside ⟨(Grammar.ofSymbols ⟨fun _ => []⟩).value, {}, []⟩ 1) Parser.noStop
        .superscript ⟨.symbol, "^", {}⟩).run { rest := Token.tokenize "\\left.\\right." } =
          .ok n c' ∧ n.isElement = false ∧ c'.rest = [] :=
      Parser.Outcome.exists_eq_ok (by
        rw [Grammar.ofSymbols_nil]
        decide +kernel)
    obtain ⟨w, hw, _⟩ := Parser.outcome_ok
      (Parser.gives_scriptArgument (Parser.follows_inside _ 1) _ _ _ _) hrun
    have hall : Token.tokenize "\\left.\\right." = w := by
      have hsplit := hw.rest
      rw [hrest, List.append_nil] at hsplit
      exact hsplit
    refine ⟨n, c', hrun, hn, ?_⟩
    rw [hall]
    exact ((filled_of_parse _ _ _).2 _ _ _ _ _ _ _ _ hrun hw).mp hn

/-- The place of the script is left to the empty text. -/
example : (parse (Grammar.ofSymbols ⟨fun _ => []⟩).value {}
    (Text.ofString "1^\\left.\\right.")).value =
      .ok (.element "msup" [] [.number "1", .text []]) := by
  rw [Grammar.ofSymbols_nil]
  decide +kernel

end MathMarkup
