import MathMarkup.Proofs.Parser.PairedRun

/-!
# Tokens on their own and in their place

Tokens that parse on their own are read as the same node in the place where they stand: behind other
tokens, inside further scopes, up to a closer, and in a larger source. Two runs are compared, of
which the left one has the tokens alone (`standalone`). What it refuses is mostly of no interest;
the right one may open fewer scopes, and is excused where it is refused one.
-/

namespace MathMarkup.Parser

/-- What the tokens are read as. -/
def readTokens (s : Setup) (tokens : List Token) : Except ParseError Node :=
  match (expression s noStop).run { rest := tokens } with
  | .ok node _ => .ok node
  | .error e _ => .error e

/-- A parse reads the tokens of the source. -/
theorem value_parse_eq_readTokens (grammar : Grammar) (options : Options) (source : Text) :
    (parse grammar options source).value =
      readTokens ⟨grammar, options, source⟩ (Token.tokenize source) :=
  value_parse grammar options source

/-- What two runs that agree read: nodes that fit, or errors that match, unless one of them fails in
a way that is excused. -/
inductive Matched (P : Pairing) : Except ParseError Node → Except ParseError Node → Prop where
  | ok {n n' : Node} : P.node n n' → Matched P (.ok n) (.ok n')
  | error {e e' : ParseError} : P.Matches e e' → Matched P (.error e) (.error e')
  | left {e : ParseError} (r' : Except ParseError Node) : P.left e → Matched P (.error e) r'
  | right (r : Except ParseError Node) {e' : ParseError} : P.right e' → Matched P r (.error e')

theorem matched_of_agree {P : Pairing} {s s' : Setup} {tokens tokens' : List Token}
    (hruns : Agree P Never (expression s noStop) (expression s' noStop) { rest := tokens }
      { rest := tokens' } fun n _ n' _ => P.node n n') :
    Matched P (readTokens s tokens) (readTokens s' tokens') := by
  unfold readTokens
  cases hr : (expression s noStop).run { rest := tokens } with
  | ok n d =>
    cases hr' : (expression s' noStop).run { rest := tokens' } with
    | ok n' d' => exact .ok ((hruns.ok_ok hr hr').resolve_left id)
    | error e' d' => exact .right _ ((hruns.ok_error hr hr').resolve_left id)
  | error e d =>
    cases hr' : (expression s' noStop).run { rest := tokens' } with
    | ok n' d' => exact .left _ (hruns.error_ok hr hr')
    | error e' d' =>
      rcases hruns.error_error hr hr' with hmatches | hleft | hright
      · exact .error hmatches
      · exact .left _ hleft
      · exact .right _ hright

theorem matched_readTokens {P : Pairing} {s s' : Setup} (hs : Relates P s s') (hsame : P.Same)
    (hshift : P.shift = 0)
    (hdepth : s'.options.maxNestingDepth = s.options.maxNestingDepth) {tokens' : List Token}
    (htokens : P.tokens.map P.move = tokens') :
    Matched P (readTokens s P.tokens) (readTokens s' tokens') :=
  matched_of_agree (agree_same hs hsame hshift hdepth htokens)

/-- The tokens parse on their own. -/
def ParsesAlone (s : Setup) (tokens : List Token) : Prop :=
  ∃ node, readTokens s tokens = .ok node

theorem run_withAllowance {α : Type} (s : Setup) (p : Nested → ParseM α) (c : Cursor) :
    (withAllowance s p).run c = (p (inside s (allowance s c))).run c := by
  simp only [withAllowance, EStateM.run_bind, EStateM.run_get]

theorem run_expression (s : Setup) (stop : Stop) (c : Cursor) :
    (expression s stop).run c = (siblings s (inside s (allowance s c)) stop c.rest.length [] >>=
      fun all => pure (collapseSiblings all)).run c := by
  unfold expression expressionWith
  simp only [run_withAllowance, EStateM.run_bind, EStateM.run_get]

/-! ## The comparison -/

/-- The tokens are those of a part of a source: they stand elsewhere, and with the same text between
them. Where nodes are marked with places the places are the same. -/
structure Embeds (s s' : Setup) (place : Token → Place) (v : List Token) : Prop where
  grammar : s'.grammar = s.grammar
  options : s'.options = s.options
  between : ∀ {opening closing}, opening ∈ v → closing ∈ v →
    s'.source.between ((moved place opening).offset + 1) (moved place closing).offset =
      s.source.between (opening.offset + 1) closing.offset
  marks : s.debug = false ∨ ∀ t ∈ v, place t = t.place

variable {s s' : Setup} {place : Token → Place} {v w tail : List Token} {c d : Cursor}
  {left right excused : ParseError → Prop} {node : Node} {n m : Nat} {stop : Stop}

theorem Embeds.refl (s : Setup) (v : List Token) : Embeds s s Token.place v where
  grammar := rfl
  options := rfl
  between _ _ := rfl
  marks := Or.inr fun _ _ => rfl

theorem fitting_eq : Fitting Eq where
  text _ := rfl
  element _ _ _ _ _ h := by
    rw [List.forall₂_eq_eq_eq] at h
    rw [h]
  isEmpty h := by rw [h]
  hasName h := by rw [h]
  takesLimits h := by rw [h]
  isParen h _ _ := by rw [h]
  setLimits h _ := by rw [h]

theorem SiblingFits.eq {x x' : Sibling} (h : SiblingFits Eq x x') : x = x' := by
  cases h with
  | atom hn => rw [hn]
  | scripted hn hscripts =>
    rw [hn]
    cases hscripts with
    | sub hm => rw [hm]
    | sup hm => rw [hm]
    | both hm hm' => rw [hm, hm']

theorem eq_of_siblingsFit {done done' : List Sibling} (h : SiblingsFit Eq done done') :
    done = done' := by
  rw [← List.forall₂_eq_eq_eq]
  exact h.imp fun _ _ => SiblingFits.eq

/-- Nothing less than equality fits. The left run is that of some tokens on their own, while the
right one reads them from the given cursor on and goes on behind them. -/
def standalone (left right : ParseError → Prop) (place : Token → Place) (v tail : List Token)
    (c : Cursor) : Pairing where
  left := left
  right := right
  node := Eq
  tokens := v
  tail := tail
  shift := c.position
  outer := c.scopes
  place := place

theorem relates_standalone (hclosed : (standalone left right place v tail c).Closed)
    (h : Embeds s s' place v) : Relates (standalone left right place v tail c) s s' where
  closed := hclosed
  fitting := fitting_eq
  grammar := h.grammar
  raw {opening closing rest n} hsuffix _ hclosing := by
    obtain ⟨body, behind, rfl, -⟩ := closingBrace?_eq_some hclosing
    exact (h.between (hsuffix.subset (by simp)) (hsuffix.subset (by simp))).symm
  commandText _ _ h := h.symm
  columns h := by rw [h]
  unknownCommand _ _ _ := Or.inl (by unfold rejectsUnknown; rw [h.options])
  unknownEnvironment _ _ _ _ := Or.inl (by rw [h.options])
  textNode variant raw := by
    unfold textOfRaw
    rw [h.options]
    rfl
  placedNode := by
    rintro t n _ ht rfl
    have hdebug : s'.debug = s.debug := congrArg (·.debugMode.isTruthy) h.options
    unfold placedNode
    rw [hdebug]
    rcases h.marks with hplain | hplace
    · rw [hplain]
      rfl
    · have hmove : (standalone left right place v tail c).move t = t :=
        moved_eq_self (hplace t ht)
      rw [hmove]
      rfl

theorem joined_standalone (hc : c.rest = v.map (moved place) ++ tail) :
    Joined (standalone left right place v tail c) [] { rest := v } c :=
  ⟨List.suffix_refl _, hc, (Nat.zero_add _).symm, rfl, rfl⟩

/-- The run that may open fewer scopes has to be excused where it is refused one. -/
theorem alike_standalone (hclosed : (standalone left right place v tail c).Closed)
    (h : Embeds s s' place v) (hless : n < m → ∀ t, left (tooDeep s t))
    (hmore : m < n → ∀ t, right (tooDeep s' t)) :
    Alike (standalone left right place v tail c) s s' (inside s n) (inside s' m) :=
  alike_inside (relates_standalone hclosed h)
    (fun _ t => Or.inl (.tooDeep (congrArg Options.maxNestingDepth h.options) t)) hless hmore

/-- A stop at closers only fits one that never comes. -/
theorem stopFits_standalone (hleft : (standalone left right place v tail c).Lenient)
    (hstop : ∀ p t, stop p t = true → (Scope.closedBy? t).isSome = true) :
    StopFits (standalone left right place v tail c) noStop stop := by
  intro p t
  cases hstops : stop (p + c.position) (moved place t) with
  | false => exact Or.inl hstops
  | true => exact Or.inr ⟨rfl, hstop _ (moved place t) hstops, hleft⟩

/-! ## In their place -/

/-- Up to a closer behind them, tokens are read as they are on their own. -/
theorem agree_standalone (hleft : (standalone left right place v tail c).Lenient)
    (h : Embeds s s' place v) (hless : n < m → ∀ t, left (tooDeep s t))
    (hmore : m < n → ∀ t, right (tooDeep s' t)) (hc : c.rest = v.map (moved place) ++ tail)
    (hstop : ∀ p t, stop p t = true → (Scope.closedBy? t).isSome = true)
    (htail : ∀ t ∈ tail.head?, ∀ p, stop p t = true) :
    Agree (standalone left right place v tail c) Never (expressionWith s (inside s n) noStop)
      (expressionWith s' (inside s' m) stop) { rest := v } c
      fun a _ b d' => b = a ∧ d'.rest = tail := by
  unfold expressionWith
  refine .get_bind (agree_siblings_bind (alike_standalone (Or.inr hleft) h hless hmore)
    (stopFits_standalone hleft hstop) fitting_eq.carries (joined_standalone hc) .nil
    (Nat.le_refl _) (Nat.le_refl _) ?_)
  intro all all' d d' more hj hall hat _
  have hd' : d'.rest = tail := by
    rw [hj.rest, hat.rest_eq_nil]
    rfl
  have hat' : AtStop stop d' := fun t rest hrest =>
    htail t (by rw [← hd', hrest]; rfl) _
  have hnode : collapseSiblings all' = collapseSiblings all :=
    (fitting_eq.collapseSiblings hall).symm
  exact (Agree.pure ⟨hnode, hd'⟩).congr rfl (run_siblings_end hat' _)

/-- Tokens that are read as a node on their own are read as this node in their place, where they are
not refused a scope. -/
theorem outcome_of_standalone (h : Embeds s s' place v)
    (hdeep : m < n → ∀ t, excused (tooDeep s' t))
    (hrun : (expressionWith s (inside s n) noStop).run { rest := v } = .ok node d)
    (hc : c.rest = v.map (moved place) ++ tail)
    (hstop : ∀ p t, stop p t = true → (Scope.closedBy? t).isSome = true)
    (htail : ∀ t ∈ tail.head?, ∀ p, stop p t = true) :
    Outcome (expressionWith s' (inside s' m) stop) c
      (fun node' c' => node' = node ∧ c'.rest = tail) fun e _ => excused e := by
  have hruns : Agree (standalone (fun _ => True) excused place v tail c) Never _ _ _ _ _ :=
    agree_standalone (fun _ => trivial) h (fun _ _ => trivial) hdeep hc hstop htail
  exact hruns.right_outcome hrun

end MathMarkup.Parser
