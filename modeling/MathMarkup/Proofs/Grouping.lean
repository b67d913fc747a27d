import MathMarkup.Proofs.Delimiters
import MathMarkup.Proofs.Scoping
import MathMarkup.Proofs.Token

/-!
# Groups

A group is read as its content is read on its own, wherever it stands, if the content leaves room
for one more scope: in braces, in brackets, and as an argument of a command. A source in braces
therefore stands for the same tree as the source (`groups_of_readTokens`).
-/

namespace MathMarkup

namespace Parser

variable {α β : Type} {s s' : Setup} {place : Token → Place} {v w tail : List Token}
  {c : Cursor} {node : Node} {n m k : Nat} {stop : Stop}

/-! ## Tokens taken for a result -/

/-- The parser takes the tokens and gives the result. It leaves the cursor just behind them, with
the scopes and the environment as they were. -/
def Takes (p : ParseM α) (w : List Token) (a : α) (c : Cursor) : Prop :=
  ∃ c', p.run c = .ok a c' ∧ Took w c c'

namespace Takes

theorem bind {p : ParseM α} {f : α → ParseM β} {a : α} {b : β} (h : Takes p v a c)
    (hf : ∀ c', Took v c c' → Takes (f a) w b c') : Takes (p >>= f) (v ++ w) b c := by
  obtain ⟨d, hrun, hv⟩ := h
  obtain ⟨d', hrun', hw⟩ := hf d hv
  refine ⟨d', ?_, hv.trans hw⟩
  rw [EStateM.run_bind, hrun]
  exact hrun'

theorem map {p : ParseM α} {a : α} (h : Takes p w a c) (f : α → β) :
    Takes (p >>= fun a => pure (f a)) w (f a) c := by
  obtain ⟨d, hrun, hw⟩ := h
  refine ⟨d, ?_, hw⟩
  rw [EStateM.run_bind, hrun]
  rfl

theorem next_bind {t : Token} {f : Option Token → ParseM α} {a : α}
    (hc : c.rest = t :: v) (h : Takes (f (some t)) w a (c.skip 1)) :
    Takes (next >>= f) (t :: w) a c := by
  obtain ⟨d, hrun, hw⟩ := h
  exact ⟨d, (run_next_cons hc f).trans hrun, (took_next hc).trans hw⟩

theorem peek_bind {t : Token} {f : Option Token → ParseM α} {a : α}
    (hc : c.rest = t :: v) (h : Takes (f (some t)) w a c) : Takes (peek >>= f) w a c := by
  obtain ⟨d, hrun, hw⟩ := h
  refine ⟨d, ?_, hw⟩
  rw [run_peek, hc]
  exact hrun

theorem advance_bind {t : Token} {f : Unit → ParseM α} {a : α} (hc : c.rest = t :: v)
    (h : Takes (f ()) w a (c.skip 1)) : Takes (advance 1 >>= f) (t :: w) a c := by
  obtain ⟨d, hrun, hw⟩ := h
  exact ⟨d, hrun, (took_next hc).trans hw⟩

theorem trace_bind {part : Log.Part} {message : Text} {f : Unit → ParseM α} {a : α}
    (h : ∀ log, Takes (f ()) w a { c with log := log }) :
    Takes (trace s part message >>= f) w a c := by
  have hlog : ∀ log, ∃ c', (f ()).run { c with log := log } = .ok a c' ∧ Took w c c' := by
    intro log
    obtain ⟨d, hrun, hw⟩ := h log
    exact ⟨d, hrun, hw.ofLog⟩
  rw [Parser.trace_bind]
  split
  · exact hlog _
  · exact hlog c.log

/-- The tokens that were taken are those before the tail. -/
theorem of_outcome {p : ParseM Node} (h : Outcome p c (fun n c' => n = node ∧ c'.rest = tail)
    fun _ _ => False) (hgives : Gives p c fun _ c' => ∃ w, Took w c c')
    (hc : c.rest = w ++ tail) : Takes p w node c := by
  obtain ⟨_, c', hrun, rfl, hrest⟩ := h.exists_eq_ok
  obtain ⟨w', hw'⟩ := outcome_ok hgives hrun
  have hsplit := hw'.rest
  rw [hc, hrest] at hsplit
  obtain rfl := List.append_cancel_right hsplit
  exact ⟨c', hrun, hw'⟩

end Takes

/-! ## Room for scopes -/

/-- An expression over the tokens alone never has more than `k` scopes open: it is not refused one
where no more may be opened. -/
def OpensAtMost (s : Setup) (k : Nat) (tokens : List Token) : Prop :=
  ∀ e d, (expressionWith s (inside s k) noStop).run { rest := tokens } = .error e d →
    ∀ t, e ≠ tooDeep s t

/-- Where `depth` scopes are open, the limit on nesting leaves room for the scope of a group and
for those that its tokens open. -/
def HasRoom (s : Setup) (depth : Nat) (tokens : List Token) : Prop :=
  ∀ limit, s.options.maxNestingDepth.number.ceiling? = some limit →
    depth < limit ∧ OpensAtMost s (limit - depth - 1) tokens

/-- Up to a closer behind them the tokens are read as the node. -/
def ReadsAs (s : Setup) (m : Nat) (w : List Token) (node : Node) : Prop :=
  ∀ {c stop tail}, c.rest = w ++ tail →
    (∀ p t, stop p t = true → (Scope.closedBy? t).isSome = true) →
    (∀ t ∈ tail.head?, ∀ p, stop p t = true) →
      Takes (expressionWith s (inside s m) stop) w node c

theorem readsAs_of_run {d : Cursor} (h : Embeds s s' place v) (hle : n ≤ m)
    (hrun : (expressionWith s (inside s n) noStop).run { rest := v } = .ok node d) :
    ReadsAs s' m (v.map (moved place)) node := by
  intro c stop tail hc hstop htail
  refine .of_outcome (outcome_of_standalone h ?_ hrun hc hstop htail) ?_ hc
  · exact fun hlt => absurd hle (Nat.not_le_of_lt hlt)
  · refine (followsTo_expressionWith (follows_inside s' m) stop c).weaken ?_
    rintro _ c' ⟨w, _, hw, -⟩
    exact ⟨w, hw⟩

theorem run_of_readTokens (h : readTokens s v = .ok node) :
    ∃ d, (expressionWith s (inside s (allowance s { rest := v })) noStop).run { rest := v } =
      .ok node d := by
  unfold readTokens expression at h
  rw [run_withAllowance] at h
  split at h
  · next node' d hrun =>
    cases h
    exact ⟨d, hrun⟩
  · cases h

/-- Tokens that parse on their own open few scopes if they parse where only so few may be opened,
and then they have the same node there. -/
theorem opensAtMost_iff (hread : readTokens s v = .ok node) :
    OpensAtMost s k v ↔
      ∃ d, (expressionWith s (inside s k) noStop).run { rest := v } = .ok node d := by
  constructor
  · intro h
    obtain ⟨d, hrun⟩ := run_of_readTokens hread
    have hsame : v = v.map (moved Token.place) ++ [] := by
      rw [map_moved_eq_self fun _ _ => rfl, List.append_nil]
    -- The two runs differ only where the second one is refused a scope.
    have hout : Outcome (expressionWith s (inside s k) noStop) { rest := v }
        (fun node' c' => node' = node ∧ c'.rest = []) fun e _ => ∃ t, e = tooDeep s t :=
      outcome_of_standalone (.refl s v) (fun _ t => ⟨t, rfl⟩) hrun hsame (fun _ _ h => nomatch h)
        fun _ h => nomatch h
    cases hlimited : (expressionWith s (inside s k) noStop).run { rest := v } with
    | ok node' d =>
      obtain ⟨rfl, -⟩ := outcome_ok hout hlimited
      exact ⟨d, rfl⟩
    | error e d =>
      obtain ⟨t, ht⟩ := outcome_error hout hlimited
      exact absurd ht (h e d hlimited t)
  · rintro ⟨d, hrun⟩ e d' hrun' t
    rw [hrun] at hrun'
    cases hrun'

/-- Where there is room for a group of the tokens, its scope may be opened, and inside it they are
read as on their own. -/
theorem readsAs_of_readTokens (he : Embeds s s' place v) (hread : readTokens s v = .ok node)
    (hroom : HasRoom s c.scopes.length v) (hlen : v.length < c.rest.length) :
    ∃ m, allowance s' c = m + 1 ∧ ReadsAs s' m (v.map (moved place)) node := by
  cases hlimit : s.options.maxNestingDepth.number.ceiling? with
  | some limit =>
    obtain ⟨hdepth, hopens⟩ := hroom limit hlimit
    obtain ⟨d, hrun⟩ := (opensAtMost_iff hread).mp hopens
    refine ⟨limit - c.scopes.length - 1, ?_, readsAs_of_run he (Nat.le_refl _) hrun⟩
    rw [allowance_of_ceiling (he.options ▸ hlimit)]
    omega
  | none =>
    -- Without a limit as many scopes may be opened as there are tokens.
    have hown : allowance s { rest := v } = v.length := by
      unfold allowance
      rw [hlimit]
    have hallowance : allowance s' c = c.rest.length := by
      unfold allowance
      rw [he.options, hlimit]
    obtain ⟨d, hrun⟩ := run_of_readTokens hread
    rw [hown] at hrun
    refine ⟨c.rest.length - 1, ?_, readsAs_of_run he (by omega) hrun⟩
    rw [hallowance]
    omega

/-! ## Groups in their place -/

/-- A group is read as the node that its content has on its own. -/
theorem takes_enclosed {opens closes : Token → Bool} {kind : Scope.Kind} {name : Text}
    {expected unclosed : ParseError.Cause}
    (hcloser : ∀ t, closes t = true → (Scope.closedBy? t).isSome = true)
    (h : ReadsAs s m v node) (hw : Token.Delimited opens closes v w) (hc : c.rest = w ++ tail) :
    Takes (enclosed s (inside s (m + 1)) opens closes kind name expected unclosed) w node c := by
  obtain @⟨opening, closing, hopen, hclose⟩ := hw
  have hrest : (c.skip 1).rest = v ++ ([closing] ++ tail) := by
    rw [← List.append_assoc]
    exact (took_next hc).rest_eq hc
  have hhead : ∀ t ∈ ([closing] ++ tail).head?, ∀ _ : Nat, closes t = true := by
    rintro _ ⟨⟩ _
    exact hclose
  unfold enclosed
  refine .next_bind hc ?_
  simp only [if_pos hopen]
  -- Inside the scope the content ends at the closer, which is then taken with the scope.
  have hcontent : Takes (expressionWith s (inside s m) fun _ t => closes t) v node
      { c.skip 1 with scopes := ⟨kind, name, opening⟩ :: (c.skip 1).scopes } :=
    h hrest (fun _ => hcloser) hhead
  obtain ⟨d, hrun, hw⟩ := hcontent
  have hd : d.rest = closing :: tail := hw.rest_eq hrest
  refine ⟨_, ?_, hw.closing hd⟩
  show (expressionWith s (inside s m) (fun _ t => closes t) >>= fun n => next >>= _).run
    { c.skip 1 with scopes := ⟨kind, name, opening⟩ :: (c.skip 1).scopes } = _
  rw [EStateM.run_bind, hrun]
  exact run_next_cons hd _

theorem Pair.isSome_closedBy? (pair : Pair) (t : Token) (h : pair.closes t = true) :
    (Scope.closedBy? t).isSome = true := by
  rw [(pair.closes_iff t).mp h, Option.isSome_some]

/-- An argument is the slot of the node that its tokens have on their own. -/
theorem takes_argument (h : ReadsAs s m v node) (hw : Token.Braced v w) (hc : c.rest = w ++ tail)
    (t : Token) (index : Nat) : Takes (argument s (inside s (m + 1)) t index) w node.slot c := by
  have hgroup : Takes (group s (inside s (m + 1))) w node c :=
    takes_enclosed Pair.braces.isSome_closedBy? h hw hc
  obtain ⟨hopen, -⟩ := hw
  unfold argument expectGroup
  rw [bind_assoc]
  refine .peek_bind hc ?_
  simp only [if_pos hopen, pure_bind]
  exact hgroup.map Node.slot

theorem get?_frac (hg : s.grammar.Regular) {t : Token} (ht : t.isCommand "\\frac" = true) :
    s.grammar.commands.get? t.value = some (.fraction none) := by
  rw [(Token.is_iff.mp ht).2]
  exact hg.get?_structural rfl

/-- A fraction of two groups. -/
theorem takes_fraction (hg : s.grammar.Regular) {t : Token} {v₁ v₂ w₁ w₂ : List Token}
    {n₁ n₂ : Node} (ht : t.isCommand "\\frac" = true) (h₁ : ReadsAs s m v₁ n₁)
    (h₂ : ReadsAs s m v₂ n₂) (hw₁ : Token.Braced v₁ w₁) (hw₂ : Token.Braced v₂ w₂)
    (hc : c.rest = t :: (w₁ ++ (w₂ ++ tail))) :
    Takes (command s (inside s (m + 1))) (t :: (w₁ ++ w₂))
      (.element "mfrac" [] [n₁.slot, n₂.slot]) c := by
  have hrest : (c.skip 1).rest = w₁ ++ (w₂ ++ tail) := (took_next hc).rest_eq hc
  rw [command_eq]
  refine .peek_bind hc ?_
  simp only [if_pos (Token.is_iff.mp ht).1, commandAt, get?_frac hg ht]
  refine .advance_bind hc (.trace_bind fun log => ?_)
  simp only [reading, Reading.parser]
  exact .bind (takes_argument (c := { c.skip 1 with log := log }) h₁ hw₁ hrest t 1) fun d hd =>
    .map (takes_argument h₂ hw₂ (hd.rest_eq hrest) t 2) _

/-! ## Runs -/

theorem takes_run_iff {entry : Entry} :
    Takes (entry.run s) w node c ↔ Takes (entry.parser s (inside s (allowance s c))) w node c := by
  unfold Takes Entry.run
  rw [run_withAllowance]

/-- A group of tokens that parse on their own, where there is room for it. -/
theorem takes_run_enclosed {entry : Entry} {opens closes : Token → Bool} {kind : Scope.Kind}
    {name : Text} {expected unclosed : ParseError.Cause}
    (hentry : ∀ nested, entry.parser s' nested =
      enclosed s' nested opens closes kind name expected unclosed)
    (hcloser : ∀ t, closes t = true → (Scope.closedBy? t).isSome = true)
    (he : Embeds s s' place v) (hread : readTokens s v = .ok node)
    (hroom : HasRoom s c.scopes.length v)
    (hw : Token.Delimited opens closes (v.map (moved place)) w) (hc : c.rest = w ++ tail) :
    Takes (entry.run s') w node c := by
  have hlen := hw.length_lt
  rw [List.length_map] at hlen
  obtain ⟨m, hm, hreads⟩ := readsAs_of_readTokens he hread hroom (c := c) (by
    rw [hc, List.length_append]
    omega)
  rw [takes_run_iff, hentry, hm]
  exact takes_enclosed hcloser hreads hw hc

theorem takes_run_group (he : Embeds s s' place v) (hread : readTokens s v = .ok node)
    (hroom : HasRoom s c.scopes.length v) (hw : Token.Braced (v.map (moved place)) w)
    (hc : c.rest = w ++ tail) : Takes (Entry.group.run s') w node c :=
  takes_run_enclosed (group_eq s') Pair.braces.isSome_closedBy? he hread hroom hw hc

theorem takes_run_bracketContent (he : Embeds s s' place v) (hread : readTokens s v = .ok node)
    (hroom : HasRoom s c.scopes.length v) (hw : Token.Bracketed (v.map (moved place)) w)
    (hc : c.rest = w ++ tail) : Takes (Entry.bracketContent.run s') w node c :=
  takes_run_enclosed (bracketContent_eq s') Pair.brackets.isSome_closedBy? he hread hroom hw hc

/-- A fraction of two groups of tokens that parse on their own, where there is room for them. -/
theorem takes_run_fraction {s₁ s₂ : Setup} {place₁ place₂ : Token → Place}
    {v₁ v₂ w₁ w₂ : List Token} {n₁ n₂ : Node} (hg : s'.grammar.Regular)
    (he₁ : Embeds s₁ s' place₁ v₁) (he₂ : Embeds s₂ s' place₂ v₂)
    (hread₁ : readTokens s₁ v₁ = .ok n₁) (hread₂ : readTokens s₂ v₂ = .ok n₂)
    (hroom₁ : HasRoom s₁ c.scopes.length v₁) (hroom₂ : HasRoom s₂ c.scopes.length v₂) {t : Token}
    (ht : t.isCommand "\\frac" = true) (hw₁ : Token.Braced (v₁.map (moved place₁)) w₁)
    (hw₂ : Token.Braced (v₂.map (moved place₂)) w₂) (hc : c.rest = t :: (w₁ ++ (w₂ ++ tail))) :
    Takes (Entry.command.run s') (t :: (w₁ ++ w₂)) (.element "mfrac" [] [n₁.slot, n₂.slot]) c := by
  have hlen₁ := hw₁.length_lt
  have hlen₂ := hw₂.length_lt
  have hlen := congrArg List.length hc
  simp only [List.length_map, List.length_cons, List.length_append] at hlen₁ hlen₂ hlen
  obtain ⟨m, hm, hreads₁⟩ := readsAs_of_readTokens he₁ hread₁ hroom₁ (by omega)
  obtain ⟨m', hm', hreads₂⟩ := readsAs_of_readTokens he₂ hread₂ hroom₂ (by omega)
  -- Both groups are read at the depth of the command.
  obtain rfl : m = m' := Nat.succ.inj (hm.symm.trans hm')
  rw [takes_run_iff, hm]
  exact takes_fraction hg ht hreads₁ hreads₂ hw₁ hw₂ hc

/-! ## Formulas of one atom -/

/-- A formula that is a single atom. Where nodes are not marked with places, it is read as the
atom. -/
theorem readTokens_atom {t : Token} (hdebug : s.debug = false) (hclosed : Scope.closedBy? t = none)
    (hscript : Script.ofToken? t = none) (hlimits : limits? s.grammar t = none)
    (h : Takes (atomAt s (inside s (allowance s { rest := t :: w })) t) (t :: w) node
      { rest := t :: w }) : readTokens s (t :: w) = .ok node := by
  have hgoes : (Scope.closedBy? t).isSome = false := by rw [hclosed, Option.isSome_none]
  obtain ⟨d, hrun, hw⟩ := h
  have hd : d.rest = [] := hw.rest_eq (List.append_nil _).symm
  have hatom : (atom s (inside s (allowance s { rest := t :: w }))).run { rest := t :: w } =
      .ok node d := by
    rw [atom_eq, run_peek]
    simp only [List.head?_cons, Parser.trace_bind, placedNode, hdebug, Bool.false_eq_true, if_false,
      bind_pure]
    exact hrun
  have hexpr : (expression s noStop).run { rest := t :: w } = .ok node d := by
    rw [run_expression, List.length_cons, run_siblings_cons rfl rfl hgoes]
    unfold takeSibling
    rw [hscript, hlimits]
    simp only [bind_assoc, pure_bind]
    rw [EStateM.run_bind, hatom]
    exact run_siblings_end (atStop_nil hd) _
  unfold readTokens
  rw [hexpr]

theorem readTokens_group (hg : s.grammar.Regular) (hdebug : s.debug = false)
    (hw : Token.Braced v w) (h : Takes (Entry.group.run s) w node { rest := w }) :
    readTokens s w = .ok node := by
  obtain ⟨hopen, -⟩ := hw
  have hopens : Pair.braces.opens _ = true := hopen
  refine readTokens_atom hdebug (Pair.closedBy?_of_opens hopens) (Pair.ofToken?_of_opens hopens)
    (Pair.limits?_of_opens hg hopens) ?_
  simp only [atomAt, (Token.is_iff.mp hopen).1, if_pos hopen]
  exact takes_run_iff.mp h

theorem readTokens_fraction (hg : s.grammar.Regular) (hdebug : s.debug = false) {t : Token}
    (ht : t.isCommand "\\frac" = true)
    (h : Takes (Entry.command.run s) (t :: w) node { rest := t :: w }) :
    readTokens s (t :: w) = .ok node := by
  obtain ⟨hk, hv⟩ := Token.is_iff.mp ht
  refine readTokens_atom hdebug ?_ ?_ ?_ ?_
  · simp [Scope.closedBy?, Token.isCloseBrace, Token.isCloseBracket, Token.isBrace,
      Token.isBracket, Token.isCommand, Token.is, hk, hv]
  · simp [Script.ofToken?, Token.isSymbol, Token.is, hk]
  · simp [limits?, hk, get?_frac hg ht]
  · simp only [atomAt, hk]
    exact takes_run_iff.mp h

/-! ## Sources -/

/-- A part of a source has the tokens that it has on its own, with the same text between them. -/
theorem embeds_part {options : Options} (hdebug : options.debugMode.isTruthy = false)
    (grammar : Grammar) (before source after : Text) :
    Embeds ⟨grammar, options, source⟩ ⟨grammar, options, before ++ (source ++ after)⟩
      (fun t => (Token.behind before).within t.place) (Token.tokenize source) where
  grammar := rfl
  options := rfl
  between hx hy := Token.between_within hx hy before
  marks := .inl hdebug

variable {grammar : Grammar} {options : Options} {source : Text}

/-- A source in braces stands for the same tree. -/
theorem parse_braces (hg : grammar.Regular) (hdebug : options.debugMode.isTruthy = false)
    (hread : readTokens ⟨grammar, options, source⟩ (Token.tokenize source) = .ok node)
    (hlast : ∀ x ∈ (Token.tokenize source).getLast?, x.isBareBackslash = false)
    (hroom : HasRoom ⟨grammar, options, source⟩ 0 (Token.tokenize source)) :
    (parse grammar options ("\x7b" ++ (source ++ "\x7d"))).value = .ok node := by
  have hbraced := Token.tokenize_braces hlast
  rw [value_parse_eq_readTokens]
  exact readTokens_group hg hdebug hbraced (takes_run_group
    (embeds_part hdebug grammar "\x7b" source "\x7d") hread hroom hbraced
    (List.append_nil _).symm)

/-- A fraction of two sources. -/
theorem parse_fraction (hg : grammar.Regular) (hdebug : options.debugMode.isTruthy = false)
    {upper lower : Text} {n₁ n₂ : Node}
    (hread₁ : readTokens ⟨grammar, options, upper⟩ (Token.tokenize upper) = .ok n₁)
    (hread₂ : readTokens ⟨grammar, options, lower⟩ (Token.tokenize lower) = .ok n₂)
    (hlast₁ : ∀ x ∈ (Token.tokenize upper).getLast?, x.isBareBackslash = false)
    (hlast₂ : ∀ x ∈ (Token.tokenize lower).getLast?, x.isBareBackslash = false)
    (hroom₁ : HasRoom ⟨grammar, options, upper⟩ 0 (Token.tokenize upper))
    (hroom₂ : HasRoom ⟨grammar, options, lower⟩ 0 (Token.tokenize lower)) :
    (parse grammar options
      ("\\frac\x7b" ++ (upper ++ ("\x7d\x7b" ++ (lower ++ "\x7d"))))).value =
        .ok (.element "mfrac" [] [n₁.slot, n₂.slot]) := by
  obtain ⟨t, w₁, w₂, htokens, ht, hw₁, hw₂⟩ := Token.tokenize_fraction hlast₁ hlast₂
  have hembeds₁ :=
    embeds_part hdebug grammar "\\frac\x7b" upper ("\x7d\x7b" ++ (lower ++ "\x7d"))
  have hembeds₂ :=
    embeds_part hdebug grammar ("\\frac\x7b" ++ (upper ++ "\x7d\x7b")) lower "\x7d"
  simp only [List.append_assoc] at hembeds₂
  rw [value_parse_eq_readTokens, htokens]
  refine readTokens_fraction (s := ⟨grammar, options, _⟩) hg hdebug ht ?_
  exact takes_run_fraction (c := { rest := _ }) hg hembeds₁ hembeds₂ hread₁ hread₂ hroom₁ hroom₂
    ht hw₁ hw₂ (by rw [List.append_nil])

/-- Groups do not depend on where they stand. The tokens `v` parse on their own, and where a group
of them stands the limit on nesting leaves room for as many scopes as they open. Then the group in
braces or in brackets is read as their node, whatever stands before and behind it and whatever
scopes and environment are open; a fraction of two such groups has the slots of their nodes. If
nodes are not marked with places, a source in braces therefore stands for the same tree as the
source, unless it ends with a bare backslash. -/
theorem groups_of_readTokens (symbols : Symbol.Table) (s : Setup)
    (hs : s.grammar = (Grammar.ofSymbols symbols).value) (v : List Token) (node : Node)
    (hread : readTokens s v = .ok node) :
    (∀ (c : Cursor) (w tail : List Token), HasRoom s c.scopes.length v → c.rest = w ++ tail →
      (Token.Braced v w → Takes (Entry.group.run s) w node c) ∧
      (Token.Bracketed v w → Takes (Entry.bracketContent.run s) w node c)) ∧
    (∀ (v' : List Token) (node' : Node), readTokens s v' = .ok node' →
      ∀ (c : Cursor) (t : Token) (w w' tail : List Token), t.isCommand "\\frac" = true →
        Token.Braced v w → Token.Braced v' w' →
        HasRoom s c.scopes.length v → HasRoom s c.scopes.length v' →
        c.rest = t :: (w ++ (w' ++ tail)) →
          Takes (Entry.command.run s) (t :: (w ++ w'))
            (.element "mfrac" [] [node.slot, node'.slot]) c) ∧
    (s.debug = false → v = Token.tokenize s.source →
      (∀ x ∈ v.getLast?, x.isBareBackslash = false) → HasRoom s 0 v →
      (parse s.grammar s.options ("\x7b" ++ (s.source ++ "\x7d"))).value =
        (parse s.grammar s.options s.source).value ∧
      ∀ (lower : Text) (node' : Node), (parse s.grammar s.options lower).value = .ok node' →
        (∀ x ∈ (Token.tokenize lower).getLast?, x.isBareBackslash = false) →
        HasRoom ⟨s.grammar, s.options, lower⟩ 0 (Token.tokenize lower) →
          (parse s.grammar s.options
            ("\\frac\x7b" ++ (s.source ++ ("\x7d\x7b" ++ (lower ++ "\x7d"))))).value =
              .ok (.element "mfrac" [] [node.slot, node'.slot])) := by
  have hg : s.grammar.Regular := hs ▸ Grammar.regular_ofSymbols symbols
  have hplace : ∀ u : List Token, u.map (moved Token.place) = u := fun _ =>
    map_moved_eq_self fun _ _ => rfl
  refine ⟨fun c w tail hroom hc => ⟨fun hw => ?_, fun hw => ?_⟩, ?_, ?_⟩
  · exact takes_run_group (.refl s v) hread hroom (by rwa [hplace]) hc
  · exact takes_run_bracketContent (.refl s v) hread hroom (by rwa [hplace]) hc
  · intro v' node' hread' c t w w' tail ht hw hw' hroom hroom' hc
    exact takes_run_fraction hg (.refl s v) (.refl s v') hread hread' hroom hroom' ht
      (by rwa [hplace]) (by rwa [hplace]) hc
  · rintro hdebug rfl hlast hroom
    refine ⟨?_, fun lower node' hread' hlast' hroom' => ?_⟩
    · rw [parse_braces hg hdebug hread hlast hroom, value_parse_eq_readTokens]
      exact hread.symm
    · rw [value_parse_eq_readTokens] at hread'
      exact parse_fraction hg hdebug hread hread' hlast hlast' hroom hroom'

/-- The script of `x_{1}` opens a scope. Its formula is read in brackets inside an environment, in
braces, and as both parts of a fraction, where three scopes may be open. -/
theorem groups_of_readTokens_script :
    let s : Setup := ⟨(Grammar.ofSymbols ⟨fun _ => []⟩).value, { maxNestingDepth := .ofNat 2 },
      "x_\x7b1\x7d"⟩
    let v := Token.tokenize "x_\x7b1\x7d"
    let node : Node := .element "msub" [] [.identifier "x", .number "1"]
    let w : List Token := ⟨.bracket, "[", {}⟩ :: (v ++ [⟨.bracket, "]", {}⟩])
    let c : Cursor := ⟨4, w ++ [⟨.symbol, "^", {}⟩],
      [⟨.environment, "matrix", ⟨.command, "\\begin", {}⟩⟩], some "matrix", []⟩
    readTokens s v = .ok node ∧ HasRoom s c.scopes.length v ∧ HasRoom s 0 v ∧
      Takes (Entry.bracketContent.run s) w node c ∧
      (parse s.grammar s.options "\x7bx_\x7b1\x7d\x7d").value =
        (parse s.grammar s.options "x_\x7b1\x7d").value ∧
      (parse s.grammar s.options "\\frac\x7bx_\x7b1\x7d\x7d\x7bx_\x7b1\x7d\x7d").value =
        .ok (.element "mfrac" [] [node, node]) := by
  intro s v node w c
  have hread : readTokens s v = .ok node := rfl
  have hroom : HasRoom s c.scopes.length v := by
    rintro _ ⟨⟩
    exact ⟨by decide, (opensAtMost_iff hread).mpr ⟨⟨5, [], [], none, []⟩, rfl⟩⟩
  have hroom₀ : HasRoom s 0 v := by
    rintro _ ⟨⟩
    exact ⟨by decide, (opensAtMost_iff hread).mpr ⟨⟨5, [], [], none, []⟩, rfl⟩⟩
  have hlast : ∀ x ∈ v.getLast?, x.isBareBackslash = false := by decide
  obtain ⟨hgroups, -, hsource⟩ := groups_of_readTokens ⟨fun _ => []⟩ s rfl v node hread
  obtain ⟨hbraces, hfraction⟩ := hsource rfl rfl hlast hroom₀
  have hbrackets := (hgroups c w [⟨.symbol, "^", {}⟩] hroom rfl).2 (.intro rfl rfl)
  have hparse : (parse s.grammar s.options "x_\x7b1\x7d").value = .ok node := by
    rw [value_parse_eq_readTokens]
    exact hread
  have htexts : Text.ofString "\x7bx_\x7b1\x7d\x7d" = "\x7b" ++ (s.source ++ "\x7d") ∧
      Text.ofString "\\frac\x7bx_\x7b1\x7d\x7d\x7bx_\x7b1\x7d\x7d" = "\\frac\x7b" ++
        (s.source ++ ("\x7d\x7b" ++ (Text.ofString "x_\x7b1\x7d" ++ "\x7d"))) := ⟨rfl, rfl⟩
  have hslot : node.slot = node := rfl
  have hfractions := hfraction (Text.ofString "x_\x7b1\x7d") node hparse hlast hroom₀
  rw [hslot] at hfractions
  refine ⟨hread, hroom, hroom₀, hbrackets, ?_, ?_⟩
  · rw [htexts.1]
    exact hbraces
  · rw [htexts.2]
    exact hfractions

end Parser

end MathMarkup
