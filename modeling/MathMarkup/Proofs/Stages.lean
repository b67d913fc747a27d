import MathMarkup.Proofs.Concatenation
import MathMarkup.Proofs.Grouping

/-!
# Expressions read in stages

What an expression makes of its tokens depends on the siblings that it has so far and on how many
scopes may be opened (`siblingsFrom`). It does not depend on where the tokens stand
(`result?_siblings`). So an expression can be read in stages: first some tokens that parse on their
own (`siblingsFrom_append`), then a script in braces (`siblingsFrom_script`), then the rest.

A script in braces is read exactly where the limit on nesting leaves room for its scope and for
those that its tokens open (`FitsIn`), whatever stands behind it. A source with a script is read in
the same stages (`value_parse_append_script`, `siblingsOf_script`).
-/

namespace MathMarkup.Parser

variable {α β : Type} {s s' : Setup} {place : Token → Place} {u v w g : List Token} {c d : Cursor}
  {done mid all : List Sibling} {node m : Node} {n k rounds : Nat}

/-! ## Results -/

/-- What a parser gives at a cursor, if it gives anything. -/
def result? (p : ParseM α) (c : Cursor) : Option α :=
  match p.run c with
  | .ok a _ => some a
  | .error _ _ => none

theorem result?_eq_some_iff {p : ParseM α} {a : α} :
    result? p c = some a ↔ ∃ d, p.run c = .ok a d := by
  unfold result?
  cases p.run c with
  | ok b d => simp
  | error e d => simp

theorem result?_bind_eq_some_iff {p : ParseM α} {f : α → ParseM β} {b : β} :
    result? (p >>= f) c = some b ↔ ∃ a d, p.run c = .ok a d ∧ result? (f a) d = some b := by
  unfold result?
  rw [EStateM.run_bind]
  cases p.run c with
  | ok a d => simp
  | error e d => simp

/-- Parsers that run alike give the same. -/
theorem result?_congr {p q : ParseM α} (h : p.run c = q.run d) : result? p c = result? q d := by
  unfold result?
  rw [h]

theorem outcome_result? (p : ParseM α) (c : Cursor) :
    Outcome p c (fun a _ => result? p c = some a) fun _ _ => result? p c = none := by
  unfold Outcome result?
  cases p.run c <;> rfl

/-- Two runs that agree, with no failure excused, give results that are related. -/
theorem Agree.result?_eq {P : Pairing} {p p' : ParseM α} {c' : Cursor}
    (h : Agree P Never p p' c c' fun a _ b _ => b = a) (hleft : ∀ e, ¬P.left e)
    (hright : ∀ e, ¬P.right e) : result? p' c' = result? p c := by
  unfold result?
  cases hr : p.run c with
  | ok a d =>
    cases hr' : p'.run c' with
    | ok b d' => exact congrArg some ((h.ok_ok hr hr').resolve_left id)
    | error e' d' => exact absurd ((h.ok_error hr hr').resolve_left id) (hright e')
  | error e d =>
    cases hr' : p'.run c' with
    | ok b d' => exact absurd (h.error_ok hr hr') (hleft e)
    | error e' d' => rfl

/-! ## Siblings of tokens behind others -/

/-- The siblings that tokens make behind some siblings, where `n` more scopes may be opened. There
are none if the tokens are refused. -/
def siblingsFrom (s : Setup) (n : Nat) (done : List Sibling) (w : List Token) :
    Option (List Sibling) :=
  result? (siblings s (inside s n) noStop w.length done) { rest := w }

theorem siblingsFit_refl (done : List Sibling) : SiblingsFit Eq done done := by
  refine List.forall₂_same.mpr fun x _ => ?_
  cases x with
  | atom n => exact .atom rfl
  | scripted base scripts => cases scripts <;> exact .scripted rfl (by constructor <;> rfl)

/-- Wherever the tokens stand outside all scopes, they make the same siblings. -/
theorem result?_siblings (he : Embeds s s' place w) (hc : c.rest = w.map (moved place))
    (hscopes : c.scopes = []) (hrounds : w.length ≤ rounds) :
    result? (siblings s' (inside s' n) noStop rounds done) c = siblingsFrom s n done w := by
  have halike : Alike (standalone (fun _ => False) (fun _ => False) place w [] c) s s' (inside s n)
      (inside s' n) :=
    alike_standalone (Or.inl ⟨rfl, hscopes⟩) he (fun h => absurd h (Nat.lt_irrefl n)) fun h =>
      absurd h (Nat.lt_irrefl n)
  have hruns : Agree (standalone (fun _ => False) (fun _ => False) place w [] c) Never
      (siblings s (inside s n) noStop w.length done >>= pure)
      (siblings s' (inside s' n) noStop rounds done >>= pure) { rest := w } c
      fun all _ all' _ => all' = all := by
    refine agree_siblings_bind halike (.refl fun _ => rfl) fitting_eq.carries
      (joined_standalone (by rw [hc, List.append_nil])) (siblingsFit_refl done) (Nat.le_refl _)
      (by rwa [hc, List.length_map]) ?_
    intro all all' d d' more hj hall hat _
    have hd' : d'.rest = [] := by
      rw [hj.rest, hat.rest_eq_nil]
      rfl
    exact (Agree.pure (eq_of_siblingsFit hall).symm).congr rfl
      (run_siblings_end (atStop_nil hd') pure)
  rw [bind_pure, bind_pure] at hruns
  exact hruns.result?_eq (fun _ => id) fun _ => id

/-- Tokens that are read on their own are read in front of others, and these go on behind them. -/
theorem siblingsFrom_append (he : Embeds s s' place u) (hle : k ≤ n)
    (hu : siblingsFrom s k [] u = some mid) (w : List Token) :
    siblingsFrom s' n [] (u.map (moved place) ++ w) = siblingsFrom s' n mid w := by
  let right : ParseError → Prop := fun _ => siblingsFrom s' n mid w = none
  let c : Cursor := { rest := u.map (moved place) ++ w }
  -- The left run fails, and is excused, if it comes to other siblings than it does.
  have hruns : Agree (standalone (fun _ => True) right place u w c) Never
      (siblings s (inside s k) noStop u.length [] >>= fun all =>
        if all = mid then pure () else throw (.locatedAt? .unexpectedEnd none))
      (siblings s' (inside s' n) noStop c.rest.length [] >>= pure) { rest := u } c
      fun _ _ all _ => siblingsFrom s' n mid w = some all := by
    refine agree_siblings_bind (alike_standalone (Or.inr fun _ => trivial) he (fun _ _ => trivial)
      fun h => absurd hle (Nat.not_le_of_lt h)) (.refl fun _ => rfl) fitting_eq.carries
      (joined_standalone rfl) .nil (Nat.le_refl _) (Nat.le_refl _) ?_
    intro all all' d d' more hj hall hat hmore
    obtain rfl := eq_of_siblingsFit hall
    have hd' : d'.rest = w := by
      rw [hj.rest, hat.rest_eq_nil]
      rfl
    rw [hd'] at hmore
    by_cases hmid : all = mid
    · subst hmid
      have hsame : d'.rest = w.map (moved Token.place) := by
        rw [map_moved_eq_self fun _ _ => rfl, hd']
      have hout := outcome_result? (siblings s' (inside s' n) noStop more all) d'
      rw [result?_siblings (.refl s' w) hsame hj.scopes_right hmore] at hout
      rw [if_pos rfl, bind_pure]
      exact .of_pure hout
    · rw [if_neg hmid]
      refine .of_left ?_
      trivial
  obtain ⟨d, hrun⟩ := result?_eq_some_iff.mp hu
  have hleft : (siblings s (inside s k) noStop u.length [] >>= fun all =>
      if all = mid then pure () else throw (.locatedAt? .unexpectedEnd none) : ParseM Unit).run
        { rest := u } = .ok () d := by
    rw [EStateM.run_bind, hrun]
    dsimp only
    rw [if_pos rfl]
    rfl
  have hout := hruns.right_outcome hleft
  rw [bind_pure] at hout
  unfold Outcome at hout
  unfold siblingsFrom result?
  split at hout
  · next all c' hr =>
    rw [hr]
    exact hout.symm
  · next e c' hr =>
    rw [hr]
    exact hout.symm

/-! ## Groups where they have room -/

/-- Where `n` more scopes may be opened there is room for a group of the tokens. -/
def FitsIn (s : Setup) (n : Nat) (tokens : List Token) : Prop :=
  ∃ k, n = k + 1 ∧ OpensAtMost s k tokens

theorem takes_group_of_fitsIn (he : Embeds s s' place v) (hread : readTokens s v = .ok node)
    (hg : Token.Braced (v.map (moved place)) g) (hc : c.rest = g ++ w) (hfits : FitsIn s n v) :
    Takes (group s' (inside s' n)) g node c := by
  obtain ⟨k, rfl, hopens⟩ := hfits
  obtain ⟨d, hrun⟩ := (opensAtMost_iff hread).mp hopens
  rw [group_eq]
  exact takes_enclosed Pair.braces.isSome_closedBy? (readsAs_of_run he (Nat.le_refl k) hrun) hg hc

/-- A group that is read has room: on their own its tokens are not refused a scope either. -/
theorem fitsIn_of_group (he : Embeds s s' place v) (hg : Token.Braced (v.map (moved place)) g)
    (hc : c.rest = g ++ w) (hrun : (group s' (inside s' n)).run c = .ok m d) : FitsIn s n v := by
  obtain @⟨opening, closing, hopen, hclose⟩ := hg
  have hrest : (c.skip 1).rest = v.map (moved place) ++ ([closing] ++ w) := by
    rw [← List.append_assoc]
    exact (took_next hc).rest_eq hc
  rw [group_eq, enclosed, run_next_cons hc] at hrun
  simp only [if_pos hopen] at hrun
  cases n with
  | zero => cases hrun
  | succ k =>
    refine ⟨k, rfl, fun e d' hleft t ht => ?_⟩
    subst ht
    let stop : Stop := fun _ t => t.isCloseBrace
    let c' : Cursor := { c.skip 1 with scopes := ⟨.brace, "\x7b", opening⟩ :: (c.skip 1).scopes }
    have hruns : Agree (standalone Own (fun _ => False) place v ([closing] ++ w) c') Never
        (expressionWith s (inside s k) noStop) (expressionWith s' (inside s' k) stop) { rest := v }
        c' fun a _ b d' => b = a ∧ d'.rest = [closing] ++ w :=
      agree_standalone (fun h => h) he (fun h => absurd h (Nat.lt_irrefl k))
        (fun h => absurd h (Nat.lt_irrefl k)) hrest (fun _ => Pair.braces.isSome_closedBy?)
        (by rintro _ ⟨⟩ _; exact hclose)
    change (expressionWith s' (inside s' k) stop >>= fun n => next >>= _).run c' = .ok m d at hrun
    rw [EStateM.run_bind] at hrun
    cases hr : (expressionWith s' (inside s' k) stop).run c' with
    | ok a d' => exact (hruns.error_ok hleft hr).cause _ rfl
    | error e d' =>
      rw [hr] at hrun
      cases hrun

/-! ## Scripts in braces -/

theorem closedBy?_of_script {t : Token} {script : Script} (ht : Script.ofToken? t = some script) :
    Scope.closedBy? t = none := by
  obtain ⟨hkind, -⟩ := Script.value_of_ofToken? ht
  simp [Scope.closedBy?, Token.isCloseBrace, Token.isCloseBracket, Token.isBrace, Token.isBracket,
    Token.isCommand, Token.is, hkind]

/-- A script in braces takes its group and binds what stands in it. -/
theorem run_takeScript_brace {nested : Nested} {script : Script} {t opening : Token}
    {rest : List Token} {bound : List Sibling} (hc : c.rest = t :: opening :: rest)
    (hopen : opening.isOpenBrace = true) :
    (takeScript s nested noStop script t done).run c = .ok bound d ↔
      ∃ m, (group s nested).run (c.skip 1) = .ok m d ∧
        bindScript? script m.slot done = some bound := by
  have hopens : Pair.braces.opens opening = true := hopen
  have hargument : (scriptArgument s nested noStop script t).run (c.skip 1) =
      (group s nested >>= fun n => pure n.slot).run (c.skip 1) := by
    simp only [scriptArgument, EStateM.run_bind, EStateM.run_get, Cursor.rest_skip, hc,
      List.drop_succ_cons, List.drop_zero, noStop, Pair.closedBy?_of_opens hopens,
      Pair.ofToken?_of_opens hopens, Option.isSome_none, Bool.or_false, Bool.false_eq_true,
      if_false, hopen, if_true]
  unfold takeScript
  cases done with
  | nil =>
    constructor
    · exact nofun
    · rintro ⟨m, -, hbound⟩
      cases hbound
  | cons latest earlier =>
    show (scriptArgument s nested noStop script t >>= _).run (c.skip 1) = _ ↔ _
    rw [EStateM.run_bind, hargument, EStateM.run_bind]
    cases (group s nested).run (c.skip 1) with
    | error e d => simp
    | ok m d' =>
      dsimp only [EStateM.run_pure]
      cases hbind : bindScript? script m.slot (latest :: earlier) with
      | none =>
        constructor
        · exact nofun
        · rintro ⟨_, ⟨⟩, hbound⟩
          rw [hbind] at hbound
          cases hbound
      | some bound' =>
        constructor
        · rintro ⟨⟩
          exact ⟨m, rfl, hbind⟩
        · rintro ⟨_, ⟨⟩, hbound⟩
          rw [hbind] at hbound
          cases hbound
          rfl

/-- A script in braces is bound to the siblings before it if there is room for its group. -/
theorem siblingsFrom_script (he : Embeds s s' place v) (hread : readTokens s v = .ok node)
    (hg : Token.Braced (v.map (moved place)) g) {t : Token} {script : Script}
    (ht : Script.ofToken? t = some script) :
    siblingsFrom s' n done (t :: (g ++ w)) = some all ↔ FitsIn s n v ∧
      ∃ bound, bindScript? script node.slot done = some bound ∧
        siblingsFrom s' n bound w = some all := by
  let c : Cursor := { rest := t :: (g ++ w) }
  have hclosed : (Scope.closedBy? t).isSome = false := by
    rw [closedBy?_of_script ht, Option.isSome_none]
  have hround : siblingsFrom s' n done (t :: (g ++ w)) =
      result? (takeScript s' (inside s' n) noStop script t done >>= fun bound =>
        siblings s' (inside s' n) noStop (g ++ w).length bound) c := by
    refine result?_congr ?_
    rw [← bind_pure (siblings _ _ _ _ _), List.length_cons, run_siblings_cons rfl rfl hclosed]
    simp only [takeSibling, ht, bind_pure]
    rfl
  obtain ⟨opening, rest, hrest, hopen⟩ :
      ∃ opening rest, g ++ w = opening :: rest ∧ opening.isOpenBrace = true := by
    obtain ⟨hopen, -⟩ := hg
    exact ⟨_, _, rfl, hopen⟩
  have hscript : ∀ {bound d}, (takeScript s' (inside s' n) noStop script t done).run c =
      .ok bound d ↔ ∃ m, (group s' (inside s' n)).run (c.skip 1) = .ok m d ∧
        bindScript? script m.slot done = some bound :=
    run_takeScript_brace (congrArg (t :: ·) hrest) hopen
  -- Behind the group the rest is read as it is anywhere else.
  have hlater : ∀ {bound d}, Took g (c.skip 1) d →
      result? (siblings s' (inside s' n) noStop (g ++ w).length bound) d =
        siblingsFrom s' n bound w := by
    intro bound d hw
    have hd : d.rest = w := hw.rest_eq rfl
    refine result?_siblings (.refl s' w) ?_ hw.scopes ?_
    · rw [map_moved_eq_self fun _ _ => rfl, hd]
    · rw [List.length_append]
      exact Nat.le_add_left ..
  rw [hround, result?_bind_eq_some_iff]
  constructor
  · rintro ⟨bound, d, hrun, hall⟩
    obtain ⟨m, hgroup, hbound⟩ := hscript.mp hrun
    have hfits : FitsIn s n v := fitsIn_of_group he hg rfl hgroup
    obtain ⟨d', hrun', hw⟩ := takes_group_of_fitsIn he hread hg (c := c.skip 1) rfl hfits
    rw [hgroup] at hrun'
    cases hrun'
    exact ⟨hfits, bound, hbound, hlater hw ▸ hall⟩
  · rintro ⟨hfits, bound, hbound, hall⟩
    obtain ⟨d, hrun, hw⟩ := takes_group_of_fitsIn he hread hg (c := c.skip 1) rfl hfits
    exact ⟨bound, d, hscript.mpr ⟨node, hrun, hbound⟩, (hlater hw).trans hall⟩

/-! ## Sources -/

variable {grammar : Grammar} {options : Options} {source before rest argument : Text}
  {script : Script}

/-- The siblings that a source makes behind some siblings, where `n` more scopes may be opened. -/
def siblingsOf (grammar : Grammar) (options : Options) (n : Nat) (done : List Sibling)
    (source : Text) : Option (List Sibling) :=
  siblingsFrom ⟨grammar, options, source⟩ n done (Token.tokenize source)

/-- A parse gives the siblings of the source as one node. -/
theorem value_parse_eq_ok_iff :
    (parse grammar options source).value = .ok node ↔ ∃ all,
      siblingsOf grammar options (roomFor options (Token.tokenize source).length) [] source =
        some all ∧ collapseSiblings all = node := by
  rw [value_parse_eq_readTokens]
  unfold readTokens siblingsOf siblingsFrom result?
  rw [run_expression, EStateM.run_bind, allowance_eq_roomFor]
  dsimp only
  cases (siblings _ _ _ _ _).run { rest := Token.tokenize source } with
  | ok all d => simp [EStateM.run_pure]
  | error e d => simp

/-- The end of a source makes the siblings that it makes on its own. -/
theorem siblingsFrom_rest (hdebug : options.debugMode.isTruthy = false) (before rest : Text) :
    siblingsFrom ⟨grammar, options, before ++ rest⟩ n done
        (Token.scan 0 (Token.behind before) rest) =
      siblingsOf grammar options n done rest := by
  have hpart := embeds_part hdebug grammar before rest []
  rw [List.append_nil] at hpart
  exact result?_siblings hpart (Token.scan_eq_map_within _ rest) rfl
    (Nat.le_of_eq (Token.length_scan _ rest).symm)

/-! ## Sources with a script -/

/-- A script whose argument stands in braces. -/
def scriptSource (script : Script) (argument : Text) : Text :=
  script.marker ++ ("\x7b" ++ (argument ++ "\x7d"))

theorem scriptSource_append (script : Script) (argument rest : Text) :
    scriptSource script argument ++ rest =
      script.marker ++ ("\x7b" ++ (argument ++ ("\x7d" ++ rest))) := by
  simp only [scriptSource, List.append_assoc]

theorem exists_separates_scriptSource (script : Script) (argument rest : Text) :
    ∃ sep tail, scriptSource script argument ++ rest = sep :: tail ∧ Token.Separates sep := by
  cases script with
  | superscript => exact ⟨.scalar '^', _, rfl, ⟨rfl, rfl, by decide⟩⟩
  | subscript => exact ⟨.scalar '_', _, rfl, ⟨rfl, rfl, by decide⟩⟩

theorem tokenize_append_script
    (hlast : ∀ x ∈ (Token.tokenize before).getLast?, x.isBareBackslash = false)
    (script : Script) (argument rest : Text) :
    Token.tokenize (before ++ (scriptSource script argument ++ rest)) =
      (Token.tokenize before).map (Token.within (Token.behind [])) ++
        Token.scan 0 (Token.behind before) (scriptSource script argument ++ rest) := by
  obtain ⟨sep, tail, hrest, hsep⟩ := exists_separates_scriptSource script argument rest
  rw [hrest]
  exact Token.scan_part hsep {} hlast

/-- What stands before a script and parses on its own is read first. -/
theorem siblingsOf_append_script (hdebug : options.debugMode.isTruthy = false)
    (hlast : ∀ x ∈ (Token.tokenize before).getLast?, x.isBareBackslash = false) (hle : k ≤ n)
    (hbefore : siblingsOf grammar options k [] before = some mid) :
    siblingsOf grammar options n [] (before ++ (scriptSource script argument ++ rest)) =
      siblingsOf grammar options n mid (scriptSource script argument ++ rest) := by
  rw [siblingsOf, tokenize_append_script hlast, ← siblingsFrom_rest hdebug before]
  exact siblingsFrom_append (embeds_part hdebug grammar [] before _) hle hbefore _

/-- A source parses as its script is read, with what stands behind it, behind the siblings of what
stands before it. -/
theorem value_parse_append_script (hdebug : options.debugMode.isTruthy = false)
    (hlast : ∀ x ∈ (Token.tokenize before).getLast?, x.isBareBackslash = false)
    (hbefore : siblingsOf grammar options (roomFor options (Token.tokenize before).length) []
      before = some mid) :
    (parse grammar options (before ++ (scriptSource script argument ++ rest))).value = .ok node ↔
      ∃ all, siblingsOf grammar options (roomFor options ((Token.tokenize before).length +
        (Token.tokenize (scriptSource script argument ++ rest)).length)) mid
          (scriptSource script argument ++ rest) = some all ∧ collapseSiblings all = node := by
  have hlength : (Token.tokenize (before ++ (scriptSource script argument ++ rest))).length =
      (Token.tokenize before).length +
        (Token.tokenize (scriptSource script argument ++ rest)).length := by
    rw [tokenize_append_script hlast, List.length_append, List.length_map, Token.length_scan]
  rw [value_parse_eq_ok_iff, hlength,
    siblingsOf_append_script hdebug hlast (roomFor_mono options (Nat.le_add_right ..)) hbefore]

/-- The tokens of a script and of what stands behind it. -/
theorem tokenize_scriptSource
    (hlast : ∀ x ∈ (Token.tokenize argument).getLast?, x.isBareBackslash = false)
    (script : Script) (rest : Text) :
    ∃ t g, Token.tokenize (scriptSource script argument ++ rest) =
        t :: (g ++ Token.scan 0 (Token.behind (scriptSource script argument)) rest) ∧
      Script.ofToken? t = some script ∧
      Token.Braced ((Token.tokenize argument).map
        (Token.within (Token.behind (script.marker ++ "\x7b")))) g := by
  let start := Token.behind (script.marker ++ "\x7b")
  let opening : Token := ⟨.brace, "\x7b", Token.behind script.marker⟩
  let closing : Token := ⟨.brace, "\x7d", start.after argument⟩
  have hbehind : Token.behind (scriptSource script argument) =
      (start.after argument).after "\x7d" := by
    cases script <;> simp only [scriptSource, Token.behind, Place.after, List.foldl_append] <;> rfl
  refine ⟨⟨.symbol, script.marker, {}⟩,
    opening :: ((Token.tokenize argument).map (Token.within start) ++ [closing]), ?_,
    by cases script <;> rfl, .intro rfl rfl⟩
  calc Token.tokenize (scriptSource script argument ++ rest)
    _ = ⟨.symbol, script.marker, {}⟩ :: opening ::
          Token.scan 0 start (argument ++ .scalar '\x7d' :: rest) := by
      rw [scriptSource_append]
      cases script <;> rfl
    _ = ⟨.symbol, script.marker, {}⟩ :: opening ::
          ((Token.tokenize argument).map (Token.within start) ++
            closing :: Token.scan 0 ((start.after argument).after "\x7d") rest) := by
      rw [Token.scan_part Token.separates_closeBrace start hlast]
      rfl
    _ = _ := by simp [hbehind]

theorem length_tokenize_scriptSource
    (hlast : ∀ x ∈ (Token.tokenize argument).getLast?, x.isBareBackslash = false)
    (script : Script) (rest : Text) :
    (Token.tokenize (scriptSource script argument ++ rest)).length =
      (Token.tokenize argument).length + 3 + (Token.tokenize rest).length := by
  obtain ⟨t, g, htokens, -, hg⟩ := tokenize_scriptSource hlast script rest
  obtain ⟨-, -⟩ := hg
  simp only [htokens, List.length_cons, List.length_append, List.length_map, List.length_nil,
    Token.length_scan]
  omega

/-- A script that parses on its own is bound if there is room for its group, and what stands behind
it is read then. -/
theorem siblingsOf_script (hdebug : options.debugMode.isTruthy = false)
    (hlast : ∀ x ∈ (Token.tokenize argument).getLast?, x.isBareBackslash = false)
    (hread : (parse grammar options argument).value = .ok node) :
    siblingsOf grammar options n done (scriptSource script argument ++ rest) = some all ↔
      FitsIn ⟨grammar, options, argument⟩ n (Token.tokenize argument) ∧
        ∃ bound, bindScript? script node.slot done = some bound ∧
          siblingsOf grammar options n bound rest = some all := by
  obtain ⟨t, g, htokens, ht, hg⟩ := tokenize_scriptSource hlast script rest
  have hpart := embeds_part hdebug grammar (script.marker ++ "\x7b") argument ("\x7d" ++ rest)
  have hsource : script.marker ++ "\x7b" ++ (argument ++ ("\x7d" ++ rest)) =
      scriptSource script argument ++ rest := by
    rw [scriptSource_append, List.append_assoc]
  rw [hsource] at hpart
  rw [value_parse_eq_readTokens] at hread
  rw [siblingsOf, htokens, siblingsFrom_script hpart hread hg ht]
  simp only [siblingsFrom_rest hdebug]

end MathMarkup.Parser
