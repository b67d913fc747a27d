import MathMarkup.Proofs.Parser.Exit

/-!
# Pairs of runs

Two runs of a parser are compared step by step. The left run reads some tokens. The right one reads
the same tokens, possibly with more behind them, at other positions and inside further scopes, and
possibly under another setup and at other places of another source. While both go on they meet at
cursors that fit (`Joined`) and give results that fit; and if one fails, so does the other, with the
same error up to its place (`Pairing.Matches`), unless the failure is excused (`Agree`).

Where the left run has come to the end of its tokens and the right one has not, the two may part
(`Pairing.Parted`). A group or an environment of the left run fails then, because it is not closed,
and that failure is excused (`Pairing.Lenient`). That it is refused one more scope need not be
excused, since this does not come from the end of its tokens.

Parsers put together from steps are compared from the front, as in
`MathMarkup.Proofs.Parser.Outcome`.
-/

namespace MathMarkup.Parser

/-- A token of the same kind and value at another place. -/
def moved (place : Token → Place) (t : Token) : Token :=
  { t with place := place t }

theorem moved_eq_self {place : Token → Place} {t : Token} (h : place t = t.place) :
    moved place t = t := by
  unfold moved
  rw [h]

theorem map_moved_eq_self {place : Token → Place} {w : List Token}
    (h : ∀ t ∈ w, place t = t.place) : w.map (moved place) = w :=
  (List.map_congr_left fun t ht => moved_eq_self (h t ht)).trans (List.map_id w)

/-- How two runs are compared. -/
structure Pairing where
  /-- The failures of the left run that need no counterpart. -/
  left : ParseError → Prop
  /-- The failures of the right run that need no counterpart. -/
  right : ParseError → Prop
  /-- The nodes that fit. -/
  node : Node → Node → Prop
  /-- The texts of raw groups that fit. -/
  raw : Text → Text → Prop := Eq
  /-- The tokens of the left run. -/
  tokens : List Token
  /-- The tokens of the right run behind those of the left one. -/
  tail : List Token := []
  /-- How far the positions of the right run are ahead. -/
  shift : Nat := 0
  /-- The scopes of the right run outside those of the left one. -/
  outer : List Scope := []
  /-- Where the tokens stand in the source of the right run. -/
  place : Token → Place := Token.place

namespace Pairing

/-- A token as the right run reads it. -/
def move (P : Pairing) (t : Token) : Token :=
  moved P.place t

/-- A scope as the right run opens it. -/
def moveScope (P : Pairing) (scope : Scope) : Scope :=
  { scope with token := P.move scope.token }

/-- The left run is at its end, and the right one is not. -/
def Parted (P : Pairing) (c : Cursor) : Prop :=
  P.tail ≠ [] ∧ c.rest = []

/-- The right run reads nothing but the tokens of the left one, and no further inside. -/
structure Same (P : Pairing) : Prop where
  tail : P.tail = []
  outer : P.outer = []

/-- The failures of the left run are excused, the refusals to open one more scope aside. -/
def Lenient (P : Pairing) : Prop :=
  ∀ {e}, Own e → P.left e

/-- The failures of the left run are excused unless the right one reads the same. -/
def Closed (P : Pairing) : Prop :=
  P.Same ∨ P.Lenient

/-- Errors of one kind with one text. They are the same if the tokens stand at the same places. -/
structure Matches (P : Pairing) (e e' : ParseError) : Prop where
  kind : e'.cause.kind = e.cause.kind
  text : e'.text = e.text
  eq : (∀ t, P.place t = t.place) → e' = e

variable {P : Pairing} {t : Token}

/-! Only the place of a token is changed. -/

@[simp] theorem kind_move : (P.move t).kind = t.kind := rfl

@[simp] theorem value_move : (P.move t).value = t.value := rfl

@[simp] theorem isCommand_move {name : Text} : (P.move t).isCommand name = t.isCommand name := rfl

@[simp] theorem isOpenBrace_move : (P.move t).isOpenBrace = t.isOpenBrace := rfl

@[simp] theorem isCloseBrace_move : (P.move t).isCloseBrace = t.isCloseBrace := rfl

@[simp] theorem isOpenBracket_move : (P.move t).isOpenBracket = t.isOpenBracket := rfl

@[simp] theorem isCloseBracket_move : (P.move t).isCloseBracket = t.isCloseBracket := rfl

@[simp] theorem closedBy?_move : Scope.closedBy? (P.move t) = Scope.closedBy? t := rfl

theorem Matches.refl (e : ParseError) : P.Matches e e :=
  ⟨rfl, rfl, fun _ => rfl⟩

/-- The errors at a token and at the same token of the right run. -/
theorem Matches.move (e : Token → ParseError) (t : Token)
    (hkind : (e (P.move t)).cause.kind = (e t).cause.kind)
    (htext : (e (P.move t)).text = (e t).text) : P.Matches (e t) (e (P.move t)) where
  kind := hkind
  text := htext
  eq h := congrArg e (moved_eq_self (h t))

@[simp] theorem matches_iff_eq (h : ∀ t, P.place t = t.place) {e e' : ParseError} :
    P.Matches e e' ↔ e' = e := by
  constructor
  · exact fun hmatches => hmatches.eq h
  · rintro rfl
    exact .refl e'

/-! ## Closers -/

theorem innermost?_map_moveScope (P : Pairing) (kind : Scope.Kind) (scopes : List Scope) :
    Scope.innermost? kind (scopes.map P.moveScope) =
      (Scope.innermost? kind scopes).map P.moveScope := by
  unfold Scope.innermost?
  rw [List.find?_map]
  rfl

theorem matches_unclosed (P : Pairing) (scope : Scope) :
    P.Matches scope.unclosed (P.moveScope scope).unclosed := by
  obtain ⟨kind, name, t⟩ := scope
  cases kind <;> exact .move (fun t => Scope.unclosed ⟨_, name, t⟩) t rfl rfl

theorem matches_stray (P : Pairing) (kind : Option Scope.Kind) (t : Token) :
    P.Matches (Scope.stray kind t) (Scope.stray kind (P.move t)) := by
  rcases kind with _ | (_ | _ | _ | _ | _) <;> exact .move (Scope.stray _) t rfl rfl

/-- A closer is misplaced in the same way in the same scopes. -/
theorem matches_misplaced (P : Pairing) (scopes : List Scope) (t : Token) :
    P.Matches (Scope.misplaced scopes t)
      (Scope.misplaced (scopes.map P.moveScope) (P.move t)) := by
  unfold Scope.misplaced
  rw [closedBy?_move]
  cases Scope.closedBy? t with
  | none => exact P.matches_stray none t
  | some kind =>
    cases scopes with
    | nil => exact P.matches_stray (some kind) t
    | cons innermost outer =>
      rw [List.map_cons]
      dsimp only
      rw [← List.map_cons, P.innermost?_map_moveScope, Option.isSome_map]
      split
      · exact P.matches_unclosed innermost
      · exact P.matches_stray (some kind) t

end Pairing

/-- Runs that never part. -/
def Never (_ : Cursor) : Prop := False

variable {P : Pairing} {α β γ δ : Type} {c c' d d' : Cursor} {inner : List Scope}

/-! ## Cursors -/

/-- Cursors of the two runs that fit, with the scopes that the left run has opened. -/
structure Joined (P : Pairing) (inner : List Scope) (c c' : Cursor) : Prop where
  suffix : c.rest <:+ P.tokens
  rest : c'.rest = c.rest.map P.move ++ P.tail
  position : c'.position = c.position + P.shift
  scopes : c.scopes = inner
  scopes_right : c'.scopes = inner.map P.moveScope ++ P.outer

namespace Joined

theorem skip (h : Joined P inner c c') {n : Nat} (hn : n ≤ c.rest.length) :
    Joined P inner (c.skip n) (c'.skip n) where
  suffix := (List.drop_suffix n c.rest).trans h.suffix
  rest := by
    rw [Cursor.rest_skip, Cursor.rest_skip, h.rest, List.map_drop,
      List.drop_append_of_le_length (by rwa [List.length_map])]
  position := by
    rw [Cursor.position_skip, Cursor.position_skip, h.position]
    omega
  scopes := h.scopes
  scopes_right := h.scopes_right

theorem next (h : Joined P inner c c') {t : Token} {rest : List Token} (hc : c.rest = t :: rest) :
    Joined P inner (c.skip 1) (c'.skip 1) := by
  refine h.skip ?_
  rw [hc]
  simp

theorem rest_cons (h : Joined P inner c c') {t : Token} {rest : List Token}
    (hc : c.rest = t :: rest) : c'.rest = P.move t :: (rest.map P.move ++ P.tail) := by
  rw [h.rest, hc, List.map_cons, List.cons_append]

theorem length_rest (h : Joined P inner c c') :
    c'.rest.length = c.rest.length + P.tail.length := by
  rw [h.rest, List.length_append, List.length_map]

/-- Where both runs read the same they have the same tokens before them. -/
theorem rest_of_same (h : Joined P inner c c') (hsame : P.Same) :
    c'.rest = c.rest.map P.move := by
  rw [h.rest, hsame.tail, List.append_nil]

/-- Where both runs read the same they are in the same scopes. -/
theorem scopes_of_same (h : Joined P inner c c') (hsame : P.Same) :
    c'.scopes = c.scopes.map P.moveScope := by
  rw [h.scopes_right, hsame.outer, List.append_nil, h.scopes]

theorem mem (h : Joined P inner c c') {t : Token} {rest : List Token} (hc : c.rest = t :: rest) :
    t ∈ P.tokens :=
  h.suffix.subset (by rw [hc]; exact List.mem_cons_self)

/-- Only tokens, positions and scopes count. -/
theorem congr (h : Joined P inner c c') (hr : d.rest = c.rest) (hp : d.position = c.position)
    (hs : d.scopes = c.scopes) (hr' : d'.rest = c'.rest) (hp' : d'.position = c'.position)
    (hs' : d'.scopes = c'.scopes) : Joined P inner d d' where
  suffix := by rw [hr]; exact h.suffix
  rest := by rw [hr, hr', h.rest]
  position := by rw [hp, hp', h.position]
  scopes := by rw [hs, h.scopes]
  scopes_right := by rw [hs', h.scopes_right]

/-- Inside a scope that both runs open. -/
theorem push (h : Joined P inner c c') (scope : Scope) (hr : d.rest = c.rest)
    (hp : d.position = c.position) (hs : d.scopes = scope :: c.scopes) (hr' : d'.rest = c'.rest)
    (hp' : d'.position = c'.position) (hs' : d'.scopes = P.moveScope scope :: c'.scopes) :
    Joined P (scope :: inner) d d' where
  suffix := by rw [hr]; exact h.suffix
  rest := by rw [hr, hr', h.rest]
  position := by rw [hp, hp', h.position]
  scopes := by rw [hs, h.scopes]
  scopes_right := by rw [hs', h.scopes_right, List.map_cons, List.cons_append]

/-- Outside a scope that both runs close. -/
theorem pop {scope : Scope} (h : Joined P (scope :: inner) c c') (hr : d.rest = c.rest)
    (hp : d.position = c.position) (hs : d.scopes = c.scopes.tail) (hr' : d'.rest = c'.rest)
    (hp' : d'.position = c'.position) (hs' : d'.scopes = c'.scopes.tail) :
    Joined P inner d d' where
  suffix := by rw [hr]; exact h.suffix
  rest := by rw [hr, hr', h.rest]
  position := by rw [hp, hp', h.position]
  scopes := by rw [hs, h.scopes, List.tail_cons]
  scopes_right := by rw [hs', h.scopes_right, List.map_cons, List.cons_append, List.tail_cons]

end Joined

/-! ## Runs of single steps -/

theorem run_next_nil (hc : c.rest = []) (f : Option Token → ParseM γ) :
    (next >>= f).run c = (f none).run c := by
  unfold next
  simp [hc]

theorem run_next_cons {t : Token} {rest : List Token} (hc : c.rest = t :: rest)
    (f : Option Token → ParseM γ) : (next >>= f).run c = (f (some t)).run (c.skip 1) := by
  unfold next
  simp only [EStateM.run_bind, EStateM.run_get, hc]
  rfl

theorem run_peek (c : Cursor) (f : Option Token → ParseM γ) :
    (peek >>= f).run c = (f c.rest.head?).run c := rfl

/-! ## Agreement -/

/-- The two runs agree: they part, or both give results with `post`, or both fail with the same
error up to its place, or one fails in a way that is excused. -/
structure Agree (P : Pairing) (parted : Cursor → Prop) (p : ParseM α) (p' : ParseM β)
    (c c' : Cursor) (post : α → Cursor → β → Cursor → Prop) : Prop where
  ok_ok : ∀ {a d b d'}, p.run c = .ok a d → p'.run c' = .ok b d' → parted d ∨ post a d b d'
  ok_error : ∀ {a d e' d'}, p.run c = .ok a d → p'.run c' = .error e' d' → parted d ∨ P.right e'
  error_ok : ∀ {e d b d'}, p.run c = .error e d → p'.run c' = .ok b d' → P.left e
  error_error : ∀ {e d e' d'}, p.run c = .error e d → p'.run c' = .error e' d' →
    P.Matches e e' ∨ P.left e ∨ P.right e'

variable {parted : Cursor → Prop} {p q : ParseM α} {p' q' : ParseM β}
  {post : α → Cursor → β → Cursor → Prop}

namespace Agree

/-- Runs that are equal from some point on. -/
theorem congr (h : Agree P parted q q' d d' post) (hp : p.run c = q.run d)
    (hp' : p'.run c' = q'.run d') : Agree P parted p p' c c' post where
  ok_ok hr hr' := h.ok_ok (hp ▸ hr) (hp' ▸ hr')
  ok_error hr hr' := h.ok_error (hp ▸ hr) (hp' ▸ hr')
  error_ok hr hr' := h.error_ok (hp ▸ hr) (hp' ▸ hr')
  error_error hr hr' := h.error_error (hp ▸ hr) (hp' ▸ hr')

theorem mono {parted' : Cursor → Prop} {post' : α → Cursor → β → Cursor → Prop}
    (h : Agree P parted p p' c c' post) (hparted : ∀ d, parted d → parted' d)
    (hpost : ∀ a d b d', post a d b d' → post' a d b d') : Agree P parted' p p' c c' post' where
  ok_ok hr hr' := (h.ok_ok hr hr').imp (hparted _) (hpost _ _ _ _)
  ok_error hr hr' := (h.ok_error hr hr').imp (hparted _) id
  error_ok := h.error_ok
  error_error := h.error_error

/-- A further statement about the left run. -/
theorem and_gives {q : α → Cursor → Prop} (h : Agree P parted p p' c c' post) (hq : Gives p c q) :
    Agree P parted p p' c c' fun a d b d' => post a d b d' ∧ q a d where
  ok_ok hr hr' := (h.ok_ok hr hr').imp id fun hpost => ⟨hpost, outcome_ok hq hr⟩
  ok_error := h.ok_error
  error_ok := h.error_ok
  error_error := h.error_error

/-- A left run that parts, or fails in an excused way, agrees with any other. -/
theorem of_left (h : Outcome p c (fun _ d => parted d) fun e _ => P.left e) :
    Agree P parted p p' c c' post where
  ok_ok hr _ := Or.inl (outcome_ok h hr)
  ok_error hr _ := Or.inl (outcome_ok h hr)
  error_ok hr _ := outcome_error h hr
  error_error hr _ := Or.inr (Or.inl (outcome_error h hr))

/-- A right run that fails in an excused way agrees with any other. -/
theorem of_right (h : Outcome p' c' (fun _ _ => False) fun e _ => P.right e) :
    Agree P parted p p' c c' post where
  ok_ok _ hr' := (outcome_ok h hr').elim
  ok_error _ hr' := Or.inr (outcome_error h hr')
  error_ok _ hr' := (outcome_ok h hr').elim
  error_error _ hr' := Or.inr (Or.inr (outcome_error h hr'))

/-- Two runs that fail. -/
theorem of_error {e e' : ParseError} (hr : p.run c = .error e d) (hr' : p'.run c' = .error e' d')
    (h : P.Matches e e' ∨ P.left e ∨ P.right e') : Agree P parted p p' c c' post where
  ok_ok h1 _ := by
    rw [hr] at h1
    cases h1
  ok_error h1 _ := by
    rw [hr] at h1
    cases h1
  error_ok _ h2 := by
    rw [hr'] at h2
    cases h2
  error_error h1 h2 := by
    rw [hr] at h1
    rw [hr'] at h2
    cases h1
    cases h2
    exact h

/-- Where the left run gives a result, the right one does too or is excused. -/
theorem right_outcome (h : Agree P Never p p' c c' post) {a : α} (hr : p.run c = .ok a d) :
    Outcome p' c' (post a d) fun e _ => P.right e := by
  unfold Outcome
  cases hr' : p'.run c' with
  | ok b d' => exact (h.ok_ok hr hr').resolve_left id
  | error e' d' => exact (h.ok_error hr hr').resolve_left id

/-! ## Single steps -/

theorem pure {a : α} {b : β} (h : post a c b c') :
    Agree P parted (Pure.pure a) (Pure.pure b) c c' post where
  ok_ok hr hr' := by
    cases hr
    cases hr'
    exact Or.inr h
  ok_error _ hr' := nomatch hr'
  error_ok hr _ := nomatch hr
  error_error hr _ := nomatch hr

/-- Where the left run is at its end it is enough to know what the right one gives. -/
theorem of_pure {a : α} (h : Outcome p' c' (post a c) fun e _ => P.right e) :
    Agree P parted (Pure.pure a) p' c c' post where
  ok_ok hr hr' := by
    cases hr
    exact Or.inr (outcome_ok h hr')
  ok_error hr hr' := Or.inr (outcome_error h hr')
  error_ok hr _ := nomatch hr
  error_error hr _ := nomatch hr

theorem throw {e e' : ParseError} (h : P.Matches e e') :
    Agree P parted (throw e : ParseM α) (throw e' : ParseM β) c c' post :=
  of_error rfl rfl (Or.inl h)

/-- A failure of the left run may be assumed to meet the same cursors on the right. -/
theorem throw_or (hP : P.Closed) {e : ParseError} (he : Own e)
    (h : P.Same → Agree P parted (MonadExcept.throw e : ParseM α) p' c c' post) :
    Agree P parted (MonadExcept.throw e : ParseM α) p' c c' post := by
  rcases hP with hsame | hleft
  · exact h hsame
  · exact .of_left (hleft he)

/-- Two runs that fail at the same token for the same reason. -/
theorem throw_located (cause : ParseError.Cause) (t : Token) :
    Agree P parted (MonadExcept.throw (.located cause t) : ParseM α)
      (MonadExcept.throw (.located cause (P.move t)) : ParseM β) c c' post :=
  throw (.move (ParseError.located cause) t rfl rfl)

/-- What follows is compared from wherever the first steps lead. From a cursor at which the runs
have parted the left one has to part again or to fail. -/
theorem bind {mid : α → Cursor → β → Cursor → Prop} {parted' : Cursor → Prop} {f : α → ParseM γ}
    {f' : β → ParseM δ} {post : γ → Cursor → δ → Cursor → Prop}
    (h : Agree P parted' p p' c c' mid)
    (hparted : ∀ a d, parted' d → Outcome (f a) d (fun _ d => parted d) fun e _ => P.left e)
    (hf : ∀ a d b d', mid a d b d' → Agree P parted (f a) (f' b) d d' post) :
    Agree P parted (p >>= f) (p' >>= f') c c' post := by
  cases hr : p.run c with
  | error e d =>
    have hrun : (p >>= f).run c = .error e d := by rw [EStateM.run_bind, hr]
    cases hr' : p'.run c' with
    | error e' d' =>
      have hrun' : (p' >>= f').run c' = .error e' d' := by rw [EStateM.run_bind, hr']
      exact of_error hrun hrun' (h.error_error hr hr')
    | ok b d' =>
      have he := h.error_ok hr hr'
      refine .of_left ?_
      unfold Outcome
      rw [hrun]
      exact he
  | ok a d =>
    have hrun : (p >>= f).run c = (f a).run d := by rw [EStateM.run_bind, hr]
    cases hr' : p'.run c' with
    | error e' d' =>
      have hrun' : (p' >>= f').run c' = .error e' d' := by rw [EStateM.run_bind, hr']
      rcases h.ok_error hr hr' with hd | he
      · exact (of_left (hparted a d hd)).congr hrun rfl
      · refine .of_right ?_
        unfold Outcome
        rw [hrun']
        exact he
    | ok b d' =>
      have hrun' : (p' >>= f').run c' = (f' b).run d' := by rw [EStateM.run_bind, hr']
      rcases h.ok_ok hr hr' with hd | hmid
      · exact (of_left (hparted a d hd)).congr hrun rfl
      · exact (hf a d b d' hmid).congr hrun hrun'

/-- What follows runs that never part. -/
theorem bind_never {mid : α → Cursor → β → Cursor → Prop} {f : α → ParseM γ} {f' : β → ParseM δ}
    {post : γ → Cursor → δ → Cursor → Prop} (h : Agree P Never p p' c c' mid)
    (hf : ∀ a d b d', mid a d b d' → Agree P parted (f a) (f' b) d d' post) :
    Agree P parted (p >>= f) (p' >>= f') c c' post :=
  h.bind (fun _ _ hd => hd.elim) hf

/-- A result that is only passed on. -/
theorem map {mid : α → Cursor → β → Cursor → Prop} {f : α → γ} {f' : β → δ}
    {post : γ → Cursor → δ → Cursor → Prop} (h : Agree P parted p p' c c' mid)
    (hf : ∀ a d b d', mid a d b d' → post (f a) d (f' b) d') :
    Agree P parted (p >>= fun a => Pure.pure (f a)) (p' >>= fun b => Pure.pure (f' b)) c c' post :=
  h.bind (fun _ _ hd => hd) fun a d b d' hmid => .pure (hf a d b d' hmid)

theorem get_bind {f : Cursor → ParseM γ} {f' : Cursor → ParseM δ}
    {post : γ → Cursor → δ → Cursor → Prop} (h : Agree P parted (f c) (f' c') c c' post) :
    Agree P parted (get >>= f) (get >>= f') c c' post :=
  h.congr rfl rfl

theorem advance_bind {n : Nat} {f : Unit → ParseM γ} {f' : Unit → ParseM δ}
    {post : γ → Cursor → δ → Cursor → Prop}
    (h : Agree P parted (f ()) (f' ()) (c.skip n) (c'.skip n) post) :
    Agree P parted (advance n >>= f) (advance n >>= f') c c' post :=
  h.congr rfl rfl

/-- Tracing changes only the logs, and may differ. -/
theorem trace_bind {s s' : Setup} {part : Log.Part} {message message' : Text} {f : Unit → ParseM γ}
    {f' : Unit → ParseM δ} {post : γ → Cursor → δ → Cursor → Prop}
    (h : ∀ log log', Agree P parted (f ()) (f' ()) { c with log := log } { c' with log := log' }
      post) :
    Agree P parted (trace s part message >>= f) (trace s' part message' >>= f') c c' post := by
  rw [Parser.trace_bind, Parser.trace_bind]
  split
  · split
    · exact (h _ _).congr rfl rfl
    · exact (h _ c'.log).congr rfl rfl
  · split
    · exact (h c.log _).congr rfl rfl
    · exact (h c.log c'.log).congr rfl rfl

/-- What follows the next token, where its lack is a failure. -/
theorem next_bind (hP : P.Closed) (hj : Joined P inner c c') {e e' : ParseError}
    {f : Option Token → ParseM γ} {f' : Option Token → ParseM δ}
    {post : γ → Cursor → δ → Cursor → Prop} (hnil : f none = MonadExcept.throw e)
    (hnil' : f' none = MonadExcept.throw e') (he : P.Matches e e') (hown : Own e)
    (hcons : ∀ t rest, c.rest = t :: rest → Joined P inner (c.skip 1) (c'.skip 1) →
      Agree P parted (f (some t)) (f' (some (P.move t))) (c.skip 1) (c'.skip 1) post) :
    Agree P parted (next >>= f) (next >>= f') c c' post := by
  cases hc : c.rest with
  | nil =>
    refine congr ?_ ((run_next_nil hc f).trans (by rw [hnil])) rfl
    refine throw_or hP hown fun hsame => ?_
    have hc' : c'.rest = [] := by rw [hj.rest_of_same hsame, hc, List.map_nil]
    have hrun : (next >>= f').run c' = (MonadExcept.throw e' : ParseM δ).run c' := by
      rw [run_next_nil hc', hnil']
    exact (throw he).congr rfl hrun
  | cons t rest =>
    exact (hcons t rest hc (hj.next hc)).congr (run_next_cons hc f)
      (run_next_cons (hj.rest_cons hc) f')

/-- What follows a look at the next token, where its lack is a failure. -/
theorem peek_bind (hP : P.Closed) (hj : Joined P inner c c') {e e' : ParseError}
    {f : Option Token → ParseM γ} {f' : Option Token → ParseM δ}
    {post : γ → Cursor → δ → Cursor → Prop} (hnil : f none = MonadExcept.throw e)
    (hnil' : f' none = MonadExcept.throw e') (he : P.Matches e e') (hown : Own e)
    (hcons : ∀ t rest, c.rest = t :: rest →
      Agree P parted (f (some t)) (f' (some (P.move t))) c c' post) :
    Agree P parted (peek >>= f) (peek >>= f') c c' post := by
  cases hc : c.rest with
  | nil =>
    refine congr ?_ ((run_peek c f).trans (by rw [hc, List.head?_nil, hnil])) rfl
    refine throw_or hP hown fun hsame => ?_
    have hc' : c'.rest = [] := by rw [hj.rest_of_same hsame, hc, List.map_nil]
    have hrun : (peek >>= f').run c' = (MonadExcept.throw e' : ParseM δ).run c' := by
      rw [run_peek, hc', List.head?_nil, hnil']
    exact (throw he).congr rfl hrun
  | cons t rest =>
    refine (hcons t rest hc).congr ?_ ?_
    · rw [run_peek, hc, List.head?_cons]
    · rw [run_peek, hj.rest_cons hc, List.head?_cons]

end Agree

/-- The runs of two parsers agree from all cursors that fit, and lead to cursors that fit. -/
def Paired (P : Pairing) (parted : Cursor → Prop) (p : ParseM α) (p' : ParseM β)
    (fits : α → β → Prop) : Prop :=
  ∀ inner c c', Joined P inner c c' →
    Agree P parted p p' c c' fun a d b d' => Joined P inner d d' ∧ fits a b

end MathMarkup.Parser
