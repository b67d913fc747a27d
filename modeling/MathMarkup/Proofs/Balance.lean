import MathMarkup.Proofs.Parser.Balanced
import MathMarkup.Proofs.Parser.Run

/-!
# Balanced sources

A parse of balanced tokens may fail for many reasons, but never because a brace, a bracket or an
environment is not matched.

The invariant is `Within`: from the cursor up to some position stand balanced tokens, and behind
them the input is at its end or something is closed. Each parser keeps it (`Keeps`), or fails for
another reason. A parser that opens something runs inside it under the same invariant, with the
closing token as what stands behind.
-/

namespace MathMarkup

/-- Whether a failure says that something is not matched. -/
def ParseError.isUnmatched (e : ParseError) : Bool :=
  [Diagnostic.Kind.unmatchedBrace, .unmatchedBracket, .unmatchedEnvironment].contains e.cause.kind

namespace Parser

/-! ## Tokens ahead -/

/-- From the cursor up to the position `stop` stand the tokens `w`, and `tail` behind them. -/
structure Ahead (w tail : List Token) (stop : Nat) (c : Cursor) : Prop where
  rest : c.rest = w ++ tail
  position : c.position + w.length = stop

variable {g : Grammar} {c c' : Cursor} {t : Token} {u v w tail : List Token} {stop : Nat}

theorem Ahead.skip (h : Ahead (u ++ w) tail stop c) : Ahead w tail stop (c.skip u.length) where
  rest := by rw [Cursor.rest_skip, h.rest, List.append_assoc, List.drop_left]
  position := by
    have hp := h.position
    rw [List.length_append] at hp
    rw [Cursor.position_skip]
    omega

theorem Ahead.next (h : Ahead (t :: w) tail stop c) : Ahead w tail stop (c.skip 1) :=
  Ahead.skip (u := [t]) h

/-- The first tokens ahead, with the others counted to what stands behind. -/
theorem Ahead.split (h : Ahead (u ++ w) tail stop c) :
    Ahead u (w ++ tail) (c.position + u.length) c where
  rest := by rw [h.rest, List.append_assoc]
  position := rfl

/-- A cursor at the end of the first tokens has the others ahead. -/
theorem Ahead.join (h : Ahead (u ++ w) tail stop c)
    (h' : Ahead [] (w ++ tail) (c.position + u.length) c') : Ahead w tail stop c' where
  rest := h'.rest
  position := by
    have hp := h.position
    have hp' := h'.position
    rw [List.length_append] at hp
    rw [List.length_nil] at hp'
    omega

/-- Only the tokens and the position count. -/
theorem Ahead.congr (h : Ahead w tail stop c) (hr : c'.rest = c.rest)
    (hp : c'.position = c.position) : Ahead w tail stop c' :=
  ⟨hr.trans h.rest, by rw [hp]; exact h.position⟩

/-- Balanced tokens stand ahead. -/
def Within (g : Grammar) (tail : List Token) (stop : Nat) (c : Cursor) : Prop :=
  ∃ w, Balanced g w ∧ Ahead w tail stop c

theorem Within.congr (h : Within g tail stop c) (hr : c'.rest = c.rest)
    (hp : c'.position = c.position) : Within g tail stop c' := by
  obtain ⟨w, hw, ha⟩ := h
  exact ⟨w, hw, ha.congr hr hp⟩

/-- The input is at its end, or something is closed. -/
def Closes (g : Grammar) (tail : List Token) : Prop :=
  ∀ t rest, tail = t :: rest → (role g t).closes = true

theorem closes_cons (h : (role g t).closes = true) : Closes g (t :: w) := by
  rintro _ _ ⟨⟩
  exact h

/-- A next token that closes nothing is one of the balanced tokens. -/
theorem Within.inv {rest : List Token} (h : Within g tail stop c) (htail : Closes g tail)
    (hc : c.rest = t :: rest) (ht : (role g t).closes = false) :
    ∃ w, After g (role g t) w ∧ Ahead (t :: w) tail stop c := by
  obtain ⟨w, hw, ha⟩ := h
  have hrest := ha.rest
  rw [hc] at hrest
  cases w with
  | nil =>
    rw [htail t rest hrest.symm] at ht
    cases ht
  | cons t' w =>
    cases hrest
    exact ⟨w, hw.after, ha⟩

/-- A next token that closes something stands behind the balanced tokens. -/
theorem Within.eq_tail {rest : List Token} (h : Within g tail stop c) (hc : c.rest = t :: rest)
    (ht : (role g t).closes = true) : tail = t :: rest ∧ c.position = stop := by
  obtain ⟨w, hw, ha⟩ := h
  have hrest := ha.rest
  rw [hc] at hrest
  cases w with
  | nil => exact ⟨hrest.symm, ha.position⟩
  | cons t' w =>
    cases hrest
    rw [hw.not_closes] at ht
    cases ht

/-- A next token that nests nothing may be passed over. -/
theorem Within.next {rest : List Token} (h : Within g tail stop c) (htail : Closes g tail)
    (hc : c.rest = t :: rest) (ht : role g t = .plain) : Within g tail stop (c.skip 1) := by
  obtain ⟨w, hw, ha⟩ := h.inv htail hc (by rw [ht]; rfl)
  rw [ht] at hw
  exact ⟨w, hw, ha.next⟩

/-! ## Statements about parsers -/

/-- The parser gives a result with `post`, or fails for a reason other than the nesting. -/
abbrev Passes {α : Type} (p : ParseM α) (c : Cursor) (post : α → Cursor → Prop) : Prop :=
  Outcome p c post fun e _ => e.isUnmatched = false

/-- The parser stays within balanced tokens. -/
def Keeps {α : Type} (g : Grammar) (p : ParseM α) : Prop :=
  ∀ tail stop c, Closes g tail → Within g tail stop c → Passes p c fun _ c' => Within g tail stop c'

/-- The parser stays within balanced tokens, and goes up to a stop if the end of these is one. -/
def KeepsTo (g : Grammar) (st : Stop) (p : ParseM Node) : Prop :=
  ∀ tail stop c, Closes g tail → (∀ t rest, tail = t :: rest → st stop t = true) →
    Within g tail stop c → Passes p c fun _ c' => Within g tail stop c' ∧ AtStop st c'

/-- The parsers inside one more scope, if there are any, stay within balanced tokens. -/
def Nested.Keeps (g : Grammar) (nested : Nested) : Prop :=
  ∀ inside, nested = some inside → (∀ st, KeepsTo g st (inside.content st)) ∧
    Parser.Keeps g inside.optional

/-- The next token, where tokens stand ahead. -/
theorem Ahead.next_bind {α : Type} {f : Option Token → ParseM α} {post : α → Cursor → Prop}
    (ha : Ahead (t :: w) tail stop c) (h : Passes (f (some t)) (c.skip 1) post) :
    Passes (Parser.next >>= f) c post := by
  refine Outcome.next_bind (fun hnil => ?_) fun t' rest hc => ?_
  · rw [ha.rest] at hnil
    cases hnil
  · rw [ha.rest] at hc
    cases hc
    exact h

/-- What stands between an opening token and its closing token is read up to the latter. -/
theorem KeepsTo.between {st : Stop} {content : ParseM Node} (h : KeepsTo g st content)
    (hu : Balanced g u) (hcloses : ∀ p x, st p x = true → (role g x).closes = true)
    (ht : ∀ p, st p t = true) (ha : Ahead (u ++ t :: w) tail stop c) :
    Passes content c fun _ c' => Ahead (t :: w) tail stop c' := by
  refine (h (t :: w ++ tail) _ c (closes_cons (hcloses 0 t (ht 0))) ?_ ⟨u, hu, ha.split⟩).weaken ?_
  · rintro _ _ ⟨⟩
    exact ht _
  · rintro _ c' ⟨⟨v, hv, ha'⟩, hstop⟩
    cases v with
    | nil => exact ha.join ha'
    | cons x v =>
      -- The stop is a closing token, and balanced tokens do not start with one.
      have hx := hcloses _ _ (hstop x _ ha'.rest)
      rw [hv.not_closes] at hx
      cases hx

variable {s : Setup} {nested : Nested}

/-! ## Groups -/

/-- A scope that is opened is closed by the token behind its content. -/
theorem Ahead.scope (hn : nested.Keeps g) {st : Stop} (hu : Balanced g u) (hw : Balanced g w)
    (hcloses : ∀ p x, st p x = true → (role g x).closes = true) (ht : ∀ p, st p t = true)
    (ha : Ahead (u ++ t :: w) tail stop c) (scope : Scope) (e : ParseError) :
    Passes (do
      let inside ← enter s nested scope
      let content ← inside.content st
      match ← Parser.next with
      | none => throw e
      | some _ =>
        popScope
        return content) c fun _ c' => Within g tail stop c' := by
  refine Outcome.enter_bind (fun _ => rfl) fun inside hi => ?_
  have hcontent := (hn inside hi).1 st
  refine Outcome.bind (hcontent.between hu hcloses ht (ha.congr rfl rfl)) ?_
  intro content c' ha'
  exact ha'.next_bind ⟨w, hw, ha'.next.congr rfl rfl⟩

theorem keeps_group (hn : nested.Keeps g) : Keeps g (group s nested) := by
  intro tail stop c htail hin
  unfold group
  refine Outcome.next_bind (fun _ => rfl) fun opening rest hc => ?_
  by_cases hopen : opening.isOpenBrace = true
  · have hrole := (isOpenBrace_iff g).mp hopen
    obtain ⟨w, hafter, ha⟩ := hin.inv htail hc (by rw [hrole]; rfl)
    rw [hrole] at hafter
    obtain ⟨u, closing, v, rfl, hu, hclosing, hv⟩ := hafter
    simp only [if_pos hopen]
    refine Ahead.scope hn hu hv (fun _ x hx => ?_) (fun _ => ?_) ha.next _ _
    · rw [(isCloseBrace_iff g).mp hx]
      rfl
    · exact (isCloseBrace_iff g).mpr hclosing
  · simp only [if_neg hopen]
    rfl

theorem keeps_bracketContent (hn : nested.Keeps g) : Keeps g (bracketContent s nested) := by
  intro tail stop c htail hin
  unfold bracketContent
  refine Outcome.next_bind (fun _ => rfl) fun opening rest hc => ?_
  by_cases hopen : opening.isOpenBracket = true
  · have hrole := (isOpenBracket_iff g).mp hopen
    obtain ⟨w, hafter, ha⟩ := hin.inv htail hc (by rw [hrole]; rfl)
    rw [hrole] at hafter
    obtain ⟨u, closing, v, rfl, hu, hclosing, hv⟩ := hafter
    simp only [if_pos hopen]
    refine Ahead.scope hn hu hv (fun _ x hx => ?_) (fun _ => ?_) ha.next _ _
    · rw [(isCloseBracket_iff g).mp hx]
      rfl
    · exact (isCloseBracket_iff g).mpr hclosing
  · simp only [if_neg hopen]
    rfl

theorem keeps_optionalArgument (hn : nested.Keeps g) : Keeps g (optionalArgument s nested) := by
  intro tail stop c htail hin
  unfold optionalArgument
  refine Outcome.peek_bind (fun _ => hin) fun t rest hc => ?_
  by_cases hopen : t.isOpenBracket = true
  · simp only [if_pos hopen]
    exact Outcome.bind (keeps_bracketContent hn tail stop c htail hin) fun _ _ hin' => hin'
  · simp only [if_neg hopen]
    exact hin

theorem keeps_rawGroup (hg : g.Regular) : Keeps g (rawGroup s) := by
  intro tail stop c htail hin
  unfold rawGroup
  refine Outcome.get_bind ?_
  cases hc : c.rest with
  | nil => rfl
  | cons opening rest =>
    by_cases hopen : opening.isOpenBrace = true
    · have hrole := (isOpenBrace_iff g).mp hopen
      obtain ⟨w, hafter, ha⟩ := hin.inv htail hc (by rw [hrole]; rfl)
      rw [hrole] at hafter
      obtain ⟨u, closing, v, rfl, hu, hclosing, hv⟩ := hafter
      have hrest : rest = u ++ closing :: (v ++ tail) := by
        have hsplit := ha.rest
        rw [hc] at hsplit
        cases hsplit
        simp
      have hfound := hu.closingBrace?_eq hg hclosing (v ++ tail)
      rw [← hrest] at hfound
      simp only [if_pos hopen, hfound]
      have hall : Ahead ((opening :: (u ++ [closing])) ++ v) tail stop c := by simpa using ha
      have hskip : Ahead v tail stop (c.skip (u.length + 1 + 1)) := by simpa using hall.skip
      exact ⟨v, hv, hskip⟩
    · simp only [if_neg hopen]
      rfl

/-! ## Arguments of commands -/

theorem passes_expectGroup (command : Token) (index : Nat) (c : Cursor) :
    Passes (expectGroup command index) c fun _ c' => c' = c ∧
      ∃ t rest, c.rest = t :: rest ∧ t.isOpenBrace = true := by
  unfold expectGroup
  refine Outcome.peek_bind (fun _ => rfl) fun t rest hc => ?_
  by_cases hopen : t.isOpenBrace = true
  · simp only [if_pos hopen]
    exact ⟨rfl, t, rest, hc, hopen⟩
  · simp only [if_neg hopen]
    rfl

theorem keeps_argument (hn : nested.Keeps g) (command : Token) (index : Nat) :
    Keeps g (argument s nested command index) := by
  intro tail stop c htail hin
  unfold argument
  refine Outcome.bind (passes_expectGroup command index c) ?_
  rintro _ _ ⟨rfl, _⟩
  exact Outcome.bind (keeps_group hn tail stop _ htail hin) fun _ _ hin' => hin'

theorem keeps_rawArgument (hg : g.Regular) (command : Token) (index : Nat) :
    Keeps g (rawArgument s command index) := by
  intro tail stop c htail hin
  unfold rawArgument
  refine Outcome.bind (passes_expectGroup command index c) ?_
  rintro _ _ ⟨rfl, _⟩
  exact keeps_rawGroup hg tail stop _ htail hin

/-- A delimiter is one token, whatever it is. -/
theorem Ahead.takeDelimiter (command : Token) (ha : Ahead (t :: w) tail stop c) :
    Passes (takeDelimiter s command) c fun _ c' => Ahead w tail stop c' := by
  unfold Parser.takeDelimiter
  refine ha.next_bind ?_
  dsimp only
  split
  · exact ha.next
  · rfl

/-- The word between a degree and a radicand may have been made a command that takes a delimiter. No
radicand follows it then. -/
theorem keeps_skipOf_argument (hg : g.Regular) (hn : nested.Keeps g) (command : Token)
    (index : Nat) :
    Keeps g (Reading.skipOf >>= fun _ => argument s nested command index) := by
  intro tail stop c htail hin
  unfold Reading.skipOf
  rw [bind_assoc]
  refine Outcome.peek_bind (fun _ => ?_) fun t rest hc => ?_
  · exact keeps_argument hn command index tail stop c htail hin
  · by_cases hof : t.isCommand "\\of" = true
    · simp only [if_pos hof]
      refine Outcome.advance_bind ?_
      rcases role_of (g := g) hof with hrole | hrole
      · exact keeps_argument hn command index tail stop _ htail (hin.next htail hc hrole)
      · obtain ⟨w, hafter, ha⟩ := hin.inv htail hc (by rw [hrole]; rfl)
        rw [hrole] at hafter
        obtain ⟨d, v, rfl, hd, _⟩ := hafter
        unfold argument
        refine Outcome.bind (passes_expectGroup command index _) ?_
        rintro _ _ ⟨_, t', rest', hc', hopen⟩
        rw [ha.next.rest] at hc'
        cases hc'
        rw [(isDelimiter_apart hg hd).1] at hopen
        cases hopen
    · simp only [if_neg hof]
      exact keeps_argument hn command index tail stop c htail hin

/-- What stands between `\left` and the delimiter behind its `\right`. -/
theorem Ahead.leftRight (hn : nested.Keeps g) (command : Token) (hw : After g .left w)
    (ha : Ahead w tail stop c) :
    Passes (leftRight s nested command) c fun _ c' => Within g tail stop c' := by
  obtain ⟨d, u, right, d', v, rfl, _, hu, hright, _, hv⟩ := hw
  unfold Parser.leftRight
  refine Outcome.bind (ha.takeDelimiter command) fun opening c1 ha1 => ?_
  refine Outcome.enter_bind (fun _ => rfl) fun inside hi => ?_
  have hcontent := (hn inside hi).1 stopAtRight
  refine Outcome.bind (hcontent.between hu (fun _ x hx => ?_) (fun _ => ?_) (ha1.congr rfl rfl)) ?_
  · rw [(isRight_iff g).mp hx]
    rfl
  · exact (isRight_iff g).mpr hright
  · intro content c2 ha2
    refine ha2.next_bind ?_
    simp only [outcome_bind, outcome_popScope]
    refine Outcome.weaken (Ahead.takeDelimiter right (ha2.next.congr rfl rfl)) fun _ c3 ha3 => ?_
    exact ⟨v, hv, ha3⟩

/-! ## Commands -/

/-- Whether what a command reads starts no nesting by itself and takes no delimiter. -/
def Reading.isPlain : Reading → Bool
  | .delimiter _ | .leftRight | .refused _ => false
  | _ => true

theorem nests_of_isPlain {m : Command} (h : (reading s t m).isPlain = true) : nests m = false := by
  cases m <;> first | rfl | cases h

theorem sizes_of_reading {m : Command} {build : Option Text → Node}
    (h : reading s t m = .delimiter build) : m = .middle ∨ ∃ size, m = .sized size := by
  cases m <;> simp [reading] at h ⊢

theorem left_of_reading {m : Command} (h : reading s t m = .leftRight) : m = .left := by
  cases m <;> simp [reading] at h ⊢

theorem isUnmatched_of_reading {m : Command} {e : ParseError}
    (h : reading s t m = .refused e) : e.isUnmatched = false := by
  cases m <;> cases h <;> rfl

/-- A command behind its token stays within what the role of the token leaves. -/
theorem Ahead.reading (hg : s.grammar.Regular) (hn : nested.Keeps s.grammar)
    (htail : Closes s.grammar tail) (ht : t.kind = .command) {m : Command}
    (hm : s.grammar.commands.get? t.value = some m) (hw : After s.grammar (role s.grammar t) w)
    (ha : Ahead w tail stop c) :
    Passes ((reading s t m).parser s nested t) c fun _ c' => Within s.grammar tail stop c' := by
  have plain : (Parser.reading s t m).isPlain = true → Within s.grammar tail stop c := by
    intro hplain
    have hrole : role s.grammar t = .plain := by
      refine role_command_plain hg ht fun m' hm' => ?_
      rw [hm] at hm'
      cases hm'
      exact nests_of_isPlain hplain
    rw [hrole] at hw
    exact ⟨w, hw, ha⟩
  cases hr : Parser.reading s t m with
  | nothing n => exact plain (by rw [hr]; rfl)
  | raw build =>
    have hin := plain (by rw [hr]; rfl)
    exact Outcome.bind (keeps_rawArgument hg t 1 tail stop c htail hin) fun _ _ hin' => hin'
  | one build =>
    have hin := plain (by rw [hr]; rfl)
    exact Outcome.bind (keeps_argument hn t 1 tail stop c htail hin) fun _ _ hin' => hin'
  | two build =>
    have hin := plain (by rw [hr]; rfl)
    refine Outcome.bind (keeps_argument hn t 1 tail stop c htail hin) fun _ c1 hin1 => ?_
    exact Outcome.bind (keeps_argument hn t 2 tail stop c1 htail hin1) fun _ _ hin2 => hin2
  | squareRoot =>
    have hin := plain (by rw [hr]; rfl)
    refine Outcome.bind (keeps_optionalArgument hn tail stop c htail hin) fun _ c1 hin1 => ?_
    exact Outcome.bind (keeps_argument hn t 1 tail stop c1 htail hin1) fun _ _ hin2 => hin2
  | root =>
    have hin := plain (by rw [hr]; rfl)
    refine Outcome.bind (keeps_argument hn t 1 tail stop c htail hin) fun degree c1 hin1 => ?_
    have hradicand := keeps_skipOf_argument (s := s) hg hn t 2 tail stop c1 htail hin1
    rw [← bind_assoc]
    exact Outcome.bind hradicand fun _ _ hin2 => hin2
  | delimiter build =>
    rw [role_command_sizes hg ht hm (sizes_of_reading hr)] at hw
    obtain ⟨d, v, rfl, _, hv⟩ := hw
    exact Outcome.bind (ha.takeDelimiter t) fun _ _ ha' => ⟨v, hv, ha'⟩
  | leftRight =>
    cases left_of_reading hr
    rw [role_command_left hg ht hm] at hw
    exact ha.leftRight hn t hw
  | refused e => exact isUnmatched_of_reading hr

/-! ## Environments -/

theorem Ahead.takeName {n : List Token} {name : Text} (hname : NameGroup n name) (command : Token)
    (ha : Ahead (n ++ w) tail stop c) :
    Passes (takeName command) c fun found c' => found = name ∧ Ahead w tail stop c' := by
  have hread := hname.readName command (w ++ tail)
  rw [← List.append_assoc, ← ha.rest] at hread
  unfold Parser.takeName
  refine Outcome.get_bind ?_
  simp only [hread]
  exact ⟨rfl, ha.skip⟩

theorem passes_environmentNamed (name : Text) (opening : Token) (c : Cursor) :
    Passes (environmentNamed s name opening) c fun _ c' =>
      c'.rest = c.rest ∧ c'.position = c.position := by
  unfold environmentNamed
  split
  · exact ⟨rfl, rfl⟩
  · split
    · rfl
    · exact ⟨rfl, rfl⟩

theorem keeps_environmentArgument? (hg : g.Regular) (name : Text) (opening : Token)
    (e : Environment) (position : Nat) :
    Keeps g (environmentArgument? s name opening e position) := by
  intro tail stop c htail hin
  unfold environmentArgument? environmentArgument
  split
  · refine Outcome.get_bind ?_
    split
    · split
      · exact keeps_rawGroup hg tail stop c htail hin
      · rfl
    · rfl
  · exact hin

theorem role_of_separator (hg : g.Regular)
    (h : isCellSeparator t = true ∨ isRowSeparator t = true) : role g t = .plain := by
  rcases h with h | h
  · refine role_of_kind ?_
    rw [(Token.is_iff.mp h).1]
    decide
  · obtain ⟨hk, hv⟩ := Token.is_iff.mp h
    refine role_command_plain hg hk fun m hm => ?_
    rw [hg.get?_eq_lineBreak_iff.mpr hv] at hm
    cases hm
    rfl

/-- The loop over the cells of a table. What stands between two cells nests nothing. -/
theorem keeps_tableRows (hg : g.Regular) {inside : Inside}
    (hcontent : ∀ st, KeepsTo g st (inside.content st)) (hoptional : Keeps g inside.optional)
    (htail : Closes g tail) (rounds : Nat) (cells : List Node) (rows : List (List Node))
    (hin : Within g tail stop c) :
    Passes (tableRows inside stop rounds cells rows) c fun _ c' => Within g tail stop c' := by
  induction rounds generalizing cells rows c with
  | zero => exact hin
  | succ rounds ih =>
    have hfires : ∀ t rest, tail = t :: rest → stopAtCell stop stop t = true := by
      intro t rest _
      simp [stopAtCell]
    unfold tableRows
    refine Outcome.bind (hcontent (stopAtCell stop) tail stop c htail hfires hin) ?_
    rintro cell c1 ⟨hin1, hstop⟩
    refine Outcome.get_bind ?_
    cases hc1 : c1.rest with
    | nil => exact hin1
    | cons t rest =>
      by_cases hend : c1.position = stop
      · simp only [if_pos hend]
        exact hin1
      · have hseparator := hstop t rest hc1
        simp only [stopAtCell, hend, decide_false, Bool.false_or, Bool.or_eq_true] at hseparator
        have hin2 := hin1.next htail hc1 (role_of_separator hg hseparator)
        simp only [if_neg hend]
        refine Outcome.advance_bind ?_
        split
        · refine Outcome.bind (hoptional tail stop _ htail hin2) fun _ c3 hin3 => ?_
          exact ih _ _ hin3
        · exact ih _ _ hin2

theorem keeps_environmentContent (hg : g.Regular) {inside : Inside}
    (hcontent : ∀ st, KeepsTo g st (inside.content st)) (hoptional : Keeps g inside.optional)
    (htail : Closes g tail) (name argument : Text) (e : Environment)
    (hin : Within g tail stop c) :
    Passes (environmentContent inside name e stop argument) c fun _ c' =>
      Within g tail stop c' := by
  have flow : Passes (inside.content (stopAt stop)) c fun _ c' => Within g tail stop c' := by
    refine (hcontent (stopAt stop) tail stop c htail ?_ hin).weaken fun _ _ h => h.1
    intro t rest _
    simp [stopAt]
  have grid := keeps_tableRows hg hcontent hoptional htail (c.rest.length + 1) [] [] hin
  unfold environmentContent
  split
  · exact Outcome.bind flow fun _ _ hin' => hin'
  · exact Outcome.bind flow fun _ _ hin' => hin'
  · exact Outcome.get_bind (Outcome.bind grid fun _ _ hin' => hin')
  · exact Outcome.get_bind (Outcome.bind grid fun _ _ hin' => hin')
  · exact Outcome.get_bind (Outcome.bind grid fun _ _ hin' => hin')

/-- The end of an environment is taken if the content goes up to it; if not, what is reported is no
lack of an end. -/
theorem passes_takeEnd {n : List Token} {name : Text} {e : Token} (hname : NameGroup n name)
    (ha : Ahead (u ++ e :: (n ++ w)) tail stop c) (hw : Balanced g w)
    (hin : Within g (e :: (n ++ w) ++ tail) (c.position + u.length) c') :
    Passes (takeEnd name (c.position + u.length)) c' fun _ c'' => Within g tail stop c'' := by
  unfold takeEnd
  refine Outcome.get_bind ?_
  refine Outcome.next_bind (fun _ => rfl) fun t rest hc => ?_
  by_cases hend : c'.position = c.position + u.length
  · obtain ⟨v, hv, ha'⟩ := hin
    have hnil : v = [] := by
      have hp := ha'.position
      rw [hend] at hp
      exact List.eq_nil_of_length_eq_zero (by omega)
    subst hnil
    have hahead := ha.join ha'
    simp only [if_pos hend]
    refine Outcome.bind (hahead.next.takeName hname t) ?_
    rintro _ c2 ⟨rfl, ha2⟩
    simp only [ne_eq, not_true_eq_false, if_false]
    exact ⟨w, hw, ha2⟩
  · simp only [if_neg hend]
    rfl

theorem passes_environmentRest (hg : g.Regular) (hn : nested.Keeps g) {n : List Token}
    {name : Text} {e : Token} (hu : Balanced g u) (he : role g e = .ends)
    (hname : NameGroup n name) (hw : Balanced g w) (ha : Ahead (u ++ e :: (n ++ w)) tail stop c)
    (opening : Token) (environment : Environment) :
    Passes (environmentRest s nested name opening environment (c.position + u.length)) c
      fun _ c' => Within g tail stop c' := by
  have htail : Closes g (e :: (n ++ w) ++ tail) := closes_cons (by rw [he]; rfl)
  unfold environmentRest
  refine Outcome.enter_bind (fun _ => rfl) fun inside hi => ?_
  refine Outcome.get_bind ?_
  simp only [outcome_bind, outcome_modify]
  refine Outcome.weaken (keeps_environmentArgument? hg name opening environment _ _
    (c.position + u.length) _ htail ⟨u, hu, ha.split.congr rfl rfl⟩) fun argument c1 hin1 => ?_
  refine (keeps_environmentContent hg (hn inside hi).1 (hn inside hi).2 htail name argument
    environment hin1).weaken fun node c2 hin2 => ?_
  exact passes_takeEnd hname ha hw (hin2.congr rfl rfl)

theorem Ahead.environment (hg : g.Regular) (hn : nested.Keeps g) (ht : role g t = .begins)
    (hw : After g .begins w) (ha : Ahead (t :: w) tail stop c) :
    Passes (environment s nested) c fun _ c' => Within g tail stop c' := by
  obtain ⟨n, u, e, n', v, name, rfl, hname, hu, he, hname', hv⟩ := hw
  rw [environment_eq]
  refine ha.next_bind ?_
  simp only [if_pos ((isBegin_iff g).mpr ht)]
  refine Outcome.bind (ha.next.takeName hname t) ?_
  rintro found c1 ⟨rfl, ha1⟩
  refine Outcome.bind (passes_environmentNamed found t c1) ?_
  rintro environment c2 ⟨hrest, hposition⟩
  have ha2 := ha1.congr hrest hposition
  have hfound := hu.findEnd_eq hg he hname' t c2.position (v ++ tail)
  have hsplit : u ++ e :: (n' ++ (v ++ tail)) = c2.rest := by
    rw [ha2.rest]
    simp
  rw [hsplit] at hfound
  refine Outcome.get_bind ?_
  simp only [hfound]
  refine Outcome.trace_bind fun log => ?_
  have ha3 : Ahead (u ++ e :: (n' ++ v)) tail stop { c2 with log := log } := ha2.congr rfl rfl
  exact passes_environmentRest hg hn hu he hname' hv ha3 t environment

/-! ## Atoms -/

/-- The parser stays within balanced tokens unless something is closed at the cursor. -/
def KeepsInside {α : Type} (g : Grammar) (p : ParseM α) : Prop :=
  ∀ tail stop c t rest, Closes g tail → Within g tail stop c → c.rest = t :: rest →
    (role g t).closes = false → Passes p c fun _ c' => Within g tail stop c'

theorem keepsInside_command (hg : s.grammar.Regular) (hn : nested.Keeps s.grammar) :
    KeepsInside s.grammar (command s nested) := by
  intro tail stop c t rest htail hin hc ht
  obtain ⟨w, hw, ha⟩ := hin.inv htail hc ht
  rw [command_eq]
  refine Outcome.peek_bind (fun _ => rfl) fun t' rest' hc' => ?_
  rw [hc] at hc'
  cases hc'
  by_cases hk : t.kind = .command
  · simp only [if_pos hk]
    unfold commandAt
    split
    · next hget =>
      have hrole : role s.grammar t = .plain := by
        refine role_command_plain hg hk fun m hm => ?_
        rw [hget] at hm
        cases hm
      unfold unknownCommand
      split
      · rfl
      · exact (hin.next htail hc hrole).congr rfl rfl
    · next hget =>
      have hrole := role_command_begins hg hk hget
      rw [hrole] at hw
      exact ha.environment hg hn hrole hw
    · next hget =>
      rw [role_command_closes hg hk hget] at ht
      cases ht
    · rfl
    · next meaning _ _ _ hget =>
      refine Outcome.advance_bind (Outcome.trace_bind fun log => ?_)
      have ha' : Ahead w tail stop { c.skip 1 with log := log } := ha.next.congr rfl rfl
      exact ha'.reading hg hn htail hk hget hw
  · simp only [if_neg hk]
    rfl

theorem keepsInside_atom (hg : s.grammar.Regular) (hn : nested.Keeps s.grammar) :
    KeepsInside s.grammar (atom s nested) := by
  intro tail stop c t rest htail hin hc ht
  have plain : t.kind ∉ [Token.Kind.command, .brace, .bracket] →
      Within s.grammar tail stop (c.skip 1) :=
    fun hk => hin.next htail hc (role_of_kind hk)
  obtain ⟨w, hw, _⟩ := hin.inv htail hc ht
  rw [atom_eq]
  refine Outcome.peek_bind (fun _ => rfl) fun t' rest' hc' => ?_
  rw [hc] at hc'
  cases hc'
  refine Outcome.trace_bind fun log => ?_
  have hin' : Within s.grammar tail stop { c with log := log } := hin.congr rfl rfl
  have hatom : Passes (atomAt s nested t) { c with log := log } fun _ c' =>
      Within s.grammar tail stop c' := by
    unfold atomAt
    split
    · exact keepsInside_command hg hn tail stop _ t rest htail hin' hc ht
    · next hk => exact (plain (by rw [hk]; decide)).congr rfl rfl
    · next hk => exact (plain (by rw [hk]; decide)).congr rfl rfl
    · next hk => exact (plain (by rw [hk]; decide)).congr rfl rfl
    · next hk =>
      split
      · exact keeps_group hn tail stop _ htail hin'
      · next hopen => exact absurd (hw.isOpenBrace ht hk) hopen
    · next hk =>
      split
      · unfold bracketGroup
        exact Outcome.bind (keeps_bracketContent hn tail stop _ htail hin') fun _ _ h => h
      · next hopen => exact absurd (hw.isOpenBracket ht hk) hopen
    · rfl
  exact Outcome.bind hatom fun _ _ h => h

/-! ## Siblings -/

theorem keeps_scriptArgument (hg : s.grammar.Regular) (hn : nested.Keeps s.grammar) (st : Stop)
    (script : Script) (marker : Token) :
    Keeps s.grammar (scriptArgument s nested st script marker) := by
  intro tail stop c htail hin
  unfold scriptArgument
  refine Outcome.get_bind ?_
  cases hc : c.rest with
  | nil => rfl
  | cons t rest =>
    dsimp only
    split
    · rfl
    · next hgo =>
      simp only [Bool.or_eq_true, not_or, Bool.not_eq_true, isSome_closedBy? s.grammar] at hgo
      split
      · exact Outcome.bind (keeps_group hn tail stop c htail hin) fun _ _ hin' => hin'
      · exact keepsInside_atom hg hn tail stop c t rest htail hin hc hgo.1.2

theorem passes_takeScript (hg : s.grammar.Regular) (hn : nested.Keeps s.grammar) (st : Stop)
    (script : Script) (done : List Sibling) (htail : Closes s.grammar tail)
    (hin : Within s.grammar tail stop (c.skip 1)) :
    Passes (takeScript s nested st script t done) c fun _ c' => Within s.grammar tail stop c' := by
  unfold takeScript
  refine Outcome.advance_bind ?_
  split
  · rfl
  · refine Outcome.bind (keeps_scriptArgument hg hn st script t tail stop _ htail hin) ?_
    intro argument c' hin'
    split
    · exact hin'
    · rfl

theorem passes_takeLimits (movable : Bool) (done : List Sibling)
    (hin : Within g tail stop (c.skip 1)) :
    Passes (takeLimits movable t done) c fun _ c' => Within g tail stop c' := by
  unfold takeLimits
  refine Outcome.advance_bind ?_
  split
  · split
    · exact hin
    · exact hin.congr rfl rfl
  · exact hin.congr rfl rfl

/-- The loop of an expression. The only closing token that it may meet is the one behind the
balanced tokens, and that is a stop. -/
theorem keeps_siblings (hg : s.grammar.Regular) (hn : nested.Keeps s.grammar) (st : Stop)
    (htail : Closes s.grammar tail) (hfires : ∀ t rest, tail = t :: rest → st stop t = true)
    (rounds : Nat) (done : List Sibling) (hin : Within s.grammar tail stop c) :
    Passes (siblings s nested st rounds done) c fun _ c' => Within s.grammar tail stop c' := by
  induction rounds generalizing done c with
  | zero => exact hin
  | succ rounds ih =>
    unfold siblings
    refine Outcome.get_bind ?_
    cases hc : c.rest with
    | nil => exact hin
    | cons t rest =>
      dsimp only
      split
      · exact hin
      · next hgo =>
        split
        · next hclosed =>
          rw [isSome_closedBy? s.grammar] at hclosed
          obtain ⟨heq, hposition⟩ := hin.eq_tail hc hclosed
          rw [hposition] at hgo
          exact absurd (hfires t rest heq) hgo
        · next hclosed =>
          rw [isSome_closedBy? s.grammar, Bool.not_eq_true] at hclosed
          cases hscript : Script.ofToken? t with
          | some script =>
            have hin1 := hin.next htail hc (role_of_script hscript)
            have htaken := passes_takeScript hg hn st script (t := t) done htail hin1
            exact Outcome.bind htaken fun bound c2 hin2 => ih bound hin2
          | none =>
            cases hlimits : limits? s.grammar t with
            | some movable =>
              have hin1 := hin.next htail hc (role_of_limits hg hlimits)
              exact Outcome.bind (passes_takeLimits movable done hin1) fun _ _ hin2 => ih _ hin2
            | none =>
              have hatom := keepsInside_atom hg hn tail stop c t rest htail hin hc hclosed
              exact Outcome.bind hatom fun _ _ hin2 => ih _ hin2

/-! ## Expressions -/

theorem keepsTo_expressionWith (hg : s.grammar.Regular) (hn : nested.Keeps s.grammar)
    (hf : nested.Follows s) (st : Stop) :
    KeepsTo s.grammar st (expressionWith s nested st) := by
  intro tail stop c htail hfires hin
  have hgives : Gives (expressionWith s nested st) c fun _ c' => AtStop st c' := by
    refine (followsTo_expressionWith hf st c).weaken ?_
    rintro _ c' ⟨_, _, _, _, _, hstop⟩
    exact hstop
  refine Outcome.and_gives ?_ hgives
  unfold expressionWith
  refine Outcome.get_bind ?_
  exact Outcome.bind (keeps_siblings hg hn st htail hfires _ [] hin) fun _ _ hin' => hin'

theorem keeps_inside (hg : s.grammar.Regular) (n : Nat) : (inside s n).Keeps s.grammar := by
  induction n with
  | zero =>
    intro inside hi
    cases hi
  | succ n ih =>
    intro inside hi
    cases hi
    exact ⟨keepsTo_expressionWith hg ih (follows_inside s n), keeps_optionalArgument ih⟩

theorem keepsTo_expression (hg : s.grammar.Regular) (st : Stop) :
    KeepsTo s.grammar st (expression s st) := by
  intro tail stop c htail hfires hin
  have hn := keeps_inside hg (allowance s c)
  have hf := follows_inside s (allowance s c)
  exact Outcome.get_bind (keepsTo_expressionWith hg hn hf st tail stop c htail hfires hin)

theorem isUnmatched_of_parse {grammar : Grammar} (hg : grammar.Regular) {options : Options}
    {source : Text} (h : Balanced grammar (Token.tokenize source)) {e : ParseError}
    (he : (parse grammar options source).value = .error e) : e.isUnmatched = false := by
  have hin : Within grammar [] (Token.tokenize source).length { rest := Token.tokenize source } :=
    ⟨_, h, (List.append_nil _).symm, Nat.zero_add _⟩
  have hpasses := keepsTo_expression (s := ⟨grammar, options, source⟩) hg noStop [] _ _ nofun nofun
    hin
  rw [value_parse] at he
  split at he
  · cases he
  · next hrun =>
    cases he
    exact outcome_error hpasses hrun

end Parser

/-- A balanced source is not refused on account of its nesting: no brace, bracket or environment is
said to be unmatched. -/
theorem not_unmatched_of_balanced (symbols : Symbol.Table) (options : Options) (source : Text)
    (h : Parser.Balanced (Grammar.ofSymbols symbols).value (Token.tokenize source))
    (e : ParseError)
    (he : (parse (Grammar.ofSymbols symbols).value options source).value = .error e) :
    e.diagnostic.kind ∉
      [Diagnostic.Kind.unmatchedBrace, .unmatchedBracket, .unmatchedEnvironment] := by
  have hmatched := Parser.isUnmatched_of_parse (Grammar.regular_ofSymbols symbols) h he
  have hkind : e.diagnostic.kind = e.cause.kind := rfl
  rw [hkind]
  simpa [ParseError.isUnmatched] using hmatched

/-- A group between two different delimiters, one of them a bracket. What is wrong behind it is a
script without an argument. -/
theorem not_unmatched_of_balanced_pair :
    Parser.Balanced (Grammar.ofSymbols ⟨fun _ => []⟩).value
      (Token.tokenize "\\left[\x7b1\x7d\\right)^") ∧
    (parse (Grammar.ofSymbols ⟨fun _ => []⟩).value {} "\\left[\x7b1\x7d\\right)^").value =
      .error ⟨.missingScript .superscript, "^", some ⟨16, 1, 17⟩⟩ ∧
    (ParseError.mk (.missingScript .superscript) "^" (some ⟨16, 1, 17⟩)).diagnostic.kind ∉
      [Diagnostic.Kind.unmatchedBrace, .unmatchedBracket, .unmatchedEnvironment] := by
  have htokens : Token.tokenize "\\left[\x7b1\x7d\\right)^" =
      ⟨.command, "\\left", ⟨0, 1, 1⟩⟩ :: ⟨.bracket, "[", ⟨5, 1, 6⟩⟩ ::
        ([⟨.brace, "\x7b", ⟨6, 1, 7⟩⟩, ⟨.number, "1", ⟨7, 1, 8⟩⟩, ⟨.brace, "\x7d", ⟨8, 1, 9⟩⟩] ++
          ⟨.command, "\\right", ⟨9, 1, 10⟩⟩ :: ⟨.symbol, ")", ⟨15, 1, 16⟩⟩ ::
            [⟨.symbol, "^", ⟨16, 1, 17⟩⟩]) := by
    decide +kernel
  have hnumber : Parser.Balanced (Grammar.ofSymbols ⟨fun _ => []⟩).value
      [⟨.number, "1", ⟨7, 1, 8⟩⟩] :=
    .plain (Parser.role_of_kind (by decide)) .nil
  have hgroup : Parser.Balanced (Grammar.ofSymbols ⟨fun _ => []⟩).value
      (⟨.brace, "\x7b", ⟨6, 1, 7⟩⟩ :: ([⟨.number, "1", ⟨7, 1, 8⟩⟩] ++
        ⟨.brace, "\x7d", ⟨8, 1, 9⟩⟩ :: [])) :=
    .braces rfl hnumber rfl .nil
  have hscript : Parser.Balanced (Grammar.ofSymbols ⟨fun _ => []⟩).value
      [⟨.symbol, "^", ⟨16, 1, 17⟩⟩] :=
    .plain (Parser.role_of_kind (by decide)) .nil
  have hbalanced : Parser.Balanced (Grammar.ofSymbols ⟨fun _ => []⟩).value
      (Token.tokenize "\\left[\x7b1\x7d\\right)^") := by
    rw [htokens]
    exact .pair rfl rfl hgroup rfl rfl hscript
  have hparse : (parse (Grammar.ofSymbols ⟨fun _ => []⟩).value {}
      "\\left[\x7b1\x7d\\right)^").value =
      .error ⟨.missingScript .superscript, "^", some ⟨16, 1, 17⟩⟩ := by
    rw [Grammar.ofSymbols_nil]
    decide +kernel
  exact ⟨hbalanced, hparse, not_unmatched_of_balanced _ _ _ hbalanced _ hparse⟩

end MathMarkup
