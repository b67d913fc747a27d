import MathMarkup.Proofs.Parser.Braces

/-!
# The outline of a source

Not every brace or bracket of a source has a part in its nesting. What stands in a raw group is
text, and the token behind `\left`, `\right`, `\middle` or a command of a size is a delimiter. The
outline of a source is what is left of its tokens when the bodies of the raw groups and these
delimiters are deleted.

The outline is read off from the front. What has to be known of the tokens before is how the next
one is to be taken (`Phase`): as a delimiter, as the brace that opens a raw group, as a part of
such a group or of the name of an environment, or as none of these.

`WellNested` is the grammar of properly nested outlines. The bodies of raw groups are only required
to be balanced in their braces, that is, the braces form a Dyck word.
-/

namespace MathMarkup.Parser

/-! ## The outline -/

variable {g : Grammar} {s : Setup} {t : Token} {u v w : List Token} {d e : Nat}

/-- Whether a command takes the token behind it for a delimiter. -/
def takesDelimiter (g : Grammar) (t : Token) : Bool :=
  [Role.left, .right, .sizes].contains (role g t)

/-- Whether a command reads a raw group. -/
def readsRaw (g : Grammar) (t : Token) : Bool :=
  t.kind = .command && match g.commands.get? t.value with
    | some (.text _) | some .operatorName | some .sizedSpace => true
    | _ => false

/-- How the next token is to be taken. -/
inductive Phase where
  /-- As it is. -/
  | plain
  /-- As a delimiter, if it is one. -/
  | delimiter
  /-- As the brace that opens a raw group. -/
  | raw
  /-- As a part of a raw group, in which so many further braces are open. -/
  | body (depth : Nat)
  /-- As the brace that opens the name of an environment. -/
  | begins
  /-- As a piece of the name of an environment, behind those given. -/
  | name (pieces : Text)
deriving DecidableEq

namespace Phase

/-- The phase behind a token that is taken as it is. -/
def behind (g : Grammar) (t : Token) : Phase :=
  if takesDelimiter g t then .delimiter
  else if readsRaw g t then .raw
  else if t.isCommand "\\begin" then .begins
  else .plain

/-- The phase behind a token. What does not go on as expected is taken as it is. -/
def next (g : Grammar) : Phase → Token → Phase
  | .plain, t => behind g t
  | .delimiter, t => if isDelimiter g t then .plain else behind g t
  | .raw, t => if t.isOpenBrace then .body 0 else behind g t
  | .body depth, t =>
    if t.isOpenBrace then .body (depth + 1)
    else if t.isCloseBrace then
      match depth with
      | 0 => .plain
      | depth + 1 => .body depth
    else .body depth
  | .begins, t => if t.isOpenBrace then .name [] else behind g t
  | .name pieces, t =>
    if t.isCloseBrace then
      if (environmentOf g pieces).takesArgument then .raw else .plain
    else if isNamePiece t then .name (pieces ++ t.value)
    else behind g t

/-- Whether a token is deleted: as a delimiter or as a part of a raw group. -/
def deletes (g : Grammar) : Phase → Token → Bool
  | .delimiter, t => isDelimiter g t
  | .body 0, t => !t.isCloseBrace
  | .body _, _ => true
  | _, _ => false

/-- Whether a token opens a raw group. -/
def opensRaw : Phase → Token → Bool
  | .raw, t => t.isOpenBrace
  | _, _ => false

end Phase

/-- The tokens without the bodies of raw groups and without the delimiters behind commands that take
one. -/
def outline (g : Grammar) : Phase → List Token → List Token
  | _, [] => []
  | p, t :: rest =>
    if p.deletes g t then outline g (p.next g t) rest else t :: outline g (p.next g t) rest

/-- The tokens up to the brace that closes a raw group, in which so many further braces are open. -/
def rawBody : (depth : Nat) → List Token → List Token
  | _, [] => []
  | depth, t :: rest =>
    if t.isOpenBrace then t :: rawBody (depth + 1) rest
    else if t.isCloseBrace then
      match depth with
      | 0 => []
      | depth + 1 => t :: rawBody depth rest
    else t :: rawBody depth rest

/-- The bodies of the raw groups. -/
def rawBodies (g : Grammar) : Phase → List Token → List (List Token)
  | _, [] => []
  | p, t :: rest =>
    if p.opensRaw t then rawBody 0 rest :: rawBodies g (p.next g t) rest
    else rawBodies g (p.next g t) rest

/-- Properly nested tokens of an outline. -/
inductive WellNested (g : Grammar) : List Token → Prop where
  | nil : WellNested g []
  | other {t : Token} {w : List Token} : role g t ∈ [Role.plain, .sizes, .foreign] →
      WellNested g w → WellNested g (t :: w)
  | braces {o c : Token} {u w : List Token} : role g o = .openBrace → WellNested g u →
      role g c = .closeBrace → WellNested g w → WellNested g (o :: (u ++ c :: w))
  | brackets {o c : Token} {u w : List Token} : role g o = .openBracket → WellNested g u →
      role g c = .closeBracket → WellNested g w → WellNested g (o :: (u ++ c :: w))
  | pair {l r : Token} {u w : List Token} : role g l = .left → WellNested g u →
      role g r = .right → WellNested g w → WellNested g (l :: (u ++ r :: w))
  | environment {b e : Token} {n n' u w : List Token} {name : Text} : role g b = .begins →
      NameGroup n name → WellNested g u → role g e = .ends → NameGroup n' name →
      WellNested g w → WellNested g (b :: (n ++ (u ++ e :: (n' ++ w))))

namespace WellNested

theorem append (hu : WellNested g u) (hv : WellNested g v) : WellNested g (u ++ v) := by
  induction hu with
  | nil => exact hv
  | other ht _ ih => exact .other ht ih
  | braces ho hu hc _ _ ih => simpa using WellNested.braces ho hu hc ih
  | brackets ho hu hc _ _ ih => simpa using WellNested.brackets ho hu hc ih
  | pair hl hu hr _ _ ih => simpa using WellNested.pair hl hu hr ih
  | environment hb hn hu he hn' _ _ ih => simpa using WellNested.environment hb hn hu he hn' ih

theorem single (ht : role g t ∈ [Role.plain, .sizes, .foreign]) : WellNested g [t] :=
  .other ht .nil

end WellNested

/-! ## Phases behind tokens -/

/-- The part in the nesting of a command with the given reading. -/
def Reading.role : Reading → Role
  | .delimiter _ => .sizes
  | .leftRight => .left
  | _ => .plain

/-- The phase behind a command with the given reading. -/
def Reading.phase : Reading → Phase
  | .raw _ => .raw
  | .delimiter _ | .leftRight => .delimiter
  | _ => .plain

theorem role_of_reading (hg : s.grammar.Regular) (ht : t.kind = .command) {m : Command}
    (hm : s.grammar.commands.get? t.value = some m) (hr : ∀ e, reading s t m ≠ .refused e) :
    role s.grammar t = (reading s t m).role := by
  by_cases hn : nests m = true
  · cases m with
    | left => exact role_command_left hg ht hm
    | middle => exact role_command_sizes hg ht hm (Or.inl rfl)
    | sized size => exact role_command_sizes hg ht hm (Or.inr ⟨size, rfl⟩)
    | beginEnvironment => exact absurd rfl (hr _)
    | closer => exact absurd rfl (hr _)
    | _ => cases hn
  · have hplain : role s.grammar t = .plain := by
      refine role_command_plain hg ht fun m' hm' => ?_
      rw [hm] at hm'
      cases hm'
      exact Bool.not_eq_true _ ▸ hn
    rw [hplain]
    cases m with
    | left => exact absurd rfl hn
    | middle => exact absurd rfl hn
    | sized size => exact absurd rfl hn
    | _ => rfl

theorem behind_of_role (h : role g t ∈ [Role.left, .right, .sizes]) :
    Phase.behind g t = .delimiter := by
  have htakes : takesDelimiter g t = true := List.contains_iff_mem.mpr h
  simp [Phase.behind, htakes]

/-- Behind a token that takes nothing all goes on as it is. -/
theorem behind_plain (h : role g t ∉ [Role.left, .right, .sizes, .begins])
    (hraw : readsRaw g t = false) : Phase.behind g t = .plain := by
  have htakes : takesDelimiter g t = false := by
    rw [takesDelimiter, ← Bool.not_eq_true, List.contains_iff_mem]
    intro hmem
    exact h (List.mem_append_left [Role.begins] hmem)
  have hbegin : t.isCommand "\\begin" = false := by
    rw [← Bool.not_eq_true, isBegin_iff g]
    intro hrole
    simp [hrole] at h
  simp [Phase.behind, htakes, hraw, hbegin]

theorem readsRaw_of_kind (h : t.kind ≠ .command) : readsRaw g t = false := by
  simp [readsRaw, h]

theorem readsRaw_of_reading (ht : t.kind = .command) {m : Command}
    (hm : s.grammar.commands.get? t.value = some m) :
    readsRaw s.grammar t = true ↔ ∃ build, reading s t m = .raw build := by
  cases m <;> simp [readsRaw, ht, hm, reading]

theorem behind_of_reading (hg : s.grammar.Regular) (ht : t.kind = .command) {m : Command}
    (hm : s.grammar.commands.get? t.value = some m) (hr : ∀ e, reading s t m ≠ .refused e) :
    Phase.behind s.grammar t = (reading s t m).phase := by
  have hrole := role_of_reading hg ht hm hr
  have hraw := readsRaw_of_reading (s := s) ht hm
  cases hread : reading s t m with
  | delimiter build => exact behind_of_role (by simp [hrole, hread, Reading.role])
  | leftRight => exact behind_of_role (by simp [hrole, hread, Reading.role])
  | raw build =>
    have htakes : takesDelimiter s.grammar t = false := by
      simp [takesDelimiter, hrole, hread, Reading.role]
    simp [Phase.behind, Reading.phase, htakes, hraw.mpr ⟨build, hread⟩]
  | _ =>
    refine behind_plain (by simp [hrole, hread, Reading.role]) ?_
    rw [← Bool.not_eq_true, hraw, hread]
    rintro ⟨build, h⟩
    cases h

theorem behind_of_begins (hg : g.Regular) (h : role g t = .begins) :
    Phase.behind g t = .begins := by
  have hbegin := (isBegin_iff g).mpr h
  obtain ⟨hk, hv⟩ := Token.is_iff.mp hbegin
  have hraw : readsRaw g t = false := by simp [readsRaw, hg.get?_eq_beginEnvironment_iff.mpr hv]
  have htakes : takesDelimiter g t = false := by simp [takesDelimiter, h]
  simp [Phase.behind, htakes, hraw, hbegin]

theorem behind_of_ends (hg : g.Regular) (h : role g t = .ends) : Phase.behind g t = .plain := by
  obtain ⟨hk, hv⟩ := Token.is_iff.mp ((isEnd_iff g).mpr h)
  refine behind_plain (by rw [h]; decide) ?_
  simp [readsRaw, hg.get?_eq_closer_iff.mpr (Or.inl hv)]

/-! ## Runs of the outline -/

/-- In front of its closing brace stands the body of a raw group. -/
theorem rawBody_append {c : Token} (h : braceLevel d w = some 0) (hc : c.isCloseBrace = true)
    (rest : List Token) : rawBody d (w ++ c :: rest) = w := by
  fun_induction braceLevel d w with
  | case1 d =>
    cases h
    simp [rawBody, not_isOpenBrace_of_isCloseBrace hc, hc]
  | case2 d t w ho ih => simp [rawBody, ho, ih h]
  | case3 => cases h
  | case4 t w ho hc' d ih => simp [rawBody, ho, hc', ih h]
  | case5 d t w ho hc' ih => simp [rawBody, ho, hc', ih h]

/-- The outline goes over the tokens `w` from one phase to another; it keeps the tokens `kept` and
finds the bodies `bodies` of raw groups. -/
def Scans (g : Grammar) (p : Phase) (w : List Token) (q : Phase) (kept : List Token)
    (bodies : List (List Token)) : Prop :=
  ∀ rest, outline g p (w ++ rest) = kept ++ outline g q rest ∧
    rawBodies g p (w ++ rest) = bodies ++ rawBodies g q rest

namespace Scans

variable {p q r : Phase} {kept kept' : List Token} {bodies bodies' : List (List Token)}

theorem nil : Scans g p [] p [] [] := fun _ => ⟨rfl, rfl⟩

theorem append (hu : Scans g p u q kept bodies) (hv : Scans g q v r kept' bodies') :
    Scans g p (u ++ v) r (kept ++ kept') (bodies ++ bodies') := by
  intro rest
  obtain ⟨hu1, hu2⟩ := hu (v ++ rest)
  obtain ⟨hv1, hv2⟩ := hv rest
  rw [List.append_assoc, hu1, hu2, hv1, hv2, List.append_assoc, List.append_assoc]
  exact ⟨rfl, rfl⟩

theorem keeps (hd : p.deletes g t = false) (ho : p.opensRaw t = false) :
    Scans g p [t] (p.next g t) [t] [] := by
  intro rest
  simp [outline, rawBodies, hd, ho]

theorem deletes (hd : p.deletes g t = true) (ho : p.opensRaw t = false) :
    Scans g p [t] (p.next g t) [] [] := by
  intro rest
  simp [outline, rawBodies, hd, ho]

/-- A token that is taken as it is. -/
theorem plain (h : Phase.behind g t = q) : Scans g .plain [t] q [t] [] := by
  subst h
  exact keeps rfl rfl

/-- Inside a raw group all is deleted and only the level counts. -/
theorem body (h : braceLevel d w = some e) : Scans g (.body d) w (.body e) [] [] := by
  have inner : ∀ {t depth}, t.isCloseBrace = false →
      Scans g (.body depth) [t] (Phase.next g (.body depth) t) [] [] := by
    intro t depth hc
    refine deletes ?_ rfl
    cases depth <;> simp [Phase.deletes, hc]
  fun_induction braceLevel d w with
  | case1 d =>
    cases h
    exact nil
  | case2 d t w ho ih =>
    have hc : t.isCloseBrace = false := by
      by_contra hc
      rw [not_isOpenBrace_of_isCloseBrace (Bool.not_eq_false _ ▸ hc)] at ho
      cases ho
    have hnext : Phase.next g (.body d) t = .body (d + 1) := by simp [Phase.next, ho]
    exact (hnext ▸ inner hc).append (ih h)
  | case3 => cases h
  | case4 t w ho hc d ih =>
    have hnext : Phase.next g (.body (d + 1)) t = .body d := by simp [Phase.next, ho, hc]
    have hstep : Scans g (.body (d + 1)) [t] _ [] [] := deletes rfl rfl
    exact (hnext ▸ hstep).append (ih h)
  | case5 d t w ho hc ih =>
    have hnext : Phase.next g (.body d) t = .body d := by simp [Phase.next, ho, hc]
    exact (hnext ▸ inner (Bool.not_eq_true _ ▸ hc)).append (ih h)

/-- Of a raw group the braces stay. -/
theorem raw {o c : Token} (ho : o.isOpenBrace = true) (hw : Level w)
    (hc : c.isCloseBrace = true) : Scans g .raw (o :: (w ++ [c])) .plain [o, c] [w] := by
  intro rest
  have hopen : Phase.next g .raw o = .body 0 := by simp [Phase.next, ho]
  have hclose : Phase.next g (.body 0) c = .plain := by
    simp [Phase.next, not_isOpenBrace_of_isCloseBrace hc, hc]
  have hkeep : Scans g (.body 0) [c] _ [c] [] := keeps (by simp [Phase.deletes, hc]) rfl
  obtain ⟨houtline, hbodies⟩ := (body hw).append (hclose ▸ hkeep) rest
  have hrest : rawBody 0 (w ++ [c] ++ rest) = w := by
    rw [List.append_assoc]
    exact rawBody_append hw hc rest
  constructor
  · rw [List.cons_append, outline, hopen, houtline]
    rfl
  · rw [List.cons_append, rawBodies, hopen, hbodies, hrest]
    simp [Phase.opensRaw, ho]

/-- Where a delimiter might stand, a token that is none is taken as it is. -/
theorem of_not_isDelimiter (hd : isDelimiter g t = false)
    (h : Scans g .plain (t :: w) q kept bodies) : Scans g .delimiter (t :: w) q kept bodies := by
  have hnext : Phase.next g .delimiter t = Phase.next g .plain t := by simp [Phase.next, hd]
  intro rest
  obtain ⟨houtline, hbodies⟩ := h rest
  constructor
  · rw [← houtline, List.cons_append, outline, outline, hnext]
    simp [Phase.deletes, hd]
  · rw [← hbodies, List.cons_append, rawBodies, rawBodies, hnext]
    rfl

/-- A delimiter where one might stand. -/
theorem delimiter (hd : isDelimiter g t = true) : Scans g .delimiter [t] .plain [] [] := by
  have hnext : Phase.next g .delimiter t = .plain := by simp [Phase.next, hd]
  exact hnext ▸ deletes hd rfl

/-- The pieces of a name. -/
theorem pieces (h : ∀ x ∈ w, isNamePiece x = true) (before : Text) :
    Scans g (.name before) w (.name (before ++ (w.map Token.value).flatten)) w [] := by
  induction w generalizing before with
  | nil => simpa using nil (p := .name before)
  | cons x w ih =>
    have hx := h x List.mem_cons_self
    have hnext : Phase.next g (.name before) x = .name (before ++ x.value) := by
      simp [Phase.next, not_isCloseBrace_of_isNamePiece hx, hx]
    have hstep : Scans g (.name before) [x] _ [x] [] := keeps rfl rfl
    have hmore := ih (fun y hy => h y (List.mem_cons_of_mem _ hy)) (before ++ x.value)
    rw [List.map_cons, List.flatten_cons, ← List.append_assoc]
    exact (hnext ▸ hstep).append hmore

/-- The name of an environment that is begun. -/
theorem nameGroup {name : Text} (h : NameGroup w name) :
    Scans g .begins w (if (environmentOf g name).takesArgument then .raw else .plain) w [] := by
  obtain ⟨opening, run, closing, rfl, ho, _, hrun, hc, rfl⟩ := h
  have hopen : Phase.next g .begins opening = .name [] := by simp [Phase.next, ho]
  have hfirst : Scans g .begins [opening] _ [opening] [] := keeps rfl rfl
  have hlast : Scans g (.name ([] ++ (run.map Token.value).flatten)) [closing] _ [closing] [] :=
    keeps rfl rfl
  have hclose : Phase.next g (.name ([] ++ (run.map Token.value).flatten)) closing =
      if (environmentOf g (run.map Token.value).flatten).takesArgument then .raw else .plain := by
    simp [Phase.next, hc]
  simpa using (hopen ▸ hfirst).append ((pieces hrun []).append (hclose ▸ hlast))

end Scans

/-- A brace or bracket is taken as it is. -/
theorem scans_paired (ht : t.kind = .brace ∨ t.kind = .bracket) :
    Scans g .plain [t] .plain [t] [] := by
  have hcommand : t.kind ≠ .command := by rcases ht with h | h <;> simp [h]
  have hmarks : ∀ m ∈ marks, m.1.1 = .brace ∨ m.1.1 = .bracket →
      m.2 ∉ [Role.left, .right, .sizes, .begins] := by decide
  refine .plain (behind_plain ?_ (readsRaw_of_kind hcommand))
  rcases role_of_paired (g := g) ht with hr | ⟨m, hm, hk, hr⟩
  · rw [hr]
    decide
  · rw [← hr]
    exact hmarks m hm (by rw [hk]; exact ht)

theorem scans_forall (h : ∀ x ∈ w, Scans g .plain [x] .plain [x] []) :
    Scans g .plain w .plain w [] := by
  induction w with
  | nil => exact .nil
  | cons x w ih =>
    have hx := h x List.mem_cons_self
    exact hx.append (ih fun y hy => h y (List.mem_cons_of_mem _ hy))

/-- The name of an environment that ends is taken as it is. -/
theorem scans_nameGroup {name : Text} (h : NameGroup w name) : Scans g .plain w .plain w [] := by
  refine scans_forall fun x hx => ?_
  rcases h.mem hx with ho | hp | hc
  · exact scans_paired (Or.inl (Token.is_iff.mp ho).1)
  · simp only [isNamePiece, Bool.and_eq_true, decide_eq_true_eq] at hp
    have hrole : role g x = .plain := role_of_kind (by rw [hp.1]; decide)
    have hraw : readsRaw g x = false := readsRaw_of_kind (by rw [hp.1]; decide)
    exact .plain (behind_plain (by rw [hrole]; decide) hraw)
  · exact scans_paired (Or.inl (Token.is_iff.mp hc).1)

end MathMarkup.Parser
