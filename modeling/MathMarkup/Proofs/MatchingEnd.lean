import Mathlib.Data.List.TakeWhile
import MathMarkup.Proofs.Parser.Lookahead
import MathMarkup.Proofs.Scoping

/-!
# The end that belongs to an environment

The tags among tokens are the `\begin` and `\end` with a name in braces behind them. The end of an
environment is the `\end` of its name up to which the tags form a Dyck word in which both tags of a
pair bear one name; there is at most one (`EnvTag.Ends`). The scan for it finds exactly this tag,
and where there is none it blames the innermost environment that is open where the tags go wrong
(`EnvTag.Fails`).

Going over the tags the scan keeps a stack of open environments. Over a Dyck word it comes back with
the stack that it had, and over tags that leave environments open it has these on top
(`EnvTag.LeavesOpen`). Every list of tags comes to one of three stops: it ends, or the next tag ends
the environment that is looked for, or the next tag ends another one than the innermost.
-/

namespace MathMarkup.Parser

/-! ## Tags -/

/-- A `\begin` or an `\end` with the name in braces behind it, and its position. -/
structure EnvTag where
  begins : Bool
  name : Text
  token : Token
  position : Nat
deriving DecidableEq, Repr

/-- The name in braces at the start of the tokens: a run of pieces between two braces. -/
def nameAt? : List Token → Option Text
  | [] => none
  | opening :: rest =>
    let pieces := rest.takeWhile isNamePiece
    if opening.isOpenBrace ∧ pieces ≠ [] ∧
        (rest.dropWhile isNamePiece).head?.any Token.isCloseBrace then
      some (pieces.map Token.value).flatten
    else none

/-- The tag that a token makes with the tokens behind it. -/
def envTagAt? (position : Nat) (t : Token) (rest : List Token) : Option EnvTag :=
  if t.isCommand "\\begin" || t.isCommand "\\end" then
    (nameAt? rest).map fun name => ⟨t.isCommand "\\begin", name, t, position⟩
  else none

/-- The tags among the tokens, of which the first stands at the given position. -/
def envTags : (position : Nat) → List Token → List EnvTag
  | _, [] => []
  | position, t :: rest => (envTagAt? position t rest).toList ++ envTags (position + 1) rest

variable {w u v : List Token} {name : Text} {t : Token}

theorem nameAt?_eq_some_iff :
    nameAt? w = some name ↔ ∃ n rest, w = n ++ rest ∧ NameGroup n name := by
  constructor
  · intro h
    cases w with
    | nil => cases h
    | cons opening rest =>
      simp only [nameAt?] at h
      split at h
      · next hname =>
        obtain ⟨hopen, hpieces, hclose⟩ := hname
        cases h
        obtain ⟨closing, hhead, hclosing⟩ := (Option.any_eq_true _ _).mp hclose
        obtain ⟨behind, hdrop⟩ := List.head?_eq_some_iff.mp hhead
        have hrest := List.takeWhile_append_dropWhile (p := isNamePiece) (l := rest)
        refine ⟨opening :: (rest.takeWhile isNamePiece ++ [closing]), behind, ?_, opening, _,
          closing, rfl, hopen, hpieces, fun _ => List.mem_takeWhile_imp, hclosing, rfl⟩
        rw [hdrop] at hrest
        simpa using hrest.symm
      · cases h
  · rintro ⟨n, rest, rfl, opening, pieces, closing, rfl, ho, hne, hpieces, hc, rfl⟩
    have hstop : ¬ isNamePiece closing = true := by
      intro hpiece
      rw [not_isCloseBrace_of_isNamePiece hpiece] at hc
      cases hc
    have hrun : (pieces ++ closing :: rest).takeWhile isNamePiece = pieces := by
      rw [List.takeWhile_append_of_pos hpieces, List.takeWhile_cons_of_neg hstop, List.append_nil]
    have hbehind : (pieces ++ closing :: rest).dropWhile isNamePiece = closing :: rest := by
      rw [List.dropWhile_append_of_pos hpieces, List.dropWhile_cons_of_neg hstop]
    simp [nameAt?, ho, hne, hrun, hbehind, hc]

/-- The scan sees the same names. -/
theorem scanName?_map_fst (w : List Token) : (scanName? w).map Prod.fst = nameAt? w := by
  refine Option.ext fun name => ?_
  rw [nameAt?_eq_some_iff]
  constructor
  · intro h
    obtain ⟨⟨_, n⟩, hscan, rfl⟩ := Option.map_eq_some_iff.mp h
    obtain ⟨u, rest, hw, -, hname⟩ := scanName?_eq_some_iff.mp hscan
    exact ⟨u, rest, hw, hname⟩
  · rintro ⟨n, rest, rfl, hname⟩
    rw [hname.scanName?]
    rfl

theorem envTagAt?_eq_some_iff {position : Nat} {T : EnvTag} :
    envTagAt? position t w = some T ↔ T.token = t ∧ T.position = position ∧
      (∃ n rest, w = n ++ rest ∧ NameGroup n T.name) ∧
      (T.begins = true ∧ t.isCommand "\\begin" = true ∨
        T.begins = false ∧ t.isCommand "\\end" = true) := by
  have hboth : t.isCommand "\\end" = true → t.isCommand "\\begin" = false := by
    intro he
    have hne : Text.ofString "\\end" ≠ Text.ofString "\\begin" := by decide
    simp [Token.isCommand, Token.is, (Token.is_iff.mp he).2, hne]
  obtain ⟨begins, name, token, place⟩ := T
  simp only [envTagAt?, ← nameAt?_eq_some_iff]
  by_cases hb : t.isCommand "\\begin" = true <;> by_cases he : t.isCommand "\\end" = true <;>
    grind [Option.map_eq_some_iff]

/-- What the tags among the tokens are. -/
theorem mem_envTags_iff {position : Nat} {T : EnvTag} :
    T ∈ envTags position w ↔ ∃ before n after, w = before ++ T.token :: (n ++ after) ∧
      T.position = position + before.length ∧ NameGroup n T.name ∧
      (T.begins = true ∧ T.token.isCommand "\\begin" = true ∨
        T.begins = false ∧ T.token.isCommand "\\end" = true) := by
  induction w generalizing position with
  | nil => simp [envTags]
  | cons t w ih =>
    rw [envTags, List.mem_append, Option.mem_toList, envTagAt?_eq_some_iff, ih]
    constructor
    · rintro (⟨htoken, hposition, ⟨n, rest, rfl, hname⟩, hkind⟩ |
        ⟨before, n, after, rfl, hposition, hname, hkind⟩)
      · exact ⟨[], n, rest, by rw [htoken]; rfl, hposition, hname, htoken ▸ hkind⟩
      · refine ⟨t :: before, n, after, rfl, ?_, hname, hkind⟩
        rw [hposition, List.length_cons]
        omega
    · rintro ⟨before, n, after, hw, hposition, hname, hkind⟩
      cases before with
      | nil =>
        obtain ⟨rfl, rfl⟩ := List.cons.inj hw
        exact Or.inl ⟨rfl, hposition, ⟨n, after, rfl, hname⟩, hkind⟩
      | cons x before =>
        obtain ⟨rfl, rfl⟩ := List.cons.inj hw
        refine Or.inr ⟨before, n, after, rfl, ?_, hname, hkind⟩
        rw [hposition, List.length_cons]
        omega

namespace EnvTag

variable {T b e : EnvTag} {tags : List EnvTag}

/-! ## Dyck words of tags -/

/-- The tags form a Dyck word, in which both tags of a pair bear one name. -/
inductive Dyck : List EnvTag → Prop where
  | nil : Dyck []
  | pair {b e : EnvTag} {u v : List EnvTag} : b.begins = true → Dyck u → e.begins = false →
      e.name = b.name → Dyck v → Dyck (b :: (u ++ e :: v))

/-- The tags form a Dyck word, but for the environments that they leave open, innermost first. -/
inductive LeavesOpen : List EnvTag → List EnvTag → Prop where
  | none {u : List EnvTag} : Dyck u → LeavesOpen u []
  | begun {u v outer : List EnvTag} {b : EnvTag} : LeavesOpen u outer → b.begins = true → Dyck v →
      LeavesOpen (u ++ b :: v) (b :: outer)

/-- The tag ends the environment `name`: it is the `\end` with this name up to which the tags form
a Dyck word. -/
def Ends (name : Text) (tags : List EnvTag) (T : EnvTag) : Prop :=
  ∃ before after, tags = before ++ T :: after ∧ Dyck before ∧ T.begins = false ∧ T.name = name

/-- The innermost environment with the token that begins it. The environment `name` itself is around
all others. -/
def innermost (name : Text) (opening : Token) : List EnvTag → Text × Token
  | [] => (name, opening)
  | b :: _ => (b.name, b.token)

/-- The tags do not end the environment `name`: they go on to a place where they end, or where an
`\end` does not fit the innermost environment that is open there. The error names this environment
and where it is begun. -/
def Fails (name : Text) (opening : Token) (tags : List EnvTag) (error : ParseError) : Prop :=
  ∃ before outer inner begun, LeavesOpen before outer ∧
    innermost name opening outer = (inner, begun) ∧
    ((tags = before ∧ error = .named (.neverClosed inner begun.offset) inner begun) ∨
      ∃ T after, tags = before ++ T :: after ∧ T.begins = false ∧ T.name ≠ inner ∧
        error = .named (.closedBy inner begun.offset T.name) inner begun)

theorem Dyck.append {u v : List EnvTag} (hu : Dyck u) (hv : Dyck v) : Dyck (u ++ v) := by
  induction hu with
  | nil => exact hv
  | pair hb hu he hname _ _ ih => simpa using Dyck.pair hb hu he hname ih

namespace LeavesOpen

variable {u v outer : List EnvTag}

theorem append_dyck (hu : LeavesOpen u outer) (hv : Dyck v) : LeavesOpen (u ++ v) outer := by
  cases hu with
  | none hu => exact .none (hu.append hv)
  | begun hu hb hw => simpa using LeavesOpen.begun hu hb (hw.append hv)

/-- An environment is begun. -/
theorem snoc_begin (hu : LeavesOpen u outer) (hb : b.begins = true) :
    LeavesOpen (u ++ [b]) (b :: outer) :=
  .begun hu hb .nil

/-- The innermost environment is ended. -/
theorem snoc_end (hu : LeavesOpen u (b :: outer)) (he : e.begins = false)
    (hname : e.name = b.name) : LeavesOpen (u ++ [e]) outer := by
  cases hu with
  | begun hu hb hv => simpa using hu.append_dyck (Dyck.pair hb hv he hname .nil)

end LeavesOpen

/-- Going over tags one comes to their end, or to one that ends the environment `name`, or to one
that does not fit. -/
theorem exists_stop (name : Text) (opening : Token) (tags : List EnvTag) :
    ∃ before outer, LeavesOpen before outer ∧ (tags = before ∨ ∃ T after,
      tags = before ++ T :: after ∧ T.begins = false ∧
        (outer = [] ∧ T.name = name ∨ T.name ≠ (innermost name opening outer).1)) := by
  induction tags using List.reverseRecOn with
  | nil => exact ⟨[], [], .none .nil, Or.inl rfl⟩
  | append_singleton tags T ih =>
    obtain ⟨before, outer, hopen, rfl | ⟨T', after, rfl, hstop⟩⟩ := ih
    · cases hT : T.begins with
      | true => exact ⟨_, _, hopen.snoc_begin hT, Or.inl rfl⟩
      | false =>
        by_cases hfits : T.name = (innermost name opening outer).1
        · cases outer with
          | nil => exact ⟨tags, [], hopen, Or.inr ⟨T, [], rfl, hT, Or.inl ⟨rfl, hfits⟩⟩⟩
          | cons b outer => exact ⟨_, outer, hopen.snoc_end hT hfits, Or.inl rfl⟩
        · exact ⟨tags, outer, hopen, Or.inr ⟨T, [], rfl, hT, Or.inr hfits⟩⟩
    · exact ⟨before, outer, hopen, Or.inr ⟨T', after ++ [T], by simp, hstop⟩⟩

/-! ## The scan -/

/-- The scan for the end of an environment, over tags. -/
def scan (name : Text) (opening : Token) :
    (outer : List EnvTag) → List EnvTag → Except ParseError (Nat × Token)
  | outer, [] =>
    let (inner, begun) := innermost name opening outer
    .error (.named (.neverClosed inner begun.offset) inner begun)
  | outer, T :: rest =>
    let (inner, begun) := innermost name opening outer
    if T.begins then scan name opening (T :: outer) rest
    else if T.name = inner then
      match outer with
      | [] => .ok (T.position, T.token)
      | _ :: outer => scan name opening outer rest
    else .error (.named (.closedBy inner begun.offset T.name) inner begun)

variable {name : Text} {opening : Token} {u v outer rest : List EnvTag}

theorem scan_begin (hT : T.begins = true) :
    scan name opening outer (T :: rest) = scan name opening (T :: outer) rest := by
  cases outer <;> simp [scan, hT]

theorem scan_end (he : e.begins = false) (hname : e.name = b.name) :
    scan name opening (b :: outer) (e :: rest) = scan name opening outer rest := by
  simp [scan, innermost, he, hname]

theorem scan_found (hT : T.begins = false) (hname : T.name = name) :
    scan name opening [] (T :: rest) = .ok (T.position, T.token) := by
  simp [scan, innermost, hT, hname]

theorem scan_nil {inner : Text} {begun : Token}
    (hinner : innermost name opening outer = (inner, begun)) :
    scan name opening outer [] = .error (.named (.neverClosed inner begun.offset) inner begun) := by
  cases outer <;> simp [scan, hinner]

theorem scan_misfit {inner : Text} {begun : Token}
    (hinner : innermost name opening outer = (inner, begun)) (hT : T.begins = false)
    (hname : T.name ≠ inner) :
    scan name opening outer (T :: rest) =
      .error (.named (.closedBy inner begun.offset T.name) inner begun) := by
  cases outer <;> simp [scan, hinner, hT, hname]

theorem Dyck.scan_append (hu : Dyck u) (outer v : List EnvTag) :
    scan name opening outer (u ++ v) = scan name opening outer v := by
  induction hu generalizing outer v with
  | nil => rfl
  | pair hb _ he hname _ ihu ihw =>
    rw [List.cons_append, List.append_assoc, List.cons_append, scan_begin hb, ihu,
      scan_end he hname, ihw]

theorem LeavesOpen.scan_append (hu : LeavesOpen u outer) (v : List EnvTag) :
    scan name opening [] (u ++ v) = scan name opening outer v := by
  induction hu generalizing v with
  | none hu => exact hu.scan_append [] v
  | begun _ hb hw ih => rw [List.append_assoc, ih, List.cons_append, scan_begin hb, hw.scan_append]

theorem scan_of_fails {error : ParseError} (h : Fails name opening tags error) :
    scan name opening [] tags = .error error := by
  obtain ⟨before, outer, inner, begun, hopen, hinner,
    ⟨rfl, rfl⟩ | ⟨T, after, rfl, hT, hname, rfl⟩⟩ := h
  · have hscan : scan name opening [] (tags ++ []) = scan name opening outer [] :=
      hopen.scan_append []
    rw [List.append_nil] at hscan
    rw [hscan, scan_nil hinner]
  · rw [hopen.scan_append, scan_misfit hinner hT hname]

theorem scan_of_ends (opening : Token) (h : Ends name tags T) :
    scan name opening [] tags = .ok (T.position, T.token) := by
  obtain ⟨before, after, rfl, hbefore, hT, hname⟩ := h
  rw [hbefore.scan_append, scan_found hT hname]

/-- The tags end the environment or they do not. -/
theorem ends_or_fails (name : Text) (opening : Token) (tags : List EnvTag) :
    (∃ T, Ends name tags T) ∨ ∃ error, Fails name opening tags error := by
  obtain ⟨before, outer, hopen, rfl | ⟨T, after, rfl, hT, ⟨rfl, hname⟩ | hname⟩⟩ :=
    exists_stop name opening tags
  · exact Or.inr ⟨_, tags, outer, _, _, hopen, rfl, Or.inl ⟨rfl, rfl⟩⟩
  · cases hopen with
    | none hbefore => exact Or.inl ⟨T, before, after, rfl, hbefore, hT, hname⟩
  · exact Or.inr ⟨_, before, outer, _, _, hopen, rfl, Or.inr ⟨T, after, rfl, hT, hname, rfl⟩⟩

/-- The scan finds the tag that ends the environment. -/
theorem scan_eq_ok_iff {stop : Nat} {closing : Token} :
    scan name opening [] tags = .ok (stop, closing) ↔
      ∃ T, Ends name tags T ∧ T.position = stop ∧ T.token = closing := by
  constructor
  · intro h
    rcases ends_or_fails name opening tags with ⟨T, hT⟩ | ⟨error, hfails⟩
    · rw [scan_of_ends opening hT] at h
      cases h
      exact ⟨T, hT, rfl, rfl⟩
    · rw [scan_of_fails hfails] at h
      cases h
  · rintro ⟨T, hT, rfl, rfl⟩
    exact scan_of_ends opening hT

theorem scan_eq_error_iff {error : ParseError} :
    scan name opening [] tags = .error error ↔ Fails name opening tags error := by
  refine ⟨fun h => ?_, scan_of_fails⟩
  rcases ends_or_fails name opening tags with ⟨T, hT⟩ | ⟨error', hfails⟩
  · rw [scan_of_ends opening hT] at h
    cases h
  · rw [scan_of_fails hfails] at h
    cases h
    exact hfails

/-- At most one tag ends an environment. -/
theorem Ends.unique {T' : EnvTag} (h : Ends name tags T) (h' : Ends name tags T') : T = T' := by
  have hsame := (scan_of_ends T.token h).symm.trans (scan_of_ends T.token h')
  obtain ⟨-, -, -, -, hT, hname⟩ := h
  obtain ⟨-, -, -, -, hT', hname'⟩ := h'
  obtain ⟨_, _, _, _⟩ := T
  obtain ⟨_, _, _, _⟩ := T'
  simp_all

end EnvTag

/-! ## The scan over tokens -/

/-- The scan over tokens is that over their tags. -/
theorem findEnd_eq_scan (name : Text) (opening : Token) (outer : List EnvTag) (position : Nat)
    (w : List Token) :
    findEnd name opening (outer.map fun b => (b.name, b.token)) position w =
      EnvTag.scan name opening outer (envTags position w) := by
  induction w generalizing outer position with
  | nil => cases outer <;> rfl
  | cons t w ih =>
    -- A token that makes no tag is passed over.
    have skip (hnone : envTagAt? position t w = none)
        (hfind : ∀ inner, findEnd name opening inner position (t :: w) =
          findEnd name opening inner (position + 1) w) :
        findEnd name opening (outer.map fun b => (b.name, b.token)) position (t :: w) =
          EnvTag.scan name opening outer (envTags position (t :: w)) := by
      rw [hfind, ih, envTags, hnone, Option.toList_none, List.nil_append]
    have hname := scanName?_map_fst w
    by_cases hb : t.isCommand "\\begin" = true
    · cases hscan : scanName? w with
      | none =>
        rw [hscan, Option.map_none] at hname
        exact skip (by simp [envTagAt?, ← hname]) fun inner => by
          cases inner <;> simp [findEnd, hb, hscan]
      | some found =>
        rw [hscan, Option.map_some] at hname
        have htag : envTagAt? position t w = some ⟨true, found.1, t, position⟩ := by
          simp [envTagAt?, hb, ← hname]
        rw [envTags, htag, Option.toList_some, List.singleton_append, EnvTag.scan_begin rfl, ← ih]
        cases outer <;> simp [findEnd, hb, hscan]
    · by_cases he : t.isCommand "\\end" = true
      · cases hscan : scanName? w with
        | none =>
          rw [hscan, Option.map_none] at hname
          exact skip (by simp [envTagAt?, ← hname]) fun inner => by
            cases inner <;> simp [findEnd, hb, he, hscan]
        | some found =>
          rw [hscan, Option.map_some] at hname
          have htag : envTagAt? position t w = some ⟨false, found.1, t, position⟩ := by
            simp [envTagAt?, hb, he, ← hname]
          rw [envTags, htag, Option.toList_some, List.singleton_append]
          cases outer with
          | nil =>
            by_cases hfits : found.1 = name <;>
              simp [findEnd, EnvTag.scan, EnvTag.innermost, hb, he, hscan, hfits]
          | cons b outer =>
            by_cases hfits : found.1 = b.name <;>
              simp [findEnd, EnvTag.scan, EnvTag.innermost, hb, he, hscan, hfits, ih]
      · exact skip (by simp [envTagAt?, hb, he]) fun inner => by
          cases inner <;> simp [findEnd, hb, he]

/-- An environment ends behind the name of the tag that ends it. -/
theorem ends_of_run_environment {s : Setup} {c c' : Cursor} {node : Node}
    (h : (Entry.environment.run s).run c = .ok node c') :
    ∃ b n name body before T group, c.rest = b :: (n ++ body) ∧ b.isCommand "\\begin" = true ∧
      NameGroup n name ∧ EnvTag.Ends name (envTags (c.position + 1 + n.length) body) T ∧
      body = before ++ T.token :: (group ++ c'.rest) ∧
      T.position = c.position + 1 + n.length + before.length ∧ NameGroup group name ∧
      c'.position = T.position + 1 + group.length := by
  obtain ⟨b, n, name, a, u, e, group, argument, hb, hname, hfind, -, -, hgroup, hw⟩ :=
    outcome_ok (Outcome.get_bind (gives_environment (follows_inside s (allowance s c)) c)) h
  have hscan := findEnd_eq_scan name b [] (c.position + 1 + n.length)
    (a ++ (u ++ e :: (group ++ c'.rest)))
  rw [List.map_nil, hfind] at hscan
  obtain ⟨T, hT, hposition, rfl⟩ := EnvTag.scan_eq_ok_iff.mp hscan.symm
  refine ⟨b, n, name, _, a ++ u, T, group, ?_, hb, hname, hT, by simp, hposition, hgroup, ?_⟩
  · rw [hw.rest]
    simp
  · rw [hw.position, hposition]
    simp only [List.length_cons, List.length_append]
    omega

/-- The scan for the end of an environment finds the balanced one. It gives a tag exactly if this
ends the environment: if it is an `\end` of the name up to which the tags form a Dyck word with one
name in each pair. There is at most one such tag. Otherwise the scan fails, at the first `\end` that
does not fit or at the end of the input, and blames the innermost environment that is open there. An
environment that is read ends behind the closing brace of the tag that is found. -/
theorem findEnd_matching (name : Text) (opening : Token) (position : Nat) (tokens : List Token) :
    (∀ stop closing, findEnd name opening [] position tokens = .ok (stop, closing) ↔
      ∃ T, EnvTag.Ends name (envTags position tokens) T ∧ T.position = stop ∧ T.token = closing) ∧
    (∀ T T', EnvTag.Ends name (envTags position tokens) T →
      EnvTag.Ends name (envTags position tokens) T' → T = T') ∧
    (∀ error, findEnd name opening [] position tokens = .error error ↔
      EnvTag.Fails name opening (envTags position tokens) error) ∧
    (∀ error, EnvTag.Fails name opening (envTags position tokens) error →
      error.diagnostic.kind = .unmatchedEnvironment ∧ ∃ before outer,
        EnvTag.LeavesOpen before outer ∧ before <+: envTags position tokens ∧
        error.diagnostic.text = (EnvTag.innermost name opening outer).1 ∧
        error.diagnostic.offset = some (EnvTag.innermost name opening outer).2.offset) ∧
    ∀ (s : Setup) (c c' : Cursor) (node : Node), (Entry.environment.run s).run c = .ok node c' →
      ∃ b n name body before T group, c.rest = b :: (n ++ body) ∧ b.isCommand "\\begin" = true ∧
        NameGroup n name ∧ EnvTag.Ends name (envTags (c.position + 1 + n.length) body) T ∧
        body = before ++ T.token :: (group ++ c'.rest) ∧
        T.position = c.position + 1 + n.length + before.length ∧ NameGroup group name ∧
        c'.position = T.position + 1 + group.length := by
  have hscan := findEnd_eq_scan name opening [] position tokens
  rw [List.map_nil] at hscan
  rw [hscan]
  refine ⟨fun _ _ => EnvTag.scan_eq_ok_iff, fun _ _ => EnvTag.Ends.unique,
    fun _ => EnvTag.scan_eq_error_iff, ?_, fun _ _ _ _ => ends_of_run_environment⟩
  rintro error ⟨before, outer, inner, begun, hopen, hinner, hstop⟩
  have hprefix : before <+: envTags position tokens := by
    rcases hstop with ⟨htags, -⟩ | ⟨T, after, htags, -⟩
    · rw [htags]
    · exact ⟨T :: after, htags.symm⟩
  refine ⟨?_, before, outer, hopen, hprefix, ?_⟩
  · rcases hstop with ⟨-, rfl⟩ | ⟨_, _, -, -, -, rfl⟩ <;> rfl
  · rw [hinner]
    rcases hstop with ⟨-, rfl⟩ | ⟨_, _, -, -, -, rfl⟩ <;> exact ⟨rfl, rfl⟩

/-- A nested environment, and a `\begin` without a name, are passed over. An end that does not fit
the inner environment is blamed on it. -/
theorem findEnd_matching_nested :
    (∃ T, EnvTag.Ends "a" (envTags 4
        (Token.tokenize "\\begin\x7bb\x7d\\end\x7bb\x7d\\begin\\end\x7ba\x7d")) T ∧
      T.position = 13 ∧ ∀ T', EnvTag.Ends "a" (envTags 4
        (Token.tokenize "\\begin\x7bb\x7d\\end\x7bb\x7d\\begin\\end\x7ba\x7d")) T' → T = T') ∧
    (∃ error, findEnd "a" ⟨.command, "\\begin", {}⟩ [] 4
        (Token.tokenize "x\\begin\x7bb\x7d\\end\x7ba\x7d") = .error error ∧
      error.diagnostic.text = "b" ∧ error.diagnostic.offset = some 1 ∧
      error.diagnostic.kind = .unmatchedEnvironment ∧
      EnvTag.Fails "a" ⟨.command, "\\begin", {}⟩ (envTags 4
        (Token.tokenize "x\\begin\x7bb\x7d\\end\x7ba\x7d")) error) ∧
    ∃ node c', (Entry.environment.run ⟨(Grammar.ofSymbols ⟨fun _ => []⟩).value, {}, []⟩).run
        { rest := Token.tokenize <|
            "\\begin\x7ba\x7d\\begin\x7bb\x7dx\\end\x7bb\x7d\\end\x7ba\x7dy" } = .ok node c' ∧
      c'.position = 17 ∧ ∃ (T : EnvTag) (group : List Token), NameGroup group T.name ∧
        17 = T.position + 1 + group.length := by
  have hfound : findEnd "a" ⟨.command, "\\begin", {}⟩ [] 4
      (Token.tokenize "\\begin\x7bb\x7d\\end\x7bb\x7d\\begin\\end\x7ba\x7d") =
        .ok (13, ⟨.command, "\\end", ⟨22, 1, 23⟩⟩) := by
    decide +kernel
  have herror : findEnd "a" ⟨.command, "\\begin", {}⟩ [] 4
      (Token.tokenize "x\\begin\x7bb\x7d\\end\x7ba\x7d") =
        .error ⟨.closedBy "b" 1 "a", "b", some ⟨1, 1, 2⟩⟩ := by
    decide +kernel
  refine ⟨?_, ⟨_, herror, rfl, rfl, ?_⟩, ?_⟩
  · obtain ⟨hok, hunique, -⟩ := findEnd_matching "a" ⟨.command, "\\begin", {}⟩ 4
      (Token.tokenize "\\begin\x7bb\x7d\\end\x7bb\x7d\\begin\\end\x7ba\x7d")
    obtain ⟨T, hT, hposition, -⟩ := (hok _ _).mp hfound
    exact ⟨T, hT, hposition, fun T' => hunique T T' hT⟩
  · obtain ⟨-, -, hfails, hblame, -⟩ := findEnd_matching "a" ⟨.command, "\\begin", {}⟩ 4
      (Token.tokenize "x\\begin\x7bb\x7d\\end\x7ba\x7d")
    have h := (hfails _).mp herror
    exact ⟨(hblame _ h).1, h⟩
  · obtain ⟨node, c', hrun, hposition⟩ : ∃ node c', (Entry.environment.run
        ⟨(Grammar.ofSymbols ⟨fun _ => []⟩).value, {}, []⟩).run { rest := Token.tokenize <|
            "\\begin\x7ba\x7d\\begin\x7bb\x7dx\\end\x7bb\x7d\\end\x7ba\x7dy" } = .ok node c' ∧
        c'.position = 17 :=
      Outcome.exists_eq_ok (by
        rw [Grammar.ofSymbols_nil]
        decide +kernel)
    obtain ⟨-, -, -, -, henvironment⟩ := findEnd_matching [] ⟨.command, [], {}⟩ 0 []
    obtain ⟨-, -, name, -, -, T, group, -, -, -, ⟨-, -, -, -, -, rfl⟩, -, -, hgroup, hend⟩ :=
      henvironment _ _ _ _ hrun
    exact ⟨node, c', hrun, hposition, T, group, hgroup, hposition ▸ hend⟩

end MathMarkup.Parser
