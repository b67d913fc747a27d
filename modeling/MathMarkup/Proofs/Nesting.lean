import MathMarkup.Proofs.Parser.Outline
import MathMarkup.Proofs.Parser.Run

/-!
# Sources that parse are properly nested

If a source parses, its outline is well nested and the braces in each of its raw groups balance.

The tokens of every derivation nest (`Nests`): the outline goes over them from the plain phase to
the plain phase, and what it keeps on the way is well nested. This holds of the single tokens of a
derivation and goes over from the parts to the whole, by one case for each rule.
-/

namespace MathMarkup

namespace Parser

variable {g : Grammar} {s : Setup} {t : Token} {u v w : List Token}

/-! ## Tokens that nest -/

/-- The outline goes over the tokens from the plain phase back to it. What it keeps is well nested,
and the braces in the bodies of raw groups are at their level again. -/
structure Nests (g : Grammar) (w : List Token) : Prop where
  level : Level w
  scans : ∃ kept bodies, Scans g .plain w .plain kept bodies ∧ WellNested g kept ∧
    ∀ body ∈ bodies, Level body

namespace Nests

theorem nil : Nests g [] := ⟨.nil, [], [], .nil, .nil, by simp⟩

theorem append (hu : Nests g u) (hv : Nests g v) : Nests g (u ++ v) := by
  obtain ⟨kept, bodies, hscan, hnest, hlevel⟩ := hu.scans
  obtain ⟨kept', bodies', hscan', hnest', hlevel'⟩ := hv.scans
  refine ⟨hu.level.append hv.level, kept ++ kept', bodies ++ bodies', hscan.append hscan',
    hnest.append hnest', fun body hbody => ?_⟩
  rcases List.mem_append.mp hbody with h | h
  · exact hlevel body h
  · exact hlevel' body h

/-- A token that has no part in the nesting. -/
theorem token (hr : role g t = .plain) (hb : Phase.behind g t = .plain) : Nests g [t] where
  level := level_of_role (by rw [hr]; decide) (by rw [hr]; decide)
  scans := ⟨[t], [], .plain hb, .single (by rw [hr]; decide), by simp⟩

theorem of_kind (ht : t.kind ∉ [Token.Kind.command, .brace, .bracket]) : Nests g [t] := by
  have hrole := role_of_kind (g := g) ht
  refine token hrole (behind_plain (by rw [hrole]; decide) (readsRaw_of_kind ?_))
  intro hk
  simp [hk] at ht

/-- A group whose content nests. -/
theorem braces {o c : Token} (ho : o.isOpenBrace = true) (hu : Nests g u)
    (hc : c.isCloseBrace = true) : Nests g (o :: (u ++ [c])) := by
  obtain ⟨kept, bodies, hscan, hnest, hlevel⟩ := hu.scans
  have hopen := scans_paired (g := g) (Or.inl (Token.is_iff.mp ho).1)
  have hclose := scans_paired (g := g) (Or.inl (Token.is_iff.mp hc).1)
  refine ⟨.braces ho hu.level hc, _, _, hopen.append (hscan.append hclose),
    .braces ((isOpenBrace_iff g).mp ho) hnest ((isCloseBrace_iff g).mp hc) .nil, ?_⟩
  simpa using hlevel

/-- A group in brackets whose content nests. -/
theorem brackets {o c : Token} (ho : o.isOpenBracket = true) (hu : Nests g u)
    (hc : c.isCloseBracket = true) : Nests g (o :: (u ++ [c])) := by
  obtain ⟨kept, bodies, hscan, hnest, hlevel⟩ := hu.scans
  have hor := (isOpenBracket_iff g).mp ho
  have hcr := (isCloseBracket_iff g).mp hc
  have hopen := scans_paired (g := g) (Or.inr (Token.is_iff.mp ho).1)
  have hclose := scans_paired (g := g) (Or.inr (Token.is_iff.mp hc).1)
  have hol : Level [o] := level_of_role (g := g) (by rw [hor]; decide) (by rw [hor]; decide)
  have hcl : Level [c] := level_of_role (g := g) (by rw [hcr]; decide) (by rw [hcr]; decide)
  refine ⟨hol.append (hu.level.append hcl), _, _, hopen.append (hscan.append hclose),
    .brackets hor hnest hcr .nil, ?_⟩
  simpa using hlevel

/-- A command with the delimiter that it takes. -/
theorem sized (hg : g.Regular) {d : Token} (hr : role g t = .sizes) (hd : isDelimiter g d = true) :
    Nests g [t, d] := by
  have hl : Level [t] := level_of_role (g := g) (by rw [hr]; decide) (by rw [hr]; decide)
  have hb : Phase.behind g t = .delimiter := behind_of_role (by rw [hr]; decide)
  exact ⟨hl.append (level_of_isDelimiter hg hd), _, _, (Scans.plain hb).append (.delimiter hd),
    .single (by rw [hr]; decide), by simp⟩

/-- What stands between two delimiters. -/
theorem pair (hg : g.Regular) {l d r d' : Token} (hl : role g l = .left)
    (hd : isDelimiter g d = true) (hu : Nests g u) (hr : role g r = .right)
    (hd' : isDelimiter g d' = true) : Nests g (l :: d :: (u ++ [r, d'])) := by
  obtain ⟨kept, bodies, hscan, hnest, hlevel⟩ := hu.scans
  have hll : Level [l] := level_of_role (g := g) (by rw [hl]; decide) (by rw [hl]; decide)
  have hlr : Level [r] := level_of_role (g := g) (by rw [hr]; decide) (by rw [hr]; decide)
  have hopened := (Scans.plain (behind_of_role (by rw [hl]; decide))).append (.delimiter hd)
  have hclosed := (Scans.plain (behind_of_role (by rw [hr]; decide))).append (.delimiter hd')
  refine ⟨(hll.append (level_of_isDelimiter hg hd)).append
    (hu.level.append (hlr.append (level_of_isDelimiter hg hd'))), _, _,
    hopened.append (hscan.append hclosed), .pair hl hnest hr .nil, ?_⟩
  simpa using hlevel

/-- A command with the raw group that it reads. -/
theorem raw {o c : Token} (hr : role g t = .plain) (hb : Phase.behind g t = .raw)
    (ho : o.isOpenBrace = true) (hw : Level w) (hc : c.isCloseBrace = true) :
    Nests g (t :: o :: (w ++ [c])) := by
  have hl : Level [t] := level_of_role (g := g) (by rw [hr]; decide) (by rw [hr]; decide)
  refine ⟨hl.append (.braces ho hw hc), _, _, (Scans.plain hb).append (.raw ho hw hc),
    .other (by rw [hr]; decide) (.braces ((isOpenBrace_iff g).mp ho) .nil
      ((isCloseBrace_iff g).mp hc) .nil), ?_⟩
  simpa using hw

/-- An environment, of which the outline goes over the argument `a`. -/
theorem environment (hg : g.Regular) {b e : Token} {n n' a kept : List Token}
    {bodies : List (List Token)} {name : Text} (hb : role g b = .begins) (hn : NameGroup n name)
    (hla : Level a)
    (ha : Scans g (if (environmentOf g name).takesArgument then .raw else .plain) a .plain kept
      bodies) (hkept : WellNested g kept) (hbodies : ∀ body ∈ bodies, Level body)
    (hu : Nests g u) (he : role g e = .ends) (hn' : NameGroup n' name) :
    Nests g (b :: (n ++ (a ++ (u ++ e :: n')))) := by
  obtain ⟨kept', bodies', hscan, hnest, hlevel⟩ := hu.scans
  have hlb : Level [b] := level_of_role (g := g) (by rw [hb]; decide) (by rw [hb]; decide)
  have hle : Level [e] := level_of_role (g := g) (by rw [he]; decide) (by rw [he]; decide)
  have hbegin := behind_of_begins hg hb
  have hend := behind_of_ends hg he
  have hopened := (Scans.plain hbegin).append ((Scans.nameGroup hn).append ha)
  have hclosed := hscan.append ((Scans.plain hend).append (scans_nameGroup hn'))
  have hlevels := (hlb.append (hn.level.append hla)).append
    (hu.level.append (hle.append hn'.level))
  have hnested := WellNested.environment hb hn (hkept.append hnest) he hn' .nil
  refine ⟨by simpa using hlevels, _, _, by simpa using hopened.append hclosed,
    by simpa using hnested, fun body hbody => ?_⟩
  rcases List.mem_append.mp hbody with h | h
  · exact hbodies body h
  · exact hlevel body h

end Nests

/-! ## Derivations -/

/-- A group in braces whose content nests. -/
def GroupNests (g : Grammar) (w : List Token) : Prop :=
  ∃ o u c, w = o :: (u ++ [c]) ∧ o.isOpenBrace = true ∧ Nests g u ∧ c.isCloseBrace = true

theorem GroupNests.nests (h : GroupNests g w) : Nests g w := by
  obtain ⟨o, u, c, rfl, ho, hu, hc⟩ := h
  exact .braces ho hu hc

theorem RawGroup.exists_level {content : Text} (h : RawGroup s w content) :
    ∃ o u c, w = o :: (u ++ [c]) ∧ o.isOpenBrace = true ∧ Level u ∧ c.isCloseBrace = true := by
  obtain ⟨o, u, c, rfl, ho, hfound, _⟩ := h
  obtain ⟨hc, hu⟩ := braceLevel_of_closingBrace? hfound rfl
  exact ⟨o, u, c, rfl, ho, hu, hc⟩

/-- The outline goes over the argument of an environment, if there is one, as over a raw group. -/
theorem ArgumentGroup.scans {e : Environment} {argument : Text} (h : ArgumentGroup s e w argument) :
    ∃ kept bodies, Level w ∧
      Scans g (if e.takesArgument then .raw else .plain) w .plain kept bodies ∧
      WellNested g kept ∧ ∀ body ∈ bodies, Level body := by
  unfold ArgumentGroup at h
  split at h
  · next htakes =>
    obtain ⟨o, u, c, rfl, ho, hu, hc⟩ := h.exists_level
    refine ⟨[o, c], [u], .braces ho hu hc, ?_, .braces ((isOpenBrace_iff g).mp ho) .nil
      ((isCloseBrace_iff g).mp hc) .nil, by simpa using hu⟩
    rw [if_pos htakes]
    exact .raw ho hu hc
  · next htakes =>
    obtain ⟨rfl, -⟩ := h
    rw [if_neg htakes]
    exact ⟨_, _, .nil, .nil, .nil, by simp⟩

theorem nests_of_limits (hg : g.Regular) {movable : Bool} (h : limits? g t = some movable) :
    Nests g [t] := by
  have hrole := role_of_limits hg h
  have hraw : readsRaw g t = false := by
    unfold limits? at h
    split at h
    · split at h
      · next hget => simp [readsRaw, hget]
      · cases h
    · cases h
  exact .token hrole (behind_plain (by rw [hrole]; decide) hraw)

/-- The word between a degree and a radicand with the radicand. The word may have been made a
command that reads a raw group or takes a delimiter; the brace behind it is no delimiter. -/
theorem GroupNests.nests_of (ht : t.isCommand "\\of" = true)
    (h : GroupNests g w) : Nests g (t :: w) := by
  have hnests := h.nests
  obtain ⟨kept, bodies, hscan, hnest, hlevel⟩ := hnests.scans
  obtain ⟨o, u, c, rfl, ho, hu, hc⟩ := h
  have hd : isDelimiter g o = false := by
    simp [isDelimiter, (Token.is_iff.mp ho).1]
  rcases role_of (g := g) ht with hr | hr
  · by_cases hraw : readsRaw g t = true
    · have htakes : takesDelimiter g t = false := by simp [takesDelimiter, hr]
      exact .raw hr (by simp [Phase.behind, htakes, hraw]) ho hu.level hc
    · have hplain := behind_plain (g := g) (by rw [hr]; decide) (Bool.not_eq_true _ ▸ hraw)
      exact (Nests.token hr hplain).append hnests
  · have hl : Level [t] := level_of_role (g := g) (by rw [hr]; decide) (by rw [hr]; decide)
    have hb : Phase.behind g t = .delimiter := behind_of_role (by rw [hr]; decide)
    exact ⟨hl.append hnests.level, _, _, (Scans.plain hb).append (hscan.of_not_isDelimiter hd),
      .other (by rw [hr]; decide) hnest, hlevel⟩

/-- What the tokens of a derivation are like: a group has its content between two braces. -/
def Form.Nests (g : Grammar) (w : List Token) : Form → Prop
  | .group _ => GroupNests g w
  | _ => Parser.Nests g w

/-- The tokens of every derivation nest. -/
theorem Derives.nests (hg : s.grammar.Regular) {form : Form} (h : Derives s w form) :
    form.Nests s.grammar w := by
  -- A command that takes nothing by itself nests as a single token.
  have alone : ∀ {t m}, t.kind = .command → s.grammar.commands.get? t.value = some m →
      (∀ e, reading s t m ≠ .refused e) → (reading s t m).phase = .plain →
      (reading s t m).role = .plain → Parser.Nests s.grammar [t] := by
    intro t m ht hm hr hphase hrole
    exact .token (by rw [role_of_reading hg ht hm hr, hrole])
      (by rw [behind_of_reading hg ht hm hr, hphase])
  induction h with
  | nothing => exact .nil
  | next _ _ ihu ihw => exact ihu.append ihw
  | script _ hscript _ _ ihu ihw =>
    refine ihu.append (Nests.append (u := [_]) (.of_kind ?_) ihw)
    rw [(Script.value_of_ofToken? hscript).1]
    decide
  | limits _ hlimits ihu => exact ihu.append (nests_of_limits hg hlimits)
  | group ho _ hc ih => exact ⟨_, _, _, rfl, ho, ih, hc⟩
  | brackets ho _ hc ih => exact .brackets ho ih hc
  | absent => exact .nil
  | present _ ih => exact ih
  | symbol ht => exact .of_kind (by rw [ht]; decide)
  | number ht => exact .of_kind (by rw [ht]; decide)
  | text ht => exact .of_kind (by rw [ht]; decide)
  | braced _ ih => exact ih.nests
  | bracketed _ ih => exact ih
  | unknown ht hm =>
    have hrole := role_command_plain hg ht (by simp [hm])
    exact .token hrole (behind_plain (by rw [hrole]; decide) (by simp [readsRaw, hm]))
  | plain ht hm hr => exact alone ht hm (by simp [hr]) (by rw [hr]; rfl) (by rw [hr]; rfl)
  | raw ht hm hr hraw =>
    obtain ⟨o, u, c, rfl, ho, hu, hc⟩ := hraw.exists_level
    refine .raw ?_ ?_ ho hu hc
    · rw [role_of_reading hg ht hm (by simp [hr]), hr]
      rfl
    · rw [behind_of_reading hg ht hm (by simp [hr]), hr]
      rfl
  | one ht hm hr _ ih =>
    have hcommand := alone ht hm (by simp [hr]) (by rw [hr]; rfl) (by rw [hr]; rfl)
    exact hcommand.append ih.nests
  | two ht hm hr _ _ ihv ihw =>
    have hcommand := alone ht hm (by simp [hr]) (by rw [hr]; rfl) (by rw [hr]; rfl)
    exact hcommand.append (ihv.nests.append ihw.nests)
  | delimiter ht hm hr hd =>
    refine .sized hg ?_ (isDelimiter_of_delimiter? hd)
    rw [role_of_reading hg ht hm (by simp [hr]), hr]
    rfl
  | squareRoot ht hm hr _ _ ihv ihw =>
    have hcommand := alone ht hm (by simp [hr]) (by rw [hr]; rfl) (by rw [hr]; rfl)
    exact hcommand.append (ihv.append ihw.nests)
  | root ht hm hr _ hof _ ihu ihw =>
    have hcommand := alone ht hm (by simp [hr]) (by rw [hr]; rfl) (by rw [hr]; rfl)
    rcases hof with rfl | ⟨of, rfl, hof⟩
    · exact hcommand.append (ihu.nests.append ihw.nests)
    · exact hcommand.append (ihu.nests.append (ihw.nests_of hof))
  | leftRight ht hm hr hd _ hright hd' ih =>
    refine .pair hg ?_ (isDelimiter_of_delimiter? hd) ih ((isRight_iff _).mp hright)
      (isDelimiter_of_delimiter? hd')
    rw [role_of_reading hg ht hm (by simp [hr]), hr]
    rfl
  | firstCell _ ih => exact ih
  | nextCell _ hsep _ ihu ihw =>
    refine ihu.append (Nests.append (u := [_]) (.of_kind ?_) ihw)
    rw [(Token.is_iff.mp hsep).1]
    decide
  | nextRow _ hsep _ _ ihu ihv ihw =>
    obtain ⟨ht, hv⟩ := Token.is_iff.mp hsep
    have hbreak := alone ht (hg.get?_eq_lineBreak_iff.mpr hv) (by simp [reading]) rfl rfl
    exact ihu.append (hbreak.append (ihv.append ihw))
  | flow _ _ ih => exact ih
  | grid _ _ ih => exact ih
  | environment hb hn ha _ he hn' ih =>
    obtain ⟨kept, bodies, hla, hscan, hkept, hbodies⟩ := ha.scans
    exact .environment hg ((isBegin_iff _).mp hb) hn hla hscan hkept hbodies ih
      ((isEnd_iff _).mp he) hn'
  | placed _ ih => exact ih
  | group_script _ ih => exact ih.nests
  | atom_script _ _ ih => exact ih

/-- The tokens of a source that parses nest. -/
theorem nests_of_parse {symbols : Symbol.Table} {options : Options} {source : Text} {node : Node}
    (h : (parse (Grammar.ofSymbols symbols).value options source).value = .ok node) :
    Nests (Grammar.ofSymbols symbols).value (Token.tokenize source) := by
  obtain ⟨done, hd, -⟩ := derives_of_parse h
  exact hd.nests (Grammar.regular_ofSymbols symbols)

end Parser

/-- A source that parses is properly nested: without the bodies of raw groups and without the
delimiters behind commands that take one, its tokens are well nested, and in each of these bodies
the braces form a Dyck word. -/
theorem wellNested_of_parse (symbols : Symbol.Table) (options : Options) (source : Text)
    (node : Node) (h : (parse (Grammar.ofSymbols symbols).value options source).value = .ok node) :
    Parser.WellNested (Grammar.ofSymbols symbols).value
        (Parser.outline (Grammar.ofSymbols symbols).value .plain (Token.tokenize source)) ∧
      ∀ body ∈ Parser.rawBodies (Grammar.ofSymbols symbols).value .plain (Token.tokenize source),
        Parser.BracesBalance body := by
  obtain ⟨done, hd, -⟩ := Parser.derives_of_parse h
  have hnests : Parser.Nests (Grammar.ofSymbols symbols).value (Token.tokenize source) :=
    hd.nests (Grammar.regular_ofSymbols symbols)
  obtain ⟨kept, bodies, hscan, hnest, hlevel⟩ := hnests.scans
  obtain ⟨houtline, hbodies⟩ := hscan []
  simp only [List.append_nil, Parser.outline, Parser.rawBodies] at houtline hbodies
  rw [houtline, hbodies]
  exact ⟨hnest, fun body hbody => (hlevel body hbody).bracesBalance⟩

/-- A raw group with braces in it, of which the braces around it stay, and a bracket for a
delimiter. -/
theorem wellNested_of_parse_operatorName :
    (parse (Grammar.ofSymbols ⟨fun _ => []⟩).value {}
      "\\left[\\operatorname\x7b\x7b[\x7d\x7d\\right)").value =
      .ok (.row [Parser.fenceNode "[", .identifier "\x7b[\x7d", Parser.fenceNode ")"]) ∧
    (Parser.outline (Grammar.ofSymbols ⟨fun _ => []⟩).value .plain
      (Token.tokenize "\\left[\\operatorname\x7b\x7b[\x7d\x7d\\right)")).map Token.value =
      ["\\left", "\\operatorname", "\x7b", "\x7d", "\\right"] ∧
    (Parser.rawBodies (Grammar.ofSymbols ⟨fun _ => []⟩).value .plain
      (Token.tokenize "\\left[\\operatorname\x7b\x7b[\x7d\x7d\\right)")).map
        (List.map Token.value) = [(["\x7b", "[", "\x7d"] : List Text)] ∧
    Parser.WellNested (Grammar.ofSymbols ⟨fun _ => []⟩).value
      (Parser.outline (Grammar.ofSymbols ⟨fun _ => []⟩).value .plain
        (Token.tokenize "\\left[\\operatorname\x7b\x7b[\x7d\x7d\\right)")) ∧
    ∀ body ∈ Parser.rawBodies (Grammar.ofSymbols ⟨fun _ => []⟩).value .plain
        (Token.tokenize "\\left[\\operatorname\x7b\x7b[\x7d\x7d\\right)"),
      Parser.BracesBalance body := by
  have hparse : (parse (Grammar.ofSymbols ⟨fun _ => []⟩).value {}
      "\\left[\\operatorname\x7b\x7b[\x7d\x7d\\right)").value =
      .ok (.row [Parser.fenceNode "[", .identifier "\x7b[\x7d", Parser.fenceNode ")"]) := by
    rw [Grammar.ofSymbols_nil]
    decide +kernel
  refine ⟨hparse, ?_, ?_, wellNested_of_parse _ _ _ _ hparse⟩
  · rw [Grammar.ofSymbols_nil]
    decide +kernel
  · rw [Grammar.ofSymbols_nil]
    decide +kernel

end MathMarkup
