import MathMarkup.Proofs.InputCheck.Braces
import MathMarkup.Proofs.Parser.Outline

/-!
# The brackets that the check of a source sees

If the tokens of a source are balanced, so are the brackets that count for the check of the source,
unless an information separator stands between a sized command and its bracket: the lexer takes it
for a blank and the check does not, so that the check counts this bracket
(`InputCheck.not_reports_bracket_heads`).
-/

namespace MathMarkup

/-! ## Sized commands -/

namespace Command

theorem nodup_keys_delimiterSizes :
    ((ofCategory .default .delimiterSizes).map Prod.fst).Nodup := by
  have hkeys : (ofCategory .default .delimiterSizes).map Prod.fst =
      (Symbol.Default.delimiterSizes.map Prod.fst).map Text.ofString := rfl
  rw [hkeys]
  exact List.Nodup.map (fun _ _ => Text.ofString_inj.mp) (by simp [Symbol.Default.delimiterSizes])

/-- The commands of sizes are entered last, so no other symbol takes their names. -/
theorem get?_delimiterSizes {name size : Text}
    (h : (name, size) ∈ Symbol.Category.defaults .delimiterSizes) :
    (table .default).get? name = some (.sized size) := by
  have hstructural : structural.get? name = none := by
    have hall : ∀ x ∈ Symbol.Default.delimiterSizes,
        structural.get? (Text.ofString x.1) = none := by
      simp [Symbol.Default.delimiterSizes, structural, Assoc.get?]
    obtain ⟨x, hx, heq⟩ := List.mem_map.mp h
    rw [← (Prod.mk.inj heq).1]
    exact hall x hx
  have hget : Assoc.get? name (ofCategory .default .delimiterSizes).reverse =
      some (.sized size) := by
    rw [Assoc.get?_reverse nodup_keys_delimiterSizes,
      Assoc.get?_eq_some_iff nodup_keys_delimiterSizes]
    exact List.mem_filterMap.mpr ⟨(name, size), h, rfl⟩
  have horder : categoryOrder = categoryOrder.dropLast ++ [.delimiterSizes] := rfl
  rw [get?_table, hstructural, Option.none_or, horder, List.flatMap_append, List.reverse_append,
    Assoc.get?_append, List.flatMap_singleton, hget]
  rfl

theorem mem_delimiterSizes {name size : Text}
    (h : (table .default).get? name = some (.sized size)) :
    (name, size) ∈ Symbol.Category.defaults .delimiterSizes := by
  rw [get?_table] at h
  rcases Option.or_eq_some_iff.mp h with h | ⟨-, h⟩
  · have hall : ∀ e ∈ structural, ∀ size, e.2 ≠ .sized size := by
      simp [structural]
    exact absurd rfl (hall _ (Assoc.mem_of_get? h) size)
  · obtain ⟨category, -, hc⟩ := List.mem_flatMap.mp (List.mem_reverse.mp (Assoc.mem_of_get? h))
    obtain ⟨e, he, hd⟩ := List.mem_filterMap.mp hc
    obtain ⟨c, hc, heq⟩ := Option.map_eq_some_iff.mp hd
    cases heq
    cases category <;> cases hc
    exact he

end Command

namespace Parser

theorem sizes_cases {g : Grammar} {t : Token} (h : role g t = .sizes) :
    t.isCommand "\\middle" = true ∨ isSized g t = true := by
  unfold role at h
  split at h
  · next r hget =>
    have hmem := Assoc.mem_of_get? hget
    rw [h] at hmem
    have hkey : (t.kind, t.value) = (.command, Text.ofString "\\middle") := by
      simpa [marks] using hmem
    exact Or.inl (Token.is_iff.mpr (Prod.mk.inj hkey))
  · split_ifs at h with hpaired hsized
    exact Or.inr hsized

theorem mem_delimiterSizes_of_isSized {t : Token}
    (h : isSized (Grammar.ofSymbols .default).value t = true) :
    ∃ size, (t.value, size) ∈ Symbol.Category.defaults .delimiterSizes := by
  simp only [isSized, Bool.and_eq_true, decide_eq_true_eq] at h
  obtain ⟨-, hsized⟩ := h
  split at hsized
  · next size hget =>
    rw [Grammar.commands_ofSymbols] at hget
    exact ⟨size, Command.mem_delimiterSizes hget⟩
  · cases hsized

end Parser

namespace InputCheck

variable {source : Text} {t : Token}

/-- The names of commands that take a delimiter are `left`, `right`, `middle` and, by default, those
of the sizes. -/
theorem sizedCommands_cases {name : Text} (h : name ∈ sizedCommands) :
    name ∈ (["left", "right", "middle"] : List Text) ∨
      ∃ size, (.scalar '\\' :: name, size) ∈ Symbol.Category.defaults .delimiterSizes := by
  have hnames : ∀ name ∈ sizedCommands, name ∈ (["left", "right", "middle"] : List Text) ∨
      .scalar '\\' :: name ∈ (Symbol.Category.defaults .delimiterSizes).map Prod.fst := by
    decide +kernel
  refine (hnames name h).imp_right fun hmem => ?_
  obtain ⟨⟨_, size⟩, he, rfl⟩ := List.mem_map.mp hmem
  exact ⟨size, he⟩

theorem tail_mem_sizedCommands {name size : Text}
    (h : (name, size) ∈ Symbol.Category.defaults .delimiterSizes) :
    sizedCommands.contains name.tail = true := by
  have hall : ∀ e ∈ Symbol.Category.defaults .delimiterSizes,
      sizedCommands.contains e.1.tail = true := by
    decide +kernel
  exact hall _ h

theorem takesDelimiter_iff {g : Grammar} : Parser.takesDelimiter g t = true ↔
    t.isCommand "\\left" = true ∨ t.isCommand "\\right" = true ∨
      Parser.role g t = .sizes := by
  rw [Parser.isLeft_iff g, Parser.isRight_iff g, Parser.takesDelimiter, List.contains_iff_mem]
  simp

theorem takesDelimiter_of_isSizedCommand (ht : t ∈ Token.tokenize source)
    (h : isSizedCommand t = true) :
    Parser.takesDelimiter (Grammar.ofSymbols .default).value t = true := by
  have hg := Grammar.regular_ofSymbols .default
  simp only [isSizedCommand, Bool.and_eq_true, decide_eq_true_eq] at h
  obtain ⟨hkind, hsized⟩ := h
  obtain ⟨name, hvalue⟩ : ∃ name, t.value = .scalar '\\' :: name := by
    have hstart := (Token.startsWith_backslash_iff ht).mpr hkind
    obtain ⟨name, hname⟩ := List.isPrefixOf_iff_prefix.mp hstart
    exact ⟨name, hname.symm⟩
  rw [hvalue, List.tail_cons, List.contains_iff_mem] at hsized
  rw [takesDelimiter_iff]
  rcases sizedCommands_cases hsized with hmem | ⟨size, he⟩
  · simp only [List.mem_cons, List.not_mem_nil, or_false] at hmem
    rcases hmem with rfl | rfl | rfl
    · exact Or.inl (Token.is_iff.mpr ⟨hkind, hvalue⟩)
    · exact Or.inr (Or.inl (Token.is_iff.mpr ⟨hkind, hvalue⟩))
    · have hget := hg.get?_eq_middle_iff.mpr hvalue
      exact Or.inr (Or.inr (Parser.role_command_sizes hg hkind hget (Or.inl rfl)))
  · have hget : (Grammar.ofSymbols .default).value.commands.get? t.value = some (.sized size) := by
      rw [Grammar.commands_ofSymbols, hvalue]
      exact Command.get?_delimiterSizes he
    exact Or.inr (Or.inr (Parser.role_command_sizes hg hkind hget (Or.inr ⟨size, rfl⟩)))

theorem isSizedCommand_of_isCommand {name : Text} (h : t.isCommand name = true)
    (hname : sizedCommands.contains name.tail = true) : isSizedCommand t = true := by
  obtain ⟨hkind, rfl⟩ := Token.is_iff.mp h
  rw [isSizedCommand, hname, hkind]
  rfl

theorem isSizedCommand_of_takesDelimiter
    (h : Parser.takesDelimiter (Grammar.ofSymbols .default).value t = true) :
    isSizedCommand t = true := by
  rcases takesDelimiter_iff.mp h with h | h | h
  · exact isSizedCommand_of_isCommand h (by decide)
  · exact isSizedCommand_of_isCommand h (by decide)
  · rcases Parser.sizes_cases h with h | h
    · exact isSizedCommand_of_isCommand h (by decide)
    · have hkind : t.kind = .command := by
        simp only [Parser.isSized, Bool.and_eq_true, decide_eq_true_eq] at h
        exact h.1
      obtain ⟨size, hmem⟩ := Parser.mem_delimiterSizes_of_isSized h
      exact isSizedCommand_of_isCommand (Token.is_iff.mpr ⟨hkind, rfl⟩)
        (tail_mem_sizedCommands hmem)

/-- By default the commands that take a delimiter are those whose delimiter does not count. -/
theorem isSizedCommand_eq (ht : t ∈ Token.tokenize source) :
    isSizedCommand t = Parser.takesDelimiter (Grammar.ofSymbols .default).value t :=
  Bool.eq_iff_iff.mpr ⟨takesDelimiter_of_isSizedCommand ht, isSizedCommand_of_takesDelimiter⟩

theorem isSizedCommand_of_kind (hkind : t.kind ≠ .command) : isSizedCommand t = false := by
  simp [isSizedCommand, hkind]

theorem isSizedCommand_of_isDelimiter {g : Grammar} (hg : g.Regular)
    (hsizes : isSizedCommand t = Parser.takesDelimiter g t) (ht : Parser.isDelimiter g t = true) :
    isSizedCommand t = false := by
  by_cases hkind : t.kind = .command
  · rw [hsizes, Parser.takesDelimiter]
    simp only [Parser.isDelimiter, hkind] at ht
    split at ht
    · next value hget =>
      have hrole := Parser.role_command_plain hg hkind fun m hm => by
        rw [hget] at hm
        cases hm
        rfl
      rw [hrole]
      decide
    · cases ht
  · exact isSizedCommand_of_kind hkind

/-- An information separator parts a sized command from its bracket. -/
def PartsSized (source : Text) : Prop :=
  ∃ s d, isSizedCommand s = true ∧ d.kind = .bracket ∧ Parted source s d

/-! ## Balanced tokens -/

/-- The brackets among the tokens that count make up a Dyck word, and the tokens do not end with a
sized command. -/
def Even (source : Text) (w : List Token) : Prop :=
  ∀ (before : Option Token) (rest : List Token), (∀ s ∈ before, isSizedCommand s = false) →
    ∃ (after : Option Token) (d : DyckWord), (∀ s ∈ after, isSizedCommand s = false) ∧
      (counted source before (w ++ rest)).filterMap (Mark.step? .bracket) =
        d.toList ++ (counted source after rest).filterMap (Mark.step? .bracket)

namespace Even

variable {u v w : List Token} {o c s d : Token}

theorem nil : Even source [] := fun before _ hbefore => ⟨before, 0, hbefore, rfl⟩

theorem append (hu : Even source u) (hv : Even source v) : Even source (u ++ v) := by
  intro before rest hbefore
  obtain ⟨between, p, hbetween, hp⟩ := hu before (v ++ rest) hbefore
  obtain ⟨after, q, hafter, hq⟩ := hv between rest hbetween
  refine ⟨after, p + q, hafter, ?_⟩
  rw [List.append_assoc, hp, hq, ← List.append_assoc]
  rfl

theorem steps_cons {before : Option Token} (hbefore : ∀ s ∈ before, isSizedCommand s = false)
    (rest : List Token) :
    (counted source before (t :: rest)).filterMap (Mark.step? .bracket) =
      (tokenMark? t).toList.filterMap (Mark.step? .bracket) ++
        (counted source (some t) rest).filterMap (Mark.step? .bracket) := by
  rw [counted_cons fun s hs => isSizedBy_of_not_isSizedCommand (hbefore s hs),
    List.filterMap_append]

theorem steps_of_kind (ht : t ∈ Token.tokenize source) (hkind : t.kind ≠ .bracket) :
    (tokenMark? t).toList.filterMap (Mark.step? .bracket) = [] := by
  rw [List.filterMap_eq_nil_iff]
  intro m hm
  refine if_neg fun hp => ?_
  rw [kind_of_tokenMark? ht (Option.mem_toList.mp hm), hp] at hkind
  exact hkind rfl

/-- A token that is no bracket and takes no delimiter. -/
theorem token (ht : t ∈ Token.tokenize source) (hkind : t.kind ≠ .bracket)
    (hsized : isSizedCommand t = false) : Even source [t] := by
  intro before rest hbefore
  refine ⟨some t, 0, by simpa using hsized, ?_⟩
  rw [List.singleton_append, steps_cons hbefore, steps_of_kind ht hkind]
  rfl

theorem brackets (ho : o.isOpenBracket = true) (hu : Even source u) (hc : c.isCloseBracket = true) :
    Even source (o :: (u ++ [c])) := by
  obtain ⟨hokind, hovalue⟩ := Token.is_iff.mp ho
  obtain ⟨hckind, hcvalue⟩ := Token.is_iff.mp hc
  intro before rest hbefore
  obtain ⟨between, p, hbetween, hp⟩ := hu (some o) (c :: rest) (by simp [isSizedCommand, hokind])
  refine ⟨some c, p.nest, by simp [isSizedCommand, hckind], ?_⟩
  have hopen : (tokenMark? o).toList.filterMap (Mark.step? .bracket) = [.U] := by
    rw [tokenMark?, hovalue]
    rfl
  have hclose : (tokenMark? c).toList.filterMap (Mark.step? .bracket) = [.D] := by
    rw [tokenMark?, hcvalue]
    rfl
  rw [List.cons_append, List.append_assoc, List.singleton_append, steps_cons hbefore, hopen, hp,
    steps_cons hbetween, hclose, DyckWord.nest]
  simp

/-- A sized command with its delimiter, which counts for nothing or is no bracket. -/
theorem sized (hs : s ∈ Token.tokenize source) (hd : d ∈ Token.tokenize source)
    (hcommand : isSizedCommand s = true) (hplain : isSizedCommand d = false)
    (hgap : d.kind = .bracket → ∀ b ∈ gapBetween source s d, b.isSpace = true) :
    Even source [s, d] := by
  intro before rest hbefore
  refine ⟨some d, 0, by simpa using hplain, ?_⟩
  have hkind : s.kind ≠ .bracket := by
    simp only [isSizedCommand, Bool.and_eq_true, decide_eq_true_eq] at hcommand
    rw [hcommand.1]
    decide
  rw [List.cons_append, List.singleton_append, steps_cons hbefore, steps_of_kind hs hkind,
    List.nil_append]
  by_cases hbracket : d.kind = .bracket
  · have hdelimiter : isSizedDelimiter d = true := by
      rw [isSizedDelimiter_iff]
      rcases Token.isBracket_of_mem_tokenize hd hbracket with h | h
      · exact ⟨_, by decide, (Token.is_iff.mp h).2⟩
      · exact ⟨_, by decide, (Token.is_iff.mp h).2⟩
    rw [counted_cons_sized]
    · rfl
    · simp [isSizedBy, hcommand, hdelimiter, List.all_eq_true.mpr (hgap hbracket)]
  · rw [counted]
    split
    · rfl
    · rw [List.filterMap_append, steps_of_kind hd hbracket]
      rfl

theorem names {name : Text} (h : Parser.NameGroup w name) (hw : w ⊆ Token.tokenize source) :
    Even source w := by
  have hall : ∀ x ∈ w, x.kind ≠ .command ∧ x.kind ≠ .bracket := fun _ hx => h.kind_of_mem hx
  clear h
  induction w with
  | nil => exact nil
  | cons x w ih =>
    obtain ⟨hcommand, hbracket⟩ := hall x List.mem_cons_self
    exact append (token (hw List.mem_cons_self) hbracket (isSizedCommand_of_kind hcommand))
      (ih (fun y hy => hw (List.mem_cons_of_mem _ hy))
        fun y hy => hall y (List.mem_cons_of_mem _ hy))

section Roles

variable {g : Grammar} (hg : g.Regular)
  (hsizes : ∀ t ∈ Token.tokenize source, isSizedCommand t = Parser.takesDelimiter g t)

include hsizes in
/-- A token that is no bracket to the parser and takes no delimiter. -/
theorem single (ht : t ∈ Token.tokenize source)
    (hrole : Parser.role g t ∉ [.left, .right, .sizes, .openBracket, .closeBracket]) :
    Even source [t] := by
  refine token ht (fun hkind => ?_) ?_
  · rcases Token.isBracket_of_mem_tokenize ht hkind with h | h
    · simp [(Parser.isOpenBracket_iff g).mp h] at hrole
    · simp [(Parser.isCloseBracket_iff g).mp h] at hrole
  · rw [hsizes t ht, Parser.takesDelimiter, ← Bool.not_eq_true, List.contains_iff_mem]
    exact fun h => hrole (List.mem_append_left [Parser.Role.openBracket, .closeBracket] h)

include hg hsizes in
/-- A token that takes a delimiter, and its delimiter. -/
theorem taking (hparted : ¬ PartsSized source) (hsd : [s, d] <:+: Token.tokenize source)
    (hrole : Parser.role g s ∈ [.left, .right, .sizes]) (hd : Parser.isDelimiter g d = true) :
    Even source [s, d] := by
  have hs := hsd.subset List.mem_cons_self
  have hd' := hsd.subset (List.mem_cons_of_mem _ List.mem_cons_self)
  have hcommand : isSizedCommand s = true := by
    rw [hsizes s hs, Parser.takesDelimiter, List.contains_iff_mem]
    exact hrole
  refine sized hs hd' hcommand (isSizedCommand_of_isDelimiter hg (hsizes d hd') hd)
    fun hbracket b hb => ?_
  by_contra hspace
  exact hparted ⟨s, d, hcommand, hbracket, hsd, b, hb, by simpa using hspace⟩

include hg hsizes in
/-- The brackets of balanced tokens are even, if no sized command is parted from its bracket. -/
theorem of_balanced (hparted : ¬ PartsSized source) (h : Parser.Balanced g w)
    (hw : w <:+: Token.tokenize source) : Even source w := by
  have head : ∀ {t v}, t :: v <:+: Token.tokenize source → t ∈ Token.tokenize source :=
    fun hv => hv.subset List.mem_cons_self
  have heads : ∀ {s d v}, s :: d :: v <:+: Token.tokenize source →
      [s, d] <:+: Token.tokenize source := fun {s d v} hv => List.IsInfix.left (u := [s, d]) hv
  -- No rule ends with a sized command, so the parts of a word do not interfere.
  induction h with
  | nil => exact nil
  | plain ht _ ih =>
    exact append (single hsizes (head hw) (by rw [ht]; decide)) (ih hw.tail)
  | braces ho _ hc _ ihu ihw =>
    have hopen := single hsizes (head hw) (by rw [ho]; decide)
    have hclose := single hsizes (head hw.tail.right) (by rw [hc]; decide)
    exact append hopen (append (ihu hw.tail.left) (append hclose (ihw hw.tail.right.tail)))
  | brackets ho _ hc _ ihu ihw =>
    have hinside := brackets ((Parser.isOpenBracket_iff g).mpr ho) (ihu hw.tail.left)
      ((Parser.isCloseBracket_iff g).mpr hc)
    simpa using append hinside (ihw hw.tail.right.tail)
  | pair hl hd _ hr hd' _ ihu ihw =>
    have hclosing := hw.tail.tail.right
    have hleft := taking hg hsizes hparted (heads hw) (by rw [hl]; decide) hd
    have hright := taking hg hsizes hparted (heads hclosing) (by rw [hr]; decide) hd'
    exact append hleft (append (ihu hw.tail.tail.left) (append hright (ihw hclosing.tail.tail)))
  | sized ht hd _ ih =>
    have htaken := taking hg hsizes hparted (heads hw) (by rw [ht]; decide) hd
    exact append htaken (ih hw.tail.tail)
  | environment hb hn _ he hn' _ ihu ihw =>
    have hbody := hw.tail.right
    have hclosing := hbody.right
    have hbegin := single hsizes (head hw) (by rw [hb]; decide)
    have hend := single hsizes (head hclosing) (by rw [he]; decide)
    have hopened := append hbegin (names hn hw.tail.left.subset)
    have hclosed := append hend (names hn' hclosing.tail.left.subset)
    have hall := append (append hopened (append (ihu hbody.left) hclosed))
      (ihw hclosing.tail.right)
    simpa using hall

end Roles

end Even

/-- Nothing is reported about the brackets of a balanced source, unless an information separator
parts a sized command from its bracket. -/
theorem not_reports_bracket_heads {g : Grammar} (hg : g.Regular)
    (hsizes : ∀ t ∈ Token.tokenize source, isSizedCommand t = Parser.takesDelimiter g t)
    (hparted : ¬ PartsSized source) (h : Parser.Balanced g (Token.tokenize source))
    (limit : Number) :
    ¬ Reports (check limit (.text source)) Pair.bracket.heads := by
  obtain ⟨after, d, -, hsteps⟩ :=
    Even.of_balanced hg hsizes hparted h (List.infix_refl _) none [] (by simp)
  rw [not_reports_heads_iff, marks_eq_counted, ← Parser.exists_dyckWord_iff]
  refine ⟨d, ?_⟩
  rw [List.append_nil] at hsteps
  rw [hsteps]
  exact (List.append_nil _).symm

end InputCheck

end MathMarkup
