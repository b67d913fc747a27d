import MathMarkup.Proofs.Location
import MathMarkup.Proofs.Parser.Outline

/-!
# Sources without raw groups

A source that parses is balanced if nothing of it is read as raw text
(`Parser.balanced_of_parse`). The tokens of every derivation are, by one case for each rule.
-/

namespace MathMarkup

namespace Parser

variable {g : Grammar} {s : Setup} {t : Token} {tokens u v w : List Token}

theorem Balanced.append (hu : Balanced g u) (hv : Balanced g v) : Balanced g (u ++ v) := by
  induction hu with
  | nil => exact hv
  | plain ht _ ih => exact .plain ht ih
  | braces ho hu hc _ _ ih => simpa using Balanced.braces ho hu hc ih
  | brackets ho hu hc _ _ ih => simpa using Balanced.brackets ho hu hc ih
  | pair hl hd hu hr hd' _ _ ih => simpa using Balanced.pair hl hd hu hr hd' ih
  | sized ht hd _ ih => exact .sized ht hd ih
  | environment hb hn hu he hn' _ _ ih => simpa using Balanced.environment hb hn hu he hn' ih

/-- Nothing among the tokens is read as raw text: there is no command that reads a raw group, and no
environment with an argument. -/
structure NoRaw (g : Grammar) (tokens : List Token) : Prop where
  raw : ∀ t ∈ tokens, readsRaw g t = false
  argument : ∀ name t, Begins tokens name t → (environmentOf g name).takesArgument = false

theorem NoRaw.mono (h : NoRaw g tokens) (hw : w <:+: tokens) : NoRaw g w where
  raw t ht := h.raw t (hw.subset ht)
  argument name t ht := h.argument name t (ht.mono hw)

theorem NoRaw.left (h : NoRaw g (v ++ w)) : NoRaw g v :=
  h.mono (List.prefix_append _ _).isInfix

theorem NoRaw.right (h : NoRaw g (v ++ w)) : NoRaw g w :=
  h.mono (List.suffix_append _ _).isInfix

theorem NoRaw.tail (h : NoRaw g (t :: w)) : NoRaw g w :=
  h.mono (List.suffix_cons _ _).isInfix

/-- A group in braces whose content is balanced. -/
def GroupBalances (g : Grammar) (w : List Token) : Prop :=
  ∃ o u c, w = o :: (u ++ [c]) ∧ role g o = .openBrace ∧ Balanced g u ∧ role g c = .closeBrace

theorem GroupBalances.balanced (h : GroupBalances g w) : Balanced g w := by
  obtain ⟨o, u, c, rfl, ho, hu, hc⟩ := h
  exact .braces ho hu hc .nil

/-- What the tokens of a derivation are like: a group has its content between two braces. -/
def Form.Balances (g : Grammar) (w : List Token) : Form → Prop
  | .group _ => GroupBalances g w
  | _ => Balanced g w

/-- The tokens of a derivation are balanced if there is nothing raw. The word between a degree and a
radicand has to be an ordinary one. -/
theorem Derives.balanced (hg : s.grammar.Regular)
    (hof : ∀ t, t.isCommand "\\of" = true → role s.grammar t = .plain) {form : Form}
    (h : Derives s w form) (hraw : NoRaw s.grammar w) : form.Balances s.grammar w := by
  have single : ∀ {t}, role s.grammar t = .plain → Balanced s.grammar [t] :=
    fun ht => .plain ht .nil
  have alone : ∀ {t m}, t.kind = .command → s.grammar.commands.get? t.value = some m →
      (∀ e, reading s t m ≠ .refused e) → (reading s t m).role = .plain →
      Balanced s.grammar [t] :=
    fun ht hm hr hrole => single ((role_of_reading hg ht hm hr).trans hrole)
  induction h with
  | nothing => exact .nil
  | next _ _ ihu ihw => exact (ihu hraw.left).append (ihw hraw.right)
  | script _ hscript _ _ ihu ihw =>
    exact (ihu hraw.left).append (.plain (role_of_script hscript) (ihw hraw.right.tail))
  | limits _ hlimits ihu =>
    exact (ihu hraw.left).append (single (role_of_limits hg hlimits))
  | group ho _ hc ih =>
    exact ⟨_, _, _, rfl, (isOpenBrace_iff _).mp ho, ih hraw.tail.left, (isCloseBrace_iff _).mp hc⟩
  | brackets ho _ hc ih =>
    exact .brackets ((isOpenBracket_iff _).mp ho) (ih hraw.tail.left)
      ((isCloseBracket_iff _).mp hc) .nil
  | absent => exact .nil
  | present _ ih => exact ih hraw
  | symbol ht => exact single (role_of_kind (by rw [ht]; decide))
  | number ht => exact single (role_of_kind (by rw [ht]; decide))
  | text ht => exact single (role_of_kind (by rw [ht]; decide))
  | braced _ ih => exact (ih hraw).balanced
  | bracketed _ ih => exact ih hraw
  | unknown ht hm => exact single (role_command_plain hg ht (by simp [hm]))
  | plain ht hm hr => exact alone ht hm (by simp [hr]) (by rw [hr]; rfl)
  | raw ht hm hr =>
    have hreads := (readsRaw_of_reading (s := s) ht hm).mpr ⟨_, hr⟩
    rw [hraw.raw _ List.mem_cons_self] at hreads
    cases hreads
  | one ht hm hr _ ih =>
    have hcommand := alone ht hm (by simp [hr]) (by rw [hr]; rfl)
    exact hcommand.append (ih hraw.tail).balanced
  | two ht hm hr _ _ ihv ihw =>
    have hcommand := alone ht hm (by simp [hr]) (by rw [hr]; rfl)
    have hv := (ihv hraw.tail.left).balanced
    exact hcommand.append (hv.append (ihw hraw.tail.right).balanced)
  | delimiter ht hm hr hd =>
    refine .sized ?_ (isDelimiter_of_delimiter? hd) .nil
    rw [role_of_reading hg ht hm (by simp [hr]), hr]
    rfl
  | squareRoot ht hm hr _ _ ihv ihw =>
    have hcommand := alone ht hm (by simp [hr]) (by rw [hr]; rfl)
    have hdegree : Balanced s.grammar _ := ihv hraw.tail.left
    exact hcommand.append (hdegree.append (ihw hraw.tail.right).balanced)
  | @root t _ u v w _ _ ht hm hr _ hv _ ihu ihw =>
    have hcommand := alone ht hm (by simp [hr]) (by rw [hr]; rfl)
    have hdegree := (ihu hraw.tail.left).balanced
    have hword : Balanced s.grammar v := by
      rcases hv with rfl | ⟨of, rfl, h⟩
      · exact .nil
      · exact single (hof of h)
    have hradicand := (ihw hraw.tail.right.right).balanced
    exact hcommand.append (hdegree.append (hword.append hradicand))
  | leftRight ht hm hr hd _ hright hd' ih =>
    refine .pair ?_ (isDelimiter_of_delimiter? hd) (ih hraw.tail.tail.left)
      ((isRight_iff _).mp hright) (isDelimiter_of_delimiter? hd') .nil
    rw [role_of_reading hg ht hm (by simp [hr]), hr]
    rfl
  | firstCell _ ih => exact ih hraw
  | nextCell _ hsep _ ihu ihw =>
    have hsep' : role s.grammar _ = .plain :=
      role_of_kind (by rw [(Token.is_iff.mp hsep).1]; decide)
    exact Balanced.append (ihu hraw.left) (.plain hsep' (ihw hraw.right.tail))
  | nextRow _ hsep _ _ ihu ihv ihw =>
    obtain ⟨ht, hvalue⟩ := Token.is_iff.mp hsep
    have hbreak := alone ht (hg.get?_eq_lineBreak_iff.mpr hvalue) (by simp [reading]) rfl
    have hgap : Balanced s.grammar _ := ihv hraw.right.tail.left
    exact Balanced.append (ihu hraw.left)
      (hbreak.append (hgap.append (ihw hraw.right.tail.right)))
  | flow _ _ ih => exact ih hraw
  | grid _ _ ih => exact ih hraw
  | @environment b e v v' a w name _ _ hb hn ha _ he hn' ih =>
    have hbegins : Begins (b :: (v ++ (a ++ (w ++ e :: v')))) name b :=
      ⟨hb, [], v, _, rfl, hn⟩
    -- Without an argument the body follows the name at once.
    have hnone := hraw.argument _ _ hbegins
    obtain ⟨rfl, -⟩ : a = [] ∧ _ := by simpa [ArgumentGroup, hnone] using ha
    have hinside := ih hraw.tail.right.right.left
    have hall := Balanced.environment ((isBegin_iff _).mp hb) hn hinside ((isEnd_iff _).mp he) hn'
      .nil
    rwa [List.append_nil] at hall
  | placed _ ih => exact ih hraw
  | group_script _ ih => exact (ih hraw).balanced
  | atom_script _ _ ih => exact ih hraw

/-- A source that parses is balanced if nothing of it is read as raw text. -/
theorem balanced_of_parse {symbols : Symbol.Table} {options : Options} {source : Text} {node : Node}
    (hof : ∀ t, t.isCommand "\\of" = true →
      role (Grammar.ofSymbols symbols).value t = .plain)
    (hraw : NoRaw (Grammar.ofSymbols symbols).value (Token.tokenize source))
    (h : (parse (Grammar.ofSymbols symbols).value options source).value = .ok node) :
    Balanced (Grammar.ofSymbols symbols).value (Token.tokenize source) := by
  obtain ⟨done, hd, -⟩ := derives_of_parse h
  exact hd.balanced (Grammar.regular_ofSymbols symbols) hof hraw

end Parser

end MathMarkup
