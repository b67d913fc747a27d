import MathMarkup.Parser.Command
import MathMarkup.Proofs.Command
import MathMarkup.Token.Lexer

/-!
# What texts are made of

The texts in a parsed tree come from the source, from the table of symbols and from a few fixed
words. A property of code points that all of these have is had by all texts of the tree. `Text.Over`
says that a text is made of such code points, and `Material` that all a parse has at hand is.
-/

namespace MathMarkup

namespace Text

/-- The text is made of code points with a property. -/
def Over (p : CodePoint → Prop) (t : Text) : Prop :=
  ∀ c ∈ t, p c

variable {p : CodePoint → Prop}

theorem over_nil : Over p [] := by
  intro c hc
  cases hc

theorem Over.append {s t : Text} (hs : Over p s) (ht : Over p t) : Over p (s ++ t) := by
  intro c hc
  rcases List.mem_append.mp hc with h | h
  · exact hs c h
  · exact ht c h

theorem Over.flatten {ts : List Text} (h : ∀ t ∈ ts, Over p t) : Over p ts.flatten := by
  intro c hc
  obtain ⟨t, ht, hct⟩ := List.mem_flatten.mp hc
  exact h t ht c hct

theorem Over.join {gap : Text} {ts : List Text} (hgap : Over p gap) (h : ∀ t ∈ ts, Over p t) :
    Over p (join gap ts) := by
  induction ts with
  | nil => exact over_nil
  | cons t rest ih =>
    cases rest with
    | nil => exact h t (by simp)
    | cons u rest =>
      have hrest := ih fun x hx => h x (by simp [hx])
      exact ((h t (by simp)).append hgap).append hrest

theorem Over.between {t : Text} (h : Over p t) (i j : Int) : Over p (t.between i j) := by
  intro c hc
  exact h c (List.mem_of_mem_take (List.mem_of_mem_drop hc))

theorem Over.trim {t : Text} (h : Over p t) (q : CodePoint → Bool) : Over p (t.trim q) := by
  intro c hc
  have h1 : c ∈ (t.dropWhile q).reverse :=
    (List.dropWhile_sublist q).mem (List.mem_reverse.mp hc)
  exact h c ((List.dropWhile_sublist q).mem (List.mem_reverse.mp h1))

/-! ## Plain characters -/

/-- The characters of ASCII that are shown, the space among them. -/
def IsPlain (c : Char) : Prop :=
  0x20 ≤ c.toNat ∧ c.toNat < 0x7F

instance (c : Char) : Decidable (IsPlain c) :=
  inferInstanceAs (Decidable (_ ∧ _))

/-- Whether a code point is a plain character. -/
def isPlainScalar : CodePoint → Bool
  | .scalar c => decide (IsPlain c)
  | _ => false

theorem over_of_isPlainScalar (hp : ∀ c, IsPlain c → p (.scalar c)) {t : Text}
    (h : ∀ c ∈ t, isPlainScalar c = true) : Over p t := by
  intro c hc
  have hplain := h c hc
  cases c with
  | scalar d => exact hp d (of_decide_eq_true hplain)
  | _ => cases hplain

theorem over_ofString (hp : ∀ c, IsPlain c → p (.scalar c)) {s : String}
    (h : s.toList.all (IsPlain ·) = true) : Over p (ofString s) := by
  intro c hc
  obtain ⟨d, hd, rfl⟩ := List.mem_map.mp hc
  exact hp d (of_decide_eq_true (List.all_eq_true.mp h d hd))

theorem over_ofNat (hp : ∀ c, IsPlain c → p (.scalar c)) (n : Nat) : Over p (ofNat n) := by
  refine over_ofString hp (List.all_eq_true.mpr fun c hc => decide_eq_true ?_)
  rw [Nat.toList_repr] at hc
  have hd : c.isDigit = true := Nat.isDigit_of_mem_toDigits (by decide) (by decide) hc
  simp only [Char.isDigit, Bool.and_eq_true, decide_eq_true_eq, UInt32.le_iff_toNat_le] at hd
  have h1 : 48 ≤ c.toNat := hd.1
  have h2 : c.toNat ≤ 57 := hd.2
  exact ⟨by omega, by omega⟩

theorem over_ofInt (hp : ∀ c, IsPlain c → p (.scalar c)) (i : Int) : Over p (ofInt i) := by
  cases i with
  | ofNat n => exact over_ofNat hp n
  | negSucc n =>
    have hsign : Over p [.scalar '-'] := over_ofString hp (s := "-") (by decide)
    exact hsign.append (over_ofNat hp (n + 1))

end Text

/-! ## Texts that a parse makes -/

namespace Parser

open Text

variable {p : CodePoint → Prop}

theorem mem_of_mem_unescapeText {c : CodePoint} {t : Text} (h : c ∈ unescapeText t) : c ∈ t := by
  fun_induction unescapeText t with
  | case1 d rest hd ih =>
    rcases List.mem_cons.mp h with rfl | h
    · simp
    · simp [ih h]
  | case2 d rest hd ih =>
    rcases List.mem_cons.mp h with rfl | h
    · simp
    · exact List.mem_cons_of_mem _ (ih h)
  | case3 d rest hne ih =>
    rcases List.mem_cons.mp h with rfl | h
    · simp
    · exact List.mem_cons_of_mem _ (ih h)
  | case4 => exact h

theorem Over.squeezeSpaces {t : Text} (hspace : p (.scalar ' ')) (h : Over p t) (inRun : Bool) :
    Over p (squeezeSpaces inRun t) := by
  induction t generalizing inRun with
  | nil => exact over_nil
  | cons c rest ih =>
    have hrest : Over p rest := fun d hd => h d (by simp [hd])
    unfold Parser.squeezeSpaces
    split
    · split
      · exact ih hrest true
      · intro d hd
        rcases List.mem_cons.mp hd with rfl | hd
        · exact hspace
        · exact ih hrest true d hd
    · intro d hd
      rcases List.mem_cons.mp hd with rfl | hd
      · exact h d (by simp)
      · exact ih hrest false d hd

theorem over_textOfRaw {s : Setup} {raw : Text} (hspace : p (.scalar ' ')) (h : Over p raw) :
    Over p (textOfRaw s raw) := by
  have hplain : Over p (unescapeText raw) := fun c hc => h c (mem_of_mem_unescapeText hc)
  simp only [textOfRaw]
  split
  · exact hplain
  · exact Over.squeezeSpaces hspace hplain false

theorem over_columnAlignment (hp : ∀ c, IsPlain c → p (.scalar c)) (spec : Text) :
    Over p (Environment.columnAlignment spec) := by
  have hletter : ∀ c t, Environment.columnLetter? c = some t → Over p t := by
    intro c t h
    unfold Environment.columnLetter? at h
    split at h
    · cases h; exact over_ofString hp (by decide)
    · cases h; exact over_ofString hp (by decide)
    · cases h; exact over_ofString hp (by decide)
    · cases h
  unfold Environment.columnAlignment
  split
  · exact over_ofString hp (by decide)
  · refine Over.join (over_ofString hp (by decide)) fun t ht => ?_
    obtain ⟨c, _, hc⟩ := List.mem_filterMap.mp ht
    exact hletter c t hc

end Parser

/-- The code points of a token are some of those of its source. -/
theorem Token.mem_of_mem_value {source : Text} {t : Token} (ht : t ∈ tokenize source)
    {c : CodePoint} (hc : c ∈ t.value) : c ∈ source := by
  have key : ∀ (text : Text) (taken : Nat) (place : Place), t ∈ scan taken place text →
      c ∈ text := by
    intro text
    induction text with
    | nil => intro taken place h; simp [scan] at h
    | cons d rest ih =>
      intro taken place h
      cases taken with
      | succ n => exact List.mem_cons_of_mem _ (ih n _ h)
      | zero =>
        unfold scan at h
        split at h
        · exact List.mem_cons_of_mem _ (ih 0 _ h)
        · rcases List.mem_cons.mp h with rfl | h
          · rcases List.mem_cons.mp hc with rfl | hc
            · simp
            · exact List.mem_cons_of_mem _ (List.mem_of_mem_take hc)
          · exact List.mem_cons_of_mem _ (ih _ _ h)
  exact key source 0 {} ht

/-! ## What a parse has at hand -/

/-- All that texts of a tree are made of has a property: plain characters, angle brackets, the
tokens and the source, and what commands, operators and environments show. -/
structure Material (p : CodePoint → Prop) (s : Parser.Setup) (tokens : List Token) : Prop where
  plain : ∀ c, Text.IsPlain c → p (.scalar c)
  angles : p (.scalar '⟨') ∧ p (.scalar '⟩')
  token : ∀ t ∈ tokens, t.value.Over p
  source : s.source.Over p
  command : ∀ name c, s.grammar.commands.get? name = some c → c.payload.Over p
  operator : ∀ name shown, s.grammar.operators.get? name = some shown → shown.Over p
  environment : ∀ name e, s.grammar.environments.get? name = some e →
    e.columnAlign.Over p ∧ e.opening.Over p ∧ e.closing.Over p

/-- Any code point will do for no property. -/
theorem material_true (s : Parser.Setup) (tokens : List Token) :
    Material (fun _ => True) s tokens where
  plain _ _ := trivial
  angles := ⟨trivial, trivial⟩
  token _ _ _ _ := trivial
  source _ _ := trivial
  command _ _ _ _ _ := trivial
  operator _ _ _ _ _ := trivial
  environment _ _ _ := ⟨fun _ _ => trivial, fun _ _ => trivial, fun _ _ => trivial⟩

/-! ## The material of a symbol table -/

section Symbols

variable {p : CodePoint → Prop}

/-- What commands show comes from the symbols, a few fixed words aside. -/
theorem over_payload (hp : ∀ c, Text.IsPlain c → p (.scalar c)) {symbols : Symbol.Table}
    (hs : ∀ category, ∀ e ∈ symbols.mapping category, e.2.Over p) {name : Text} {c : Command}
    (h : (Grammar.ofSymbols symbols).value.commands.get? name = some c) : c.payload.Over p := by
  rcases Command.exists_of_get?_table h with hstructural | ⟨category, value, hm, hsymbol⟩
  · have hall : ∀ e ∈ Command.structural,
        e.2.payload = [] ∨ ∃ b, e.2.payload = Command.truthText b := by decide
    rcases hall _ (Assoc.mem_of_get? hstructural) with heq | ⟨b, heq⟩
    · rw [heq]
      exact Text.over_nil
    · rw [heq]
      cases b <;> exact Text.over_ofString hp (by decide)
  · rw [Command.payload_ofSymbol? hsymbol]
    exact hs category _ hm

/-- What environments show is plain. -/
theorem over_environment (hp : ∀ c, Text.IsPlain c → p (.scalar c)) {name : Text}
    {e : Environment} (h : Environment.table.get? name = some e) :
    e.columnAlign.Over p ∧ e.opening.Over p ∧ e.closing.Over p := by
  have hall : ∀ x ∈ Environment.table, ∀ t ∈ [x.2.columnAlign, x.2.opening, x.2.closing],
      ∀ c ∈ t, Text.isPlainScalar c = true := by decide
  have hover : ∀ t ∈ [e.columnAlign, e.opening, e.closing], Text.Over p t :=
    fun t ht => Text.over_of_isPlainScalar hp (hall _ (Assoc.mem_of_get? h) t ht)
  exact ⟨hover _ (by simp), hover _ (by simp), hover _ (by simp)⟩

theorem material_ofSymbols (hp : ∀ c, Text.IsPlain c → p (.scalar c))
    (hangles : p (.scalar '⟨') ∧ p (.scalar '⟩')) {symbols : Symbol.Table}
    (hs : ∀ category, ∀ e ∈ symbols.mapping category, e.2.Over p) (options : Options)
    {source : Text} (hsource : source.Over p) :
    Material p ⟨(Grammar.ofSymbols symbols).value, options, source⟩ (Token.tokenize source) where
  plain := hp
  angles := hangles
  token _ ht c hc := hsource c (Token.mem_of_mem_value ht hc)
  source := hsource
  command _ _ h := over_payload hp hs h
  operator _ _ h := hs .symbolOperators _ (Assoc.mem_of_get? h)
  environment _ _ h := over_environment hp h

end Symbols

end MathMarkup
