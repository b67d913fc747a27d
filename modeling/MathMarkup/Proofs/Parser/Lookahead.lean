import MathMarkup.Proofs.Parser.Naming
import MathMarkup.Proofs.Parser.Outline

/-!
# Looking ahead for an end

The end of an environment is looked for before its content is parsed, and the scan knows nothing of
raw groups. An `\end` in a raw group is text to the parser and an end to the scan. Where there is
none, the two agree: over the tokens of a derivation the scan closes only what it has opened among
them (`Derives.endsBeyond`), so that the end it finds stands behind them.

What is found by looking ahead does not depend on what stands further behind.
-/

namespace MathMarkup.Parser

variable {g : Grammar} {s : Setup} {t : Token} {u v w : List Token}

/-! ## Ends in raw groups -/

/-- Tokens behind which a brace opens a raw group: a command that reads one, or the name of an
environment that takes an argument. -/
def OpensRaw (g : Grammar) (w : List Token) : Prop :=
  (∃ t, w = [t] ∧ readsRaw g t = true) ∨
    ∃ b n name, w = b :: n ∧ b.isCommand "\\begin" = true ∧ NameGroup n name ∧
      (environmentOf g name).takesArgument = true

/-- Among the tokens is a raw group with an `\end` in it. -/
def RawEnd (g : Grammar) (w : List Token) : Prop :=
  ∃ before opener o body c after, w = before ++ (opener ++ o :: (body ++ c :: after)) ∧
    OpensRaw g opener ∧ o.isOpenBrace = true ∧ Level body ∧ c.isCloseBrace = true ∧
    ∃ t ∈ body, t.isCommand "\\end" = true

theorem RawEnd.append_left (h : RawEnd g v) (u : List Token) : RawEnd g (u ++ v) := by
  obtain ⟨before, opener, o, body, c, after, rfl, hbody⟩ := h
  exact ⟨u ++ before, opener, o, body, c, after, by simp, hbody⟩

theorem RawEnd.append_right (h : RawEnd g u) (v : List Token) : RawEnd g (u ++ v) := by
  obtain ⟨before, opener, o, body, c, after, rfl, hbody⟩ := h
  exact ⟨before, opener, o, body, c, after ++ v, by simp, hbody⟩

/-- An `\end` in a raw group stands between its braces. -/
theorem rawEnd_of_rawGroup {opener : List Token} {content : Text} (ho : OpensRaw g opener)
    (h : RawGroup s w content) (ht : t ∈ w) (hend : t.isCommand "\\end" = true) :
    RawEnd g (opener ++ w) := by
  obtain ⟨o, body, c, rfl, hopen, hfound, -⟩ := h
  obtain ⟨hclose, hlevel⟩ := braceLevel_of_closingBrace? hfound rfl
  have hkind := (Token.is_iff.mp hend).1
  have hmem : t ∈ body := by
    rcases List.mem_cons.mp ht with rfl | ht
    · rw [(Token.is_iff.mp hopen).1] at hkind
      cases hkind
    · rcases List.mem_append.mp ht with ht | ht
      · exact ht
      · rw [List.mem_singleton.mp ht, (Token.is_iff.mp hclose).1] at hkind
        cases hkind
  exact ⟨[], opener, o, body, c, [], by simp, ho, hopen, hlevel, hclose, t, hmem, hend⟩

/-! ## Ends that are found beyond -/

/-- A scan that finds its end beyond the tokens has on the way closed only environments that it has
opened among them. -/
def EndsBeyond (u : List Token) : Prop :=
  ∀ name opening inner position rest found,
    findEnd name opening inner position (u ++ rest) = .ok found →
      ∃ more, findEnd name opening (more ++ inner) (position + u.length) rest = .ok found

namespace EndsBeyond

theorem nil : EndsBeyond [] := fun _ _ _ _ _ _ h => ⟨[], h⟩

theorem append (hu : EndsBeyond u) (hv : EndsBeyond v) : EndsBeyond (u ++ v) := by
  intro name opening inner position rest found h
  rw [List.append_assoc] at h
  obtain ⟨more, h⟩ := hu _ _ _ _ _ _ h
  obtain ⟨more', h⟩ := hv _ _ _ _ _ _ h
  refine ⟨more' ++ more, ?_⟩
  rw [List.append_assoc, List.length_append, ← Nat.add_assoc]
  exact h

/-- A token that is no `\end` opens an environment or is passed over. -/
theorem token (h : t.isCommand "\\end" = false) : EndsBeyond [t] := by
  intro name opening inner position rest found hfound
  rw [List.singleton_append] at hfound
  unfold findEnd at hfound
  by_cases hbegin : t.isCommand "\\begin" = true
  · cases hscan : scanName? rest with
    | none => exact ⟨[], by simpa [hbegin, hscan] using hfound⟩
    | some named => exact ⟨[(named.1, t)], by simpa [hbegin, hscan] using hfound⟩
  · exact ⟨[], by simpa [hbegin, h] using hfound⟩

theorem tokens (h : ∀ t ∈ u, t.isCommand "\\end" = false) : EndsBeyond u := by
  induction u with
  | nil => exact nil
  | cons t u ih =>
    have ht := h t List.mem_cons_self
    exact (token ht).append (ih fun x hx => h x (List.mem_cons_of_mem _ hx))

theorem of_role (h : role g t ≠ .ends) : EndsBeyond [t] := by
  refine token ?_
  rw [← Bool.not_eq_true, isEnd_iff g]
  exact h

/-- The end of an environment closes it, or one that was opened inside. -/
theorem environment {b e : Token} {n n' : List Token} {name : Text}
    (hb : b.isCommand "\\begin" = true) (hn : NameGroup n name) (hu : EndsBeyond u)
    (he : e.isCommand "\\end" = true) (hn' : NameGroup n' name) :
    EndsBeyond (b :: (n ++ (u ++ e :: n'))) := by
  intro outer opening inner position rest found h
  simp only [List.cons_append, List.append_assoc] at h
  rw [EndsPass.findEnd_begin hb hn] at h
  obtain ⟨more, h⟩ := hu _ _ _ _ _ _ h
  have hlength : position + (b :: (n ++ (u ++ e :: n'))).length =
      position + 1 + n.length + u.length + 1 + n'.length := by
    simp only [List.length_cons, List.length_append]
    omega
  rw [hlength]
  cases more with
  | nil =>
    rw [List.nil_append, EndsPass.findEnd_end he hn', if_pos rfl] at h
    exact ⟨[], h⟩
  | cons latest more =>
    rw [List.cons_append, EndsPass.findEnd_end he hn'] at h
    by_cases hname : name = latest.1
    · rw [if_pos hname] at h
      exact ⟨more ++ [(name, b)], by simpa using h⟩
    · rw [if_neg hname] at h
      cases h

end EndsBeyond

/-! ## Derivations -/

/-- A scan for an end goes beyond the tokens unless a raw group among them has an `\end` in it. -/
def EndsSeen (g : Grammar) (w : List Token) : Prop :=
  ¬ RawEnd g w → EndsBeyond w

namespace EndsSeen

theorem of_endsBeyond (h : EndsBeyond w) : EndsSeen g w := fun _ => h

theorem append (hu : EndsSeen g u) (hv : EndsSeen g v) : EndsSeen g (u ++ v) := by
  intro hfree
  have hu' := hu fun h => hfree (h.append_right v)
  have hv' := hv fun h => hfree (h.append_left u)
  exact hu'.append hv'

theorem of_kind (h : t.kind ≠ .command) : EndsSeen g [t] :=
  of_endsBeyond (.token (by simp [Token.isCommand, Token.is, h]))

/-- A pair of delimiters around the tokens opens no environment and closes none. -/
theorem enclosed {opening closing : Token} (ho : opening.kind ≠ .command) (h : EndsSeen g w)
    (hc : closing.kind ≠ .command) : EndsSeen g (opening :: (w ++ [closing])) :=
  (of_kind ho).append (h.append (of_kind hc))

theorem of_role (h : role g t ≠ .ends) : EndsSeen g [t] :=
  of_endsBeyond (.of_role h)

theorem of_reading (hg : s.grammar.Regular) (ht : t.kind = .command) {m : Command}
    (hm : s.grammar.commands.get? t.value = some m) (hr : ∀ e, reading s t m ≠ .refused e) :
    EndsSeen s.grammar [t] := by
  refine of_role ?_
  rw [role_of_reading hg ht hm hr]
  cases reading s t m <;> simp [Reading.role]

theorem of_delimiter (hg : g.Regular) {shown : Option Text} (h : delimiter? g t = some shown) :
    EndsSeen g [t] :=
  of_endsBeyond (.token (isDelimiter_apart hg (isDelimiter_of_delimiter? h)).2.2.2)

/-- Where the tokens of a raw group have no `\end` the scan passes over them. -/
theorem rawGroup {opener : List Token} {content : Text} (hopener : OpensRaw g opener)
    (h : RawGroup s w content) (hfree : ¬ RawEnd g (opener ++ w)) : EndsBeyond w := by
  refine .tokens fun t ht => ?_
  rw [← Bool.not_eq_true]
  exact fun hend => hfree (rawEnd_of_rawGroup hopener h ht hend)

theorem argumentGroup {b : Token} {n : List Token} {name argument : Text}
    (hb : b.isCommand "\\begin" = true) (hn : NameGroup n name)
    (h : ArgumentGroup s (environmentOf g name) w argument) (hfree : ¬ RawEnd g (b :: (n ++ w))) :
    EndsBeyond w := by
  unfold ArgumentGroup at h
  split at h
  · next htakes => exact rawGroup (Or.inr ⟨b, n, name, rfl, hb, hn, htakes⟩) h hfree
  · next htakes =>
    rw [h.1]
    exact .nil

end EndsSeen

theorem Derives.endsSeen (hg : s.grammar.Regular) {form : Form} (h : Derives s w form) :
    EndsSeen s.grammar w := by
  induction h with
  | nothing => exact .of_endsBeyond .nil
  | next _ _ ihu ihw => exact ihu.append ihw
  | script _ hscript _ _ ihu ihw =>
    have hk := (Script.value_of_ofToken? hscript).1
    have ht : EndsSeen s.grammar [_] := .of_kind (by rw [hk]; decide)
    exact ihu.append (ht.append ihw)
  | limits _ hlimits ihu => exact ihu.append (.of_role (by rw [role_of_limits hg hlimits]; decide))
  | group ho _ hc ih =>
    exact .enclosed (by rw [(Token.is_iff.mp ho).1]; decide) ih
      (by rw [(Token.is_iff.mp hc).1]; decide)
  | brackets ho _ hc ih =>
    exact .enclosed (by rw [(Token.is_iff.mp ho).1]; decide) ih
      (by rw [(Token.is_iff.mp hc).1]; decide)
  | absent => exact .of_endsBeyond .nil
  | present _ ih => exact ih
  | symbol ht => exact .of_kind (by rw [ht]; decide)
  | number ht => exact .of_kind (by rw [ht]; decide)
  | text ht => exact .of_kind (by rw [ht]; decide)
  | braced _ ih => exact ih
  | bracketed _ ih => exact ih
  | unknown ht hm => exact .of_role (by rw [role_command_plain hg ht (by simp [hm])]; decide)
  | plain ht hm hr => exact .of_reading hg ht hm (by simp [hr])
  | raw ht hm hr hraw =>
    have hcommand := EndsSeen.of_reading hg ht hm (by simp [hr])
    have hopens : OpensRaw s.grammar [_] := Or.inl ⟨_, rfl, (readsRaw_of_reading ht hm).mpr ⟨_, hr⟩⟩
    intro hfree
    exact (hcommand fun h => hfree (h.append_right _)).append (EndsSeen.rawGroup hopens hraw hfree)
  | one ht hm hr _ ih =>
    exact (EndsSeen.of_reading hg ht hm (by simp [hr])).append ih
  | two ht hm hr _ _ ihv ihw =>
    exact (EndsSeen.of_reading hg ht hm (by simp [hr])).append (ihv.append ihw)
  | delimiter ht hm hr hd =>
    exact (EndsSeen.of_reading hg ht hm (by simp [hr])).append (.of_delimiter hg hd)
  | squareRoot ht hm hr _ _ ihv ihw =>
    exact (EndsSeen.of_reading hg ht hm (by simp [hr])).append (ihv.append ihw)
  | @root t c u v w n m ht hm hr _ hof _ ihu ihw =>
    have hv : EndsSeen s.grammar v := by
      rcases hof with rfl | ⟨of, rfl, hof⟩
      · exact .of_endsBeyond .nil
      · rcases role_of (g := s.grammar) hof with hrole | hrole
        · exact .of_role (by rw [hrole]; decide)
        · exact .of_role (by rw [hrole]; decide)
    exact (EndsSeen.of_reading hg ht hm (by simp [hr])).append (ihu.append (hv.append ihw))
  | leftRight ht hm hr hd _ hright hd' ih =>
    have hleft := (EndsSeen.of_reading hg ht hm (by simp [hr])).append (.of_delimiter hg hd)
    have hclose : EndsSeen s.grammar [_] := .of_role (by rw [(isRight_iff _).mp hright]; decide)
    exact hleft.append (ih.append (hclose.append (.of_delimiter hg hd')))
  | firstCell _ ih => exact ih
  | nextCell _ hsep _ ihu ihw =>
    have ht : EndsSeen s.grammar [_] := .of_kind (by rw [(Token.is_iff.mp hsep).1]; decide)
    exact ihu.append (ht.append ihw)
  | nextRow _ hsep _ _ ihu ihv ihw =>
    obtain ⟨ht, hv⟩ := Token.is_iff.mp hsep
    have hbreak := EndsSeen.of_reading hg ht (hg.get?_eq_lineBreak_iff.mpr hv) (by simp [reading])
    exact ihu.append (hbreak.append (ihv.append ihw))
  | flow _ _ ih => exact ih
  | grid _ _ ih => exact ih
  | @environment b e n n' a w name argument node hb hn ha _ he hn' ih =>
    intro hfree
    have hinner : ¬ RawEnd s.grammar (b :: (n ++ (a ++ w))) := by
      intro h
      have hall := h.append_right (e :: n')
      simp only [List.cons_append, List.append_assoc] at hall
      exact hfree hall
    have hargument := EndsSeen.argumentGroup hb hn ha fun h => hinner (by
      simpa using h.append_right w)
    have hcontent := ih fun h => hinner (by simpa using h.append_left (b :: (n ++ a)))
    have hbody := EndsBeyond.environment hb hn (hargument.append hcontent) he hn'
    simpa using hbody
  | placed _ ih => exact ih
  | group_script _ ih => exact ih
  | atom_script _ _ ih => exact ih

/-- Where the argument and the content of an environment end at the end of the input although an
end was found among them, that end stands in a raw group. -/
theorem rawEnd_of_findEnd (hg : s.grammar.Regular) {b : Token} {n a : List Token}
    {name argument : Text} {form : Form} {position : Nat} {found : Nat × Token}
    (hb : b.isCommand "\\begin" = true) (hn : NameGroup n name)
    (ha : ArgumentGroup s (environmentOf s.grammar name) a argument) (hd : Derives s w form)
    (hfind : findEnd name b [] position (a ++ w) = .ok found) :
    RawEnd s.grammar (b :: (n ++ (a ++ w))) := by
  by_contra hfree
  have hargument := EndsSeen.argumentGroup hb hn ha fun h => hfree (by simpa using h.append_right w)
  have hcontent := hd.endsSeen hg fun h => hfree (by simpa using h.append_left (b :: (n ++ a)))
  rw [← List.append_nil (a ++ w)] at hfind
  obtain ⟨more, hmore⟩ := (hargument.append hcontent) _ _ _ _ _ _ hfind
  -- At the end of the input there is no end to be found.
  cases more <;> cases hmore

/-! ## More tokens behind -/

theorem closingBrace?_append {depth : Nat} {w : List Token} {found : Token × Nat}
    (h : closingBrace? depth w = some found) (v : List Token) :
    closingBrace? depth (w ++ v) = some found := by
  induction w generalizing depth found with
  | nil => cases h
  | cons t w ih =>
    have step : ∀ {depth'}, (closingBrace? depth' w).map (fun x => (x.1, x.2 + 1)) = some found →
        (closingBrace? depth' (w ++ v)).map (fun x => (x.1, x.2 + 1)) = some found := by
      intro depth' h
      obtain ⟨found', hfound, rfl⟩ := Option.map_eq_some_iff.mp h
      rw [ih hfound, Option.map_some]
    rw [List.cons_append]
    by_cases hopen : t.isOpenBrace = true
    · rw [closingBrace?_open hopen] at h ⊢
      exact step h
    · rw [Bool.not_eq_true] at hopen
      by_cases hclose : t.isCloseBrace = true
      · cases depth with
        | zero => simpa [closingBrace?, hopen, hclose] using h
        | succ depth =>
          rw [closingBrace?_close hopen hclose] at h ⊢
          exact step h
      · simp only [closingBrace?, hopen, if_neg hclose] at h ⊢
        exact step h

theorem readName_append {t : Token} {w : List Token} {found : Text × Nat}
    (h : readName t w = .ok found) (v : List Token) : readName t (w ++ v) = .ok found := by
  obtain ⟨u, rest, rfl, hlength, hname⟩ := readName_eq_ok h
  rw [List.append_assoc, hname.readName, ← hlength]

theorem scanName?_append {w : List Token} {found : Text × Nat} (h : scanName? w = some found)
    (v : List Token) : scanName? (w ++ v) = some found := by
  obtain ⟨u, rest, rfl, hlength, hname⟩ := scanName?_eq_some_iff.mp h
  rw [List.append_assoc, hname.scanName?, ← hlength]

/-- More tokens change pieces of a name that are scanned only if the pieces run to the end of the
tokens. -/
theorem scanPieces?_append_or (w v : List Token) :
    scanPieces? (w ++ v) = scanPieces? w ∨ ∀ t ∈ w, isNamePiece t = true := by
  induction w with
  | nil => exact Or.inr (by simp)
  | cons t w ih =>
    rw [List.cons_append]
    simp only [scanPieces?]
    split
    · exact Or.inl rfl
    · split
      · next hpiece =>
        refine ih.imp (fun h => by rw [h]) fun h x hx => ?_
        rcases List.mem_cons.mp hx with rfl | hx
        · exact hpiece
        · exact h x hx
      · exact Or.inl rfl

/-- More tokens change a name that is scanned only if it runs to the end of the tokens, which then
have no `\end`. -/
theorem scanName?_append_or (w v : List Token) :
    scanName? (w ++ v) = scanName? w ∨ ∀ t ∈ w, t.isCommand "\\end" = false := by
  cases w with
  | nil => exact Or.inr (by simp)
  | cons t w =>
    rw [List.cons_append]
    simp only [scanName?]
    split
    · next hopen =>
      refine (scanPieces?_append_or w v).imp (fun h => by rw [h]) fun h x hx => ?_
      rcases List.mem_cons.mp hx with rfl | hx
      · simp [Token.isCommand, Token.is, (Token.is_iff.mp hopen).1]
      · have hpiece := h x hx
        simp only [isNamePiece, Bool.and_eq_true, decide_eq_true_eq] at hpiece
        simp [Token.isCommand, Token.is, hpiece.1]
    · exact Or.inl rfl

/-- Where there is no `\end` none is found. -/
theorem findEnd_ne_ok {name : Text} {opening : Token} {env : List (Text × Token)} {position : Nat}
    {w : List Token} (h : ∀ t ∈ w, t.isCommand "\\end" = false) (found : Nat × Token) :
    findEnd name opening env position w ≠ .ok found := by
  intro hfound
  rw [← List.append_nil w] at hfound
  obtain ⟨more, hmore⟩ := EndsBeyond.tokens h _ _ _ _ _ _ hfound
  cases more with
  | nil =>
    cases env <;> cases hmore
  | cons => cases hmore

theorem findEnd_append {name : Text} {opening : Token} {env : List (Text × Token)}
    {position : Nat} {found : Nat × Token} {w : List Token}
    (h : findEnd name opening env position w = .ok found) (v : List Token) :
    findEnd name opening env position (w ++ v) = .ok found := by
  -- Where a name that is looked at runs to the end of the tokens there is no end behind it.
  have hscan : ∀ {rest : List Token} {env' : List (Text × Token)} {position'},
      findEnd name opening env' position' rest = .ok found →
        scanName? (rest ++ v) = scanName? rest := fun hfound =>
    (scanName?_append_or _ v).resolve_right fun hfree => findEnd_ne_ok hfree _ hfound
  fun_induction findEnd name opening env position w with
  | case1 => cases h
  | case2 => cases h
  | case3 env position t rest hbegin hnone ih =>
    rw [List.cons_append]
    unfold findEnd
    simpa [hbegin, hscan h, hnone] using ih h
  | case4 env position t rest hbegin other n hsome ih =>
    rw [List.cons_append]
    unfold findEnd
    simpa [hbegin, hscan h, hsome] using ih h
  | case5 env position t rest hbegin hend hnone ih =>
    rw [List.cons_append]
    unfold findEnd
    simpa [hbegin, hend, hscan h, hnone] using ih h
  | case6 position t rest hbegin hend n hsome =>
    rw [List.cons_append]
    unfold findEnd
    simpa [hbegin, hend, scanName?_append hsome v] using h
  | case7 => cases h
  | case8 position t rest hbegin hend name' token outer n hsome ih =>
    rw [List.cons_append]
    unfold findEnd
    simpa [hbegin, hend, scanName?_append hsome v] using ih h
  | case9 => cases h
  | case10 env position t rest hbegin hend ih =>
    rw [List.cons_append]
    unfold findEnd
    simpa [hbegin, hend] using ih h

/-- Only the position that is found depends on the position at which the search starts. -/
theorem findEnd_shift (name : Text) (opening : Token) (env : List (Text × Token))
    (position : Nat) (w : List Token) (k : Nat) :
    findEnd name opening env (position + k) w =
      (findEnd name opening env position w).map fun found => (found.1 + k, found.2) := by
  have hnext : ∀ p, p + k + 1 = p + 1 + k := fun p => by omega
  fun_induction findEnd name opening env position w with
  | case1 => rfl
  | case2 => rfl
  | case3 env position t rest hbegin hnone ih =>
    conv_lhs => unfold findEnd
    simpa [hbegin, hnone, hnext] using ih
  | case4 env position t rest hbegin other n hsome ih =>
    conv_lhs => unfold findEnd
    simpa [hbegin, hsome, hnext] using ih
  | case5 env position t rest hbegin hend hnone ih =>
    conv_lhs => unfold findEnd
    simpa [hbegin, hend, hnone, hnext] using ih
  | case6 position t rest hbegin hend n hsome =>
    unfold findEnd
    simp [hbegin, hend, hsome, Except.map]
  | case7 position t rest hbegin hend other n hsome hname =>
    unfold findEnd
    simp [hbegin, hend, hsome, hname, Except.map]
  | case8 position t rest hbegin hend name' token outer n hsome ih =>
    conv_lhs => unfold findEnd
    simpa [hbegin, hend, hsome, hnext] using ih
  | case9 position t rest hbegin hend other n expected token outer hsome hname =>
    unfold findEnd
    simp [hbegin, hend, hsome, hname, Except.map]
  | case10 env position t rest hbegin hend ih =>
    conv_lhs => unfold findEnd
    simpa [hbegin, hend, hnext] using ih

/-! ## Tokens at other places -/

/-- Tokens that may stand elsewhere, but keep their kinds and values. -/
def KeepsTokens (move : Token → Token) : Prop :=
  ∀ t, (move t).kind = t.kind ∧ (move t).value = t.value

variable {move : Token → Token}

namespace KeepsTokens

theorem is (h : KeepsTokens move) (t : Token) (kind : Token.Kind) (value : Text) :
    (move t).is kind value = t.is kind value := by
  simp only [Token.is, h t]

theorem isOpenBrace (h : KeepsTokens move) (t : Token) : (move t).isOpenBrace = t.isOpenBrace :=
  h.is t _ _

theorem isCloseBrace (h : KeepsTokens move) (t : Token) :
    (move t).isCloseBrace = t.isCloseBrace :=
  h.is t _ _

theorem isCommand (h : KeepsTokens move) (t : Token) (name : Text) :
    (move t).isCommand name = t.isCommand name :=
  h.is t _ _

theorem isNamePiece (h : KeepsTokens move) (t : Token) :
    Parser.isNamePiece (move t) = Parser.isNamePiece t := by
  simp only [Parser.isNamePiece, h t]

end KeepsTokens

theorem closingBrace?_map (hmove : KeepsTokens move) (depth : Nat) (w : List Token) :
    closingBrace? depth (w.map move) =
      (closingBrace? depth w).map fun (closing, n) => (move closing, n) := by
  induction w generalizing depth with
  | nil => rfl
  | cons t w ih =>
    simp only [List.map_cons, closingBrace?, hmove.isOpenBrace, hmove.isCloseBrace, ih]
    split
    · rw [Option.map_map, Option.map_map]
      rfl
    · split
      · cases depth with
        | zero => rfl
        | succ depth =>
          dsimp only
          rw [Option.map_map, Option.map_map]
          rfl
      · rw [Option.map_map, Option.map_map]
        rfl

theorem scanPieces?_map (hmove : KeepsTokens move) (w : List Token) :
    scanPieces? (w.map move) = scanPieces? w := by
  induction w with
  | nil => rfl
  | cons t w ih =>
    simp only [List.map_cons, scanPieces?, hmove.isCloseBrace, hmove.isNamePiece, ih, (hmove t).2]

theorem scanName?_map (hmove : KeepsTokens move) (w : List Token) :
    scanName? (w.map move) = scanName? w := by
  cases w with
  | nil => rfl
  | cons t w =>
    simp only [List.map_cons, scanName?, hmove.isOpenBrace, scanPieces?_map hmove]

theorem readName_map (hmove : KeepsTokens move) {command : Token} {w : List Token}
    {found : Text × Nat} (h : readName command w = .ok found) :
    readName (move command) (w.map move) = .ok found := by
  rw [readName_eq_ok_iff_scanName?, scanName?_map hmove]
  exact (readName_eq_ok_iff_scanName? command).mp h

theorem findEnd_map (hmove : KeepsTokens move) {name : Text} {opening : Token}
    {env : List (Text × Token)} {position : Nat} {found : Nat × Token} {w : List Token}
    (h : findEnd name opening env position w = .ok found) :
    findEnd name (move opening) (env.map fun (other, t) => (other, move t)) position (w.map move) =
      .ok (found.1, move found.2) := by
  fun_induction findEnd name opening env position w with
  | case1 => cases h
  | case2 => cases h
  | case3 env position t rest hbegin hnone ih =>
    rw [List.map_cons]
    unfold findEnd
    simpa [hmove.isCommand, scanName?_map hmove, hbegin, hnone] using ih h
  | case4 env position t rest hbegin other n hsome ih =>
    rw [List.map_cons]
    unfold findEnd
    simpa [hmove.isCommand, scanName?_map hmove, hbegin, hsome] using ih h
  | case5 env position t rest hbegin hend hnone ih =>
    rw [List.map_cons]
    unfold findEnd
    simpa [hmove.isCommand, scanName?_map hmove, hbegin, hend, hnone] using ih h
  | case6 position t rest hbegin hend n hsome =>
    cases h
    rw [List.map_cons]
    unfold findEnd
    simp [hmove.isCommand, scanName?_map hmove, hbegin, hend, hsome]
  | case7 => cases h
  | case8 position t rest hbegin hend name' token outer n hsome ih =>
    rw [List.map_cons, List.map_cons]
    unfold findEnd
    simpa [hmove.isCommand, scanName?_map hmove, hbegin, hend, hsome] using ih h
  | case9 => cases h
  | case10 env position t rest hbegin hend ih =>
    rw [List.map_cons]
    unfold findEnd
    simpa [hmove.isCommand, hbegin, hend] using ih h

end MathMarkup.Parser
