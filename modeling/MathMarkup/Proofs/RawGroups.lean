import MathMarkup.Proofs.Nesting
import MathMarkup.Proofs.Scoping

/-!
# Groups and raw groups

A group can be parsed, or read as raw source text. The parser goes down into its content; the raw
reading only counts braces. Where the parser succeeds, both end at the same brace
(`rawGroup_of_group`): what stands between the two braces of a parsed group is read by a derivation,
and the braces among the tokens of a derivation balance.
-/

namespace MathMarkup.Parser

variable {s : Setup} {c : Cursor} {u tail : List Token}

/-- Where the braces between two braces balance, a raw group ends at the second of them. -/
theorem rawGroup_run {o k : Token} (hc : c.rest = o :: (u ++ k :: tail))
    (ho : o.isOpenBrace = true) (hu : Level u) (hk : k.isCloseBrace = true) :
    (rawGroup s).run c =
      .ok (s.source.between (o.offset + 1) k.offset) (c.skip (u.length + 2)) := by
  have hfound : closingBrace? 0 (u ++ k :: tail) = some (k, u.length + 1) := by
    rw [closingBrace?_of_braceLevel hu]
    simp [closingBrace?, not_isOpenBrace_of_isCloseBrace hk, hk, Nat.add_comm]
  have hget : (get : ParseM Cursor).run c = .ok c c := rfl
  unfold rawGroup
  rw [EStateM.run_bind, hget]
  simp only [hc, ho, if_true, hfound]
  rfl

/-- The cursor behind tokens that were taken, but for the log. -/
theorem Took.skip_eq {w : List Token} {c' : Cursor} (h : Took w c c') :
    c.skip w.length = { c with position := c'.position, rest := c'.rest } := by
  have hrest : c.rest.drop w.length = c'.rest := by
    rw [h.rest, List.drop_left]
  rw [Cursor.skip, hrest, h.position]

/-- Among the tokens of a source, those of a group that was taken: its braces stand at the cursor
and before the cursor behind it, and what is between them can be cut out. -/
theorem Took.braces {tokens : List Token} {o k : Token} {c' : Cursor}
    (hrest : c.rest = tokens.drop c.position) (h : Took (o :: (u ++ [k])) c c') :
    tokens[c.position]? = some o ∧ tokens[c'.position - 1]? = some k ∧
      (tokens.take (c'.position - 1)).drop (c.position + 1) = u := by
  have hsplit : tokens.drop c.position = o :: (u ++ k :: c'.rest) := by
    rw [← hrest, h.rest]
    simp
  have hinner : tokens.drop (c.position + 1) = u ++ k :: c'.rest := by
    rw [← List.drop_drop, hsplit, List.drop_one, List.tail_cons]
  have hlast : c'.position - 1 = c.position + 1 + u.length := by
    rw [h.position, List.length_cons, List.length_append, List.length_singleton]
    omega
  refine ⟨?_, ?_, ?_⟩
  · have hhead := congrArg List.head? hsplit
    rwa [List.head?_drop, List.head?_cons] at hhead
  · have hhead := congrArg (fun w => (w.drop u.length).head?) hinner
    rwa [List.drop_drop, List.drop_left, List.head?_drop, List.head?_cons, ← hlast] at hhead
  · rw [hlast, List.drop_take, hinner, Nat.add_sub_cancel_left, List.take_left]

/-- Raw groups and parsed groups end at the same brace. If the group at a cursor among tokens can be
parsed, it can be read as raw text up to the same place, without any other change to the cursor; the
text is the source between its braces. And the braces between those of a raw group form a Dyck word.
-/
theorem rawGroup_of_group (symbols : Symbol.Table) (options : Options) (source : Text)
    (tokens : List Token) (c : Cursor) (hrest : c.rest = tokens.drop c.position) :
    let s : Setup := ⟨(Grammar.ofSymbols symbols).value, options, source⟩
    (∀ node c', (Entry.group.run s).run c = .ok node c' →
      ∃ opening closing, tokens[c.position]? = some opening ∧ opening.isOpenBrace = true ∧
        tokens[c'.position - 1]? = some closing ∧ closing.isCloseBrace = true ∧
        (rawGroup s).run c = .ok (source.between (opening.offset + 1) closing.offset)
          { c with position := c'.position, rest := c'.rest }) ∧
    (∀ content c', (rawGroup s).run c = .ok content c' →
      ∃ opening closing, tokens[c.position]? = some opening ∧ opening.isOpenBrace = true ∧
        tokens[c'.position - 1]? = some closing ∧ closing.isCloseBrace = true ∧
        BracesBalance ((tokens.take (c'.position - 1)).drop (c.position + 1))) := by
  intro s
  refine ⟨fun node c' hrun => ?_, fun content c' hrun => ?_⟩
  · obtain ⟨w, hw, hd⟩ :=
      outcome_ok (Outcome.get_bind (follows_group (follows_inside s (allowance s c)) c)) hrun
    obtain ⟨o, u, k, rfl, ho, hu, hk⟩ := hd.nests (Grammar.regular_ofSymbols symbols)
    obtain ⟨hfirst, hlast, -⟩ := hw.braces hrest
    refine ⟨o, k, hfirst, ho, hlast, hk, ?_⟩
    have hsplit : c.rest = o :: (u ++ k :: c'.rest) := by
      rw [hw.rest]
      simp
    have hlength : (o :: (u ++ [k])).length = u.length + 2 := by simp
    rw [rawGroup_run hsplit ho hu.level hk, ← hw.skip_eq, hlength]
  · obtain ⟨w, hw, hraw⟩ := outcome_ok (gives_rawGroup c) hrun
    obtain ⟨o, u, k, rfl, ho, hu, hk⟩ := hraw.exists_level
    obtain ⟨hfirst, hlast, hbetween⟩ := hw.braces hrest
    exact ⟨o, k, hfirst, ho, hlast, hk, hbetween.symm ▸ hu.bracesBalance⟩

/-- A group with a raw group in it, in which another group stands, and with a pair of delimiters.
The braces inside it open and close twice. -/
theorem rawGroup_of_group_hspace :
    let source : Text := "x\x7b\\hspace\x7ba\x7bb\x7d\x7d\\left[y\\right)\x7dz"
    let s : Setup := ⟨(Grammar.ofSymbols ⟨fun _ => []⟩).value, {}, source⟩
    let tokens := Token.tokenize source
    let c : Cursor := { position := 1, rest := tokens.drop 1 }
    c.rest = tokens.drop c.position ∧
      source.between 2 29 = "\\hspace\x7ba\x7bb\x7d\x7d\\left[y\\right)" ∧
      ∃ node c', (Entry.group.run s).run c = .ok node c' ∧ c'.position = 15 ∧
        (rawGroup s).run c =
          .ok (source.between 2 29) { c with position := 15, rest := c'.rest } ∧
        BracesBalance ((tokens.take 14).drop 2) := by
  obtain ⟨node, c', hrun, hposition⟩ : ∃ node c', (Entry.group.run
      ⟨(Grammar.ofSymbols ⟨fun _ => []⟩).value, {},
        "x\x7b\\hspace\x7ba\x7bb\x7d\x7d\\left[y\\right)\x7dz"⟩).run
      { position := 1,
        rest := (Token.tokenize "x\x7b\\hspace\x7ba\x7bb\x7d\x7d\\left[y\\right)\x7dz").drop 1 } =
        .ok node c' ∧ c'.position = 15 :=
    Outcome.exists_eq_ok (by
      rw [Grammar.ofSymbols_nil]
      decide +kernel)
  have hopening : (Token.tokenize "x\x7b\\hspace\x7ba\x7bb\x7d\x7d\\left[y\\right)\x7dz")[1]? =
      some ⟨.brace, "\x7b", ⟨1, 1, 2⟩⟩ := by
    decide
  have hclosing : (Token.tokenize "x\x7b\\hspace\x7ba\x7bb\x7d\x7d\\left[y\\right)\x7dz")[14]? =
      some ⟨.brace, "\x7d", ⟨29, 1, 30⟩⟩ := by
    decide
  have hbetween : Text.between "x\x7b\\hspace\x7ba\x7bb\x7d\x7d\\left[y\\right)\x7dz" 2 29 =
      "\\hspace\x7ba\x7bb\x7d\x7d\\left[y\\right)" := by
    decide +kernel
  intro source s tokens c
  obtain ⟨hgroup, hbalance⟩ := rawGroup_of_group ⟨fun _ => []⟩ {} source tokens c rfl
  obtain ⟨o, k, ho, -, hk, -, hraw⟩ := hgroup node c' hrun
  obtain ⟨-, -, -, -, -, -, hlevel⟩ := hbalance _ _ hraw
  rw [hposition] at hk hraw hlevel
  cases ho.symm.trans hopening
  cases hk.symm.trans hclosing
  exact ⟨rfl, hbetween, node, c', hrun, hposition, hraw, hlevel⟩

end MathMarkup.Parser
