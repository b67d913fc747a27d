import MathMarkup.Proofs.Decomposition

/-!
# Tokens written out again

A source is taken apart and the values of its tokens are written out one to a line. The text has the
tokens of the source again (`Token.tokenize_join`). A line feed continues no token, and neither does
the end of the text, so that each value is cut off where it was before, whatever stood behind it in
the source.
-/

namespace MathMarkup.Token

variable {kind : Kind} {value behind rest : Text}

/-- What cannot be continued into some text cannot be continued at the end of a line. -/
theorem Maximal.of_head? (h : Maximal kind value behind)
    (hrest : ∀ d ∈ rest.head?, d = .scalar '\n') : Maximal kind value rest := by
  cases h with
  | bare => exact .bare fun d hd => hrest d hd ▸ by decide
  | named hname hletters => exact .named hname hletters fun d hd => hrest d hd ▸ rfl
  | control hletter hspace => exact .control hletter hspace
  | space => exact .space
  | brace hc => exact .brace hc
  | bracket hc => exact .bracket hc
  | number hfirst htail hpoint =>
    refine .number hfirst htail hpoint fun d hd => ?_
    exact hrest d hd ▸ ⟨rfl, fun hd => absurd hd (by decide)⟩
  | symbol hblank hplain hdigit => exact .symbol hblank hplain hdigit

/-- The scan cuts off a value that cannot be continued. -/
theorem Maximal.scan_append (h : Maximal kind value behind) (place : Place) :
    scan 0 place (value ++ behind) = ⟨kind, value, place⟩ :: scan 0 (place.after value) behind := by
  obtain ⟨c, tail, rfl⟩ := List.exists_cons_of_ne_nil h.ne_nil
  rw [List.cons_append, scan_cons h.isBlank_eq_false, h.lexeme_eq, List.take_left, List.drop_left]

/-- The scan takes values on lines of their own apart, by induction on the tokens they are from. -/
theorem scan_join {tokens : List Token}
    (h : ∀ t ∈ tokens, ∃ behind, Maximal t.kind t.value behind) (place : Place) :
    (scan 0 place (Text.join "\n" (tokens.map Token.value))).map (fun t => (t.kind, t.value)) =
      tokens.map fun t => (t.kind, t.value) := by
  induction tokens generalizing place with
  | nil => rfl
  | cons t tokens ih =>
    obtain ⟨⟨behind, ht⟩, hlater⟩ := List.forall_mem_cons.mp h
    cases tokens with
    | nil =>
      have hline : Maximal t.kind t.value [] := ht.of_head? (by simp)
      have hscan := hline.scan_append place
      rw [List.append_nil] at hscan
      rw [List.map_singleton, Text.join, hscan]
      rfl
    | cons u tokens =>
      have hjoin : Text.join "\n" ((t :: u :: tokens).map Token.value) =
          t.value ++ ([.scalar '\n'] ++ Text.join "\n" ((u :: tokens).map Token.value)) :=
        List.append_assoc ..
      have hfeed : ∀ c ∈ ([.scalar '\n'] : Text), c.isBlank = true := by decide
      rw [hjoin, (ht.of_head? (by simp)).scan_append, scan_blanks hfeed, List.map_cons, ih hlater]
      rfl

/-- The values of the tokens of a source, joined by line feeds, have the tokens of the source. -/
theorem tokenize_join (source : Text) :
    (tokenize (Text.join "\n" ((tokenize source).map Token.value))).map
        (fun t => (t.kind, t.value)) =
      (tokenize source).map fun t => (t.kind, t.value) :=
  scan_join (fun t ht => ⟨_, (tokenize_decomposition source).1.maximal t ht⟩) {}

/-- A bare backslash takes in no line feed, and a number with a point no second one. -/
example : (tokenize (Text.join "\n" ((tokenize "\\\n1..2").map Token.value))).map Token.value =
    (tokenize "\\\n1..2").map Token.value := by decide

end MathMarkup.Token
