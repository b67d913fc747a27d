import Mathlib.Data.List.Induction
import MathMarkup.Proofs.Token

/-!
# Lines and columns of tokens

The place of a token is kept up while the source is scanned, one code point at a time. It can also
be read off from the source before the token: the line counts the line feeds in it, and the column
is the distance from the last of them (`Token.position_of_mem_tokenize`).
-/

namespace MathMarkup

/-- The code point that ends a line. -/
def lineFeed : CodePoint :=
  .scalar '\n'

/-- The offset of the last line feed of a text, or -1 if the text has none. -/
inductive LastFeed : Text → Int → Prop where
  | none {t : Text} (ht : lineFeed ∉ t) : LastFeed t (-1)
  | behind {lines line : Text} (hline : lineFeed ∉ line) :
    LastFeed (lines ++ lineFeed :: line) lines.length

namespace LastFeed

variable {t : Text} {c : CodePoint} {i : Int}

theorem lt_length (h : LastFeed t i) : i < t.length := by
  cases h with
  | none => omega
  | behind =>
    rw [List.length_append, List.length_cons]
    omega

theorem snoc_feed (t : Text) : LastFeed (t ++ [lineFeed]) t.length :=
  .behind List.not_mem_nil

theorem snoc (h : LastFeed t i) (hc : c ≠ lineFeed) : LastFeed (t ++ [c]) i := by
  have hlast : lineFeed ∉ [c] := by simpa using hc.symm
  cases h with
  | none ht =>
    exact .none fun hmem => (List.mem_append.mp hmem).elim ht hlast
  | behind hline =>
    rw [List.append_assoc, List.cons_append]
    exact .behind fun hmem => (List.mem_append.mp hmem).elim hline hlast

end LastFeed

namespace Place

theorem after_snoc (p : Place) (t : Text) (c : CodePoint) :
    p.after (t ++ [c]) = (p.after t).next c := by
  simp [after]

/-- The place behind a text at the start of a source, by induction on the text from its end. -/
theorem after_start (t : Text) :
    (after {} t).line = 1 + t.count lineFeed ∧
      ∃ i, LastFeed t i ∧ (after {} t).column = t.length - i := by
  induction t using List.reverseRecOn with
  | nil => exact ⟨rfl, -1, .none List.not_mem_nil, rfl⟩
  | append_singleton t c ih =>
    obtain ⟨hline, i, hi, hcolumn⟩ := ih
    rw [after_snoc, List.count_append, List.length_append]
    by_cases hc : c = lineFeed
    · subst hc
      refine ⟨?_, t.length, .snoc_feed t, ?_⟩
      · show (after {} t).line + 1 = _
        rw [hline, List.count_singleton_self]
        omega
      · show (1 : Int) = _
        rw [List.length_singleton]
        omega
    · have hnext : (after {} t).next c =
          ⟨(after {} t).offset + 1, (after {} t).line, (after {} t).column + 1⟩ := if_neg hc
      have hnone : [c].count lineFeed = 0 :=
        List.count_eq_zero.mpr (by simpa using Ne.symm hc)
      refine ⟨?_, i, hi.snoc hc, ?_⟩
      · rw [hnext, hnone]
        exact hline
      · rw [hnext, List.length_singleton]
        dsimp only
        omega

end Place

namespace Token

variable {source : Text} {t : Token}

/-- A token stands on the line whose number is one more than the line feeds before it. Its column is
counted from the last of these, or from the start of the source. -/
theorem position_of_mem_tokenize (ht : t ∈ tokenize source) :
    ∃ (n : Nat) (i : Int), n < source.length ∧ t.offset = n ∧
      t.place.line = 1 + (source.take n).count lineFeed ∧
      LastFeed (source.take n) i ∧ t.place.column = n - i ∧ 1 ≤ t.place.column := by
  obtain ⟨n, hn, hplace⟩ := place_of_mem_scan ht
  obtain ⟨hline, i, hi, hcolumn⟩ := Place.after_start (source.take n)
  have hlength : (source.take n).length = n := List.length_take_of_le (Nat.le_of_lt hn)
  have hlt := hi.lt_length
  have hoffset : t.offset = n := by
    rw [offset, hplace, Place.offset_after, hlength]
    exact Int.zero_add _
  rw [hplace, hcolumn, hlength]
  rw [hlength] at hlt
  exact ⟨n, i, hn, hoffset, hline, hi, rfl, by omega⟩

/-- The last token of a source with an empty line in it. -/
theorem position_of_mem_tokenize_lines :
    (⟨.symbol, "y", { offset := 5, line := 3, column := 2 }⟩ : Token) ∈ tokenize "ab\n\n y" ∧
      ∃ (n : Nat) (i : Int), n < (Text.ofString "ab\n\n y").length ∧ (5 : Int) = n ∧
        (3 : Int) = 1 + ((Text.ofString "ab\n\n y").take n).count lineFeed ∧
        LastFeed ((Text.ofString "ab\n\n y").take n) i ∧ (2 : Int) = n - i ∧ (1 : Int) ≤ 2 := by
  have hmem : (⟨.symbol, "y", { offset := 5, line := 3, column := 2 }⟩ : Token) ∈
      tokenize "ab\n\n y" := by decide
  exact ⟨hmem, position_of_mem_tokenize hmem⟩

end Token

end MathMarkup
