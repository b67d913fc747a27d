import MathMarkup.Proofs.Parser.Balanced
import MathMarkup.Proofs.Parser.Run

/-!
# Names in braces

The name of an environment is read in two places. Looking ahead for an end, the scan passes over a
`\begin` or an `\end` without a name; the parser refuses it. What the scan finds is of use to the
parser only if both accept the same names and go equally far. They do: to both, a name is a group of
pieces in braces (`NameGroup`) with anything behind it, so that the parser can take each end that
the scan has found (`takeEnd_of_findEnd`).
-/

namespace MathMarkup.Parser

variable {command opening closing : Token} {tokens w : List Token} {name : Text} {n i stop : Nat}
  {c : Cursor}

/-! ## The names that are accepted -/

theorem scanPieces?_eq (command opening : Token) (w : List Token) :
    scanPieces? w = (readPieces command opening w).toOption := by
  induction w with
  | nil => rfl
  | cons t w ih =>
    simp only [scanPieces?, readPieces, ih]
    split
    · rfl
    · split
      · cases readPieces command opening w <;> rfl
      · rfl

/-- The scan sees the names that can be read. -/
theorem scanName?_eq (command : Token) (w : List Token) :
    scanName? w = (readName command w).toOption := by
  cases w with
  | nil => rfl
  | cons opening w =>
    simp only [scanName?, readName, scanPieces?_eq command opening]
    split
    · cases readPieces command opening w with
      | error e => rfl
      | ok found =>
        obtain ⟨pieces, n⟩ := found
        cases pieces <;> rfl
    · rfl

theorem readName_eq_ok_iff_scanName? (command : Token) {found : Text × Nat} :
    readName command w = .ok found ↔ scanName? w = some found := by
  rw [scanName?_eq command]
  cases readName command w <;> simp [Except.toOption]

theorem scanName?_eq_none_iff (command : Token) :
    scanName? w = none ↔ ∃ e, readName command w = .error e := by
  rw [scanName?_eq command]
  cases readName command w <;> simp [Except.toOption]

theorem readName_eq_ok_iff : readName command w = .ok (name, n) ↔
    ∃ u rest, w = u ++ rest ∧ n = u.length ∧ NameGroup u name := by
  refine ⟨readName_eq_ok, ?_⟩
  rintro ⟨u, rest, rfl, rfl, hname⟩
  exact hname.readName command rest

theorem scanName?_eq_some_iff : scanName? w = some (name, n) ↔
    ∃ u rest, w = u ++ rest ∧ n = u.length ∧ NameGroup u name := by
  -- Which command the name stands behind does not matter to a name that can be read.
  rw [← readName_eq_ok_iff_scanName? ⟨.command, [], {}⟩, readName_eq_ok_iff]

/-! ## Taking a name -/

theorem run_takeName (command : Token) (c : Cursor) :
    (takeName command).run c = match readName command c.rest with
      | .ok (name, n) => .ok name (c.skip n)
      | .error e => .error e c := by
  have hget : (get : ParseM Cursor).run c = .ok c c := rfl
  unfold takeName
  rw [EStateM.run_bind, hget]
  dsimp only
  cases readName command c.rest <;> rfl

theorem takeName_eq_ok_iff {c' : Cursor} : (takeName command).run c = .ok name c' ↔
    ∃ n, readName command c.rest = .ok (name, n) ∧ c' = c.skip n := by
  rw [run_takeName]
  cases readName command c.rest with
  | error e => simp
  | ok found =>
    obtain ⟨name', n⟩ := found
    simp only [EStateM.Result.ok.injEq, Except.ok.injEq, Prod.mk.injEq]
    constructor
    · rintro ⟨rfl, rfl⟩
      exact ⟨n, ⟨rfl, rfl⟩, rfl⟩
    · rintro ⟨_, ⟨rfl, rfl⟩, rfl⟩
      exact ⟨rfl, rfl⟩

theorem takeName_eq_error_iff : (∃ e c', (takeName command).run c = .error e c') ↔
    ∃ e, readName command c.rest = .error e := by
  rw [run_takeName]
  cases readName command c.rest <;> simp

/-- The cursor moved to a position among the tokens. -/
def Cursor.movedTo (c : Cursor) (tokens : List Token) (i : Nat) : Cursor :=
  { c with position := i, rest := tokens.drop i }

theorem Cursor.skip_movedTo (c : Cursor) (tokens : List Token) (i n : Nat) :
    (c.movedTo tokens i).skip n = c.movedTo tokens (i + n) := by
  simp only [movedTo, skip, List.drop_drop]

theorem outcome_takeName_of_scanName? (h : scanName? c.rest = some (name, n)) (command : Token) :
    Outcome (takeName command) c (fun found c' => found = name ∧ c' = c.skip n)
      fun _ _ => False := by
  unfold Outcome
  rw [run_takeName, (readName_eq_ok_iff_scanName? command).mpr h]
  exact ⟨rfl, rfl⟩

/-- An end is taken where the scan sees the name behind it. -/
theorem outcome_takeEnd_of_scanName? (hc : c.rest = closing :: w)
    (h : scanName? w = some (name, n)) :
    Outcome (takeEnd name c.position) c (fun _ c' => c' = c.skip (1 + n)) fun _ _ => False := by
  unfold takeEnd
  refine Outcome.get_bind (Outcome.next_bind (fun hnil => ?_) fun t rest ht => ?_)
  · rw [hc] at hnil
    cases hnil
  · rw [hc] at ht
    cases ht
    dsimp only
    rw [if_pos rfl]
    have hscan : scanName? (c.skip 1).rest = some (name, n) := by
      rw [Cursor.rest_skip, hc]
      exact h
    refine Outcome.bind (outcome_takeName_of_scanName? hscan closing) ?_
    rintro _ _ ⟨rfl, rfl⟩
    simp only [ne_eq, not_true_eq_false, if_false, outcome_pure, Cursor.skip, List.drop_drop,
      Nat.add_assoc]

/-- The parser can take the end that was found. -/
theorem takeEnd_of_findEnd {inner : List (Text × Token)}
    (h : findEnd name opening inner i (tokens.drop i) = .ok (stop, closing)) (c : Cursor) :
    ∃ n, (takeEnd name stop).run (c.movedTo tokens stop) =
      .ok () (c.movedTo tokens (stop + (1 + n))) := by
  obtain ⟨body, rest, hbody, rfl, -, n, hscan⟩ := findEnd_eq_ok h
  have hclosing : (c.movedTo tokens (i + body.length)).rest = closing :: rest := by
    show tokens.drop (i + body.length) = closing :: rest
    rw [← List.drop_drop, hbody, List.drop_left]
  obtain ⟨⟨⟩, c', hrun, rfl⟩ := (outcome_takeEnd_of_scanName? hclosing hscan).exists_eq_ok
  rw [Cursor.skip_movedTo] at hrun
  exact ⟨n, hrun⟩

/-- The scan and the parser accept the same names. Among any tokens and at any position of them, the
parser takes a name and leaves the cursor at a position exactly if the scan sees that name up to
there, and the parser fails exactly if the scan sees none. What both accept are the groups of pieces
in braces. -/
theorem names_agree (tokens : List Token) (i : Nat) (command : Token) (c : Cursor) :
    (∀ name c', (takeName command).run (c.movedTo tokens i) = .ok name c' ↔
      ∃ n, scanName? (tokens.drop i) = some (name, n) ∧ c' = c.movedTo tokens (i + n)) ∧
    ((∃ e c', (takeName command).run (c.movedTo tokens i) = .error e c') ↔
      scanName? (tokens.drop i) = none) ∧
    ∀ name n, scanName? (tokens.drop i) = some (name, n) ↔
      ∃ u rest, tokens.drop i = u ++ rest ∧ n = u.length ∧ NameGroup u name := by
  have hrest : (c.movedTo tokens i).rest = tokens.drop i := rfl
  refine ⟨fun name c' => ?_, ?_, fun name n => scanName?_eq_some_iff⟩
  · rw [takeName_eq_ok_iff, hrest]
    simp only [readName_eq_ok_iff_scanName?, Cursor.skip_movedTo]
  · rw [takeName_eq_error_iff, hrest, scanName?_eq_none_iff command]

example : scanName? (Token.tokenize "\x7bgather*\x7dx") = some (Text.ofString "gather*", 9) := by
  decide +kernel

end MathMarkup.Parser
