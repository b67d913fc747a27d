import MathMarkup.Proofs.Height
import MathMarkup.Proofs.Parser.Continuing

/-!
# Which siblings are folded

A script behind a closing parenthesis applies to the whole run in parentheses that ends there. The
run is looked for backwards, with the number of parentheses that are still to be matched. What is
found is the shortest balanced run at the end that starts with an opening parenthesis, and it is
found whenever there is one; its nodes become the children of one row, and no other sibling and no
text changes (`foldParens_exact`).
-/

namespace MathMarkup.Parser

variable {siblings : List Sibling} {nodes : List Node} {d n : Nat}

/-! ## Counting parentheses -/

/-- How many of the nodes are opening parentheses. -/
def openings (nodes : List Node) : Nat :=
  nodes.countP (isParen "(")

/-- How many of the nodes are closing parentheses. -/
def closings (nodes : List Node) : Nat :=
  nodes.countP (isParen ")")

theorem openings_append (u v : List Node) : openings (u ++ v) = openings u + openings v :=
  List.countP_append

theorem closings_append (u v : List Node) : closings (u ++ v) = closings u + closings v :=
  List.countP_append

/-- A node is not both parentheses. -/
theorem isParen_close_of_open {n : Node} (h : isParen "(" n = true) : isParen ")" n = false := by
  unfold isParen at h ⊢
  rw [Bool.and_eq_true, decide_eq_true_eq] at h
  rw [h.1, h.2]
  decide

/-- No parenthesis is closed before it is opened, and none is left open. -/
structure ParensBalance (nodes : List Node) : Prop where
  equal : openings nodes = closings nodes
  before : ∀ k, closings (nodes.take k) ≤ openings (nodes.take k)

/-- An opening parenthesis stands at the given place. -/
def OpensAt (nodes : List Node) (i : Nat) : Prop :=
  ∃ n, nodes[i]? = some n ∧ isParen "(" n = true

/-- The last node is a closing parenthesis. -/
def EndsClosing (nodes : List Node) : Prop :=
  ∃ n, nodes.getLast? = some n ∧ isParen ")" n = true

/-- The nodes from the given place on are a run in parentheses of which each shorter end closes more
than it opens. -/
structure RunFrom (nodes : List Node) (i : Nat) : Prop where
  opens : OpensAt nodes i
  balance : ParensBalance (nodes.drop i)
  shorter : ∀ j, i < j → j < nodes.length → openings (nodes.drop j) < closings (nodes.drop j)

theorem OpensAt.lt_length {i : Nat} (h : OpensAt nodes i) : i < nodes.length := by
  obtain ⟨n, hn, -⟩ := h
  exact (List.getElem?_eq_some_iff.mp hn).1

/-- Where each shorter end closes more than it opens, every start opens at least as many. -/
theorem ParensBalance.of_shorter (h : openings nodes = closings nodes)
    (hshorter : ∀ j, 0 < j → j < nodes.length → openings (nodes.drop j) < closings (nodes.drop j)) :
    ParensBalance nodes := by
  refine ⟨h, fun k => ?_⟩
  have hsum : openings (nodes.take k) + openings (nodes.drop k) =
      closings (nodes.take k) + closings (nodes.drop k) := by
    rw [← openings_append, ← closings_append, List.take_append_drop, h]
  rcases Nat.eq_zero_or_pos k with rfl | hk
  · simp [closings]
  · by_cases hlength : k < nodes.length
    · have hlt := hshorter k hk hlength
      omega
    · rw [List.drop_eq_nil_of_le (by omega)] at hsum
      simp only [openings, closings, List.countP_nil, Nat.add_zero] at hsum ⊢
      exact hsum.ge

/-- There is only one such run: of two the longer one would close more than it opens. -/
theorem RunFrom.unique {i j : Nat} (hi : RunFrom nodes i) (hj : RunFrom nodes j) : i = j := by
  have le_of : ∀ {k l}, RunFrom nodes k → RunFrom nodes l → l ≤ k := by
    intro k l hk hl
    by_contra hlt
    have hshort := hk.shorter l (by omega) hl.opens.lt_length
    exact absurd hl.balance.equal (by omega)
  exact Nat.le_antisymm (le_of hj hi) (le_of hi hj)

/-! ## Looking for a run -/

/-- The nodes of siblings in the order of the document. -/
def inOrder (siblings : List Sibling) : List Node :=
  (siblings.map Sibling.node).reverse

theorem inOrder_cons (x : Sibling) (earlier : List Sibling) :
    inOrder (x :: earlier) = inOrder earlier ++ [x.node] := by
  simp [inOrder]

theorem length_inOrder (siblings : List Sibling) : (inOrder siblings).length = siblings.length := by
  simp [inOrder]

/-- The latest siblings are the last nodes. -/
theorem inOrder_take (hn : n ≤ siblings.length) :
    inOrder (siblings.take n) = (inOrder siblings).drop (siblings.length - n) := by
  rw [inOrder, inOrder, List.drop_reverse, List.length_map, List.map_take]
  congr 2
  omega

/-- The other siblings are the first nodes. -/
theorem inOrder_drop (siblings : List Sibling) (n : Nat) :
    inOrder (siblings.drop n) = (inOrder siblings).take (siblings.length - n) := by
  rw [inOrder, inOrder, List.take_reverse, List.length_map, List.map_drop]
  by_cases hn : n ≤ siblings.length
  · congr 2
    omega
  · rw [List.drop_eq_nil_of_le (by simp; omega), List.drop_eq_nil_of_le (by simp; omega)]

/-- What one sibling does to the number of parentheses to be matched. -/
theorem runLength?_cons (d : Nat) (x : Sibling) (earlier : List Sibling) :
    (openings [x.node] = 1 ∧ closings [x.node] = 0 ∧ d = 0 ∧
        runLength? (d + 1) (x :: earlier) = some 1) ∨
      ∃ d', d' + openings [x.node] = d + closings [x.node] ∧
        runLength? (d + 1) (x :: earlier) = (runLength? (d' + 1) earlier).map (· + 1) := by
  cases hopen : isParen "(" x.node with
  | true =>
    have hclose := isParen_close_of_open hopen
    cases d with
    | zero =>
      exact Or.inl (by simp [openings, closings, runLength?, hopen, hclose])
    | succ d =>
      exact Or.inr ⟨d, by simp [openings, closings, hopen, hclose],
        by simp [runLength?, hopen, hclose]⟩
  | false =>
    cases hclose : isParen ")" x.node with
    | true =>
      exact Or.inr ⟨d + 1, by simp [openings, closings, hopen, hclose],
        by simp [runLength?, hclose]⟩
    | false =>
      exact Or.inr ⟨d, by simp [openings, closings, hopen, hclose],
        by simp [runLength?, hopen, hclose]⟩

/-- The run that is found is the first one, from the latest sibling, with enough openings. -/
theorem openings_of_runLength? (h : runLength? (d + 1) siblings = some n) :
    openings (inOrder (siblings.take n)) = closings (inOrder (siblings.take n)) + (d + 1) ∧
      ∀ m < n, openings (inOrder (siblings.take m)) <
        closings (inOrder (siblings.take m)) + (d + 1) := by
  induction siblings generalizing d n with
  | nil => cases h
  | cons x earlier ih =>
    obtain ⟨hopen, hclose, rfl, hstop⟩ | ⟨d', hd, hgoes⟩ := runLength?_cons d x earlier
    · rw [hstop] at h
      cases h
      refine ⟨by simpa [inOrder, hclose] using hopen, fun m hm => ?_⟩
      rw [Nat.lt_one_iff.mp hm]
      simp [inOrder, openings]
    · rw [hgoes] at h
      obtain ⟨k, hk, rfl⟩ := Option.map_eq_some_iff.mp h
      obtain ⟨heq, hlt⟩ := ih hk
      refine ⟨?_, fun m hm => ?_⟩
      · rw [List.take_succ_cons, inOrder_cons, openings_append, closings_append]
        omega
      · cases m with
        | zero => simp [inOrder, openings]
        | succ m =>
          have hm' := hlt m (Nat.lt_of_succ_lt_succ hm)
          rw [List.take_succ_cons, inOrder_cons, openings_append, closings_append]
          omega

/-- Where no run is found there are never enough openings. -/
theorem openings_of_runLength?_eq_none (h : runLength? (d + 1) siblings = none) (n : Nat) :
    openings (inOrder (siblings.take n)) < closings (inOrder (siblings.take n)) + (d + 1) := by
  induction siblings generalizing d n with
  | nil => simp [inOrder, openings]
  | cons x earlier ih =>
    cases n with
    | zero => simp [inOrder, openings]
    | succ n =>
      obtain ⟨-, -, -, hstop⟩ | ⟨d', hd, hgoes⟩ := runLength?_cons d x earlier
      · rw [hstop] at h
        cases h
      · rw [hgoes, Option.map_eq_none_iff] at h
        have hn := ih h n
        rw [List.take_succ_cons, inOrder_cons, openings_append, closings_append]
        omega

variable {latest : Sibling} {earlier : List Sibling}

/-- A run is looked for behind the latest sibling, which is to be matched first. -/
theorem runLength?_closing (hclose : isParen ")" latest.node = true) :
    runLength? 0 (latest :: earlier) = (runLength? 1 earlier).map (· + 1) := by
  simp [runLength?, hclose]

theorem openings_closing (hclose : isParen ")" latest.node = true) :
    openings [latest.node] = 0 ∧ closings [latest.node] = 1 := by
  have hopen : isParen "(" latest.node = false := by
    by_contra h
    rw [isParen_close_of_open (by simpa using h)] at hclose
    cases hclose
  simp [openings, closings, hopen, hclose]

/-- What is found is a run. -/
theorem runFrom_of_runLength? (hclose : isParen ")" latest.node = true)
    (h : runLength? 0 (latest :: earlier) = some n) :
    RunFrom (inOrder (latest :: earlier)) ((latest :: earlier).length - n) := by
  have hle := length_of_runLength? h
  obtain ⟨first, hfirst, hopens⟩ := isParen_of_runLength? h
  rw [runLength?_closing hclose] at h
  obtain ⟨k, hk, rfl⟩ := Option.map_eq_some_iff.mp h
  obtain ⟨heq, hlt⟩ := openings_of_runLength? hk
  obtain ⟨hopen, hclosing⟩ := openings_closing hclose
  have hshorter : ∀ j, (latest :: earlier).length - (k + 1) < j → j < (latest :: earlier).length →
      openings ((inOrder (latest :: earlier)).drop j) <
        closings ((inOrder (latest :: earlier)).drop j) := by
    intro j hj hlength
    -- The end from `j` on is made up of the latest siblings, fewer than those of the run.
    obtain ⟨m, hm⟩ := Nat.exists_eq_add_one_of_ne_zero (Nat.sub_ne_zero_of_lt hlength)
    have hj' : j = (latest :: earlier).length - (m + 1) := by omega
    have hm' := hlt m (by omega)
    rw [hj', ← inOrder_take (by omega), List.take_succ_cons, inOrder_cons, openings_append,
      closings_append]
    omega
  refine ⟨⟨first.node, ?_, hopens⟩, .of_shorter ?_ ?_, ?_⟩
  · rw [← List.head?_drop, ← inOrder_take hle, inOrder, List.head?_reverse, List.getLast?_map,
      hfirst, Option.map_some]
  · rw [← inOrder_take hle, List.take_succ_cons, inOrder_cons, openings_append, closings_append]
    omega
  · intro j hj hlength
    rw [List.length_drop, length_inOrder] at hlength
    rw [List.drop_drop]
    exact hshorter _ (by omega) (by omega)
  · intro j hj hlength
    rw [length_inOrder] at hlength
    exact hshorter j hj hlength

/-- A run is found wherever the parentheses behind an opening one match in number. -/
theorem runLength?_ne_none {i : Nat} (hclose : isParen ")" latest.node = true)
    (hopens : OpensAt (inOrder (latest :: earlier)) i)
    (hequal : openings ((inOrder (latest :: earlier)).drop i) =
      closings ((inOrder (latest :: earlier)).drop i)) :
    runLength? 0 (latest :: earlier) ≠ none := by
  intro hnone
  rw [runLength?_closing hclose, Option.map_eq_none_iff] at hnone
  have hi := hopens.lt_length
  rw [length_inOrder] at hi
  obtain ⟨m, hm⟩ := Nat.exists_eq_add_one_of_ne_zero (Nat.sub_ne_zero_of_lt hi)
  have hi' : i = (latest :: earlier).length - (m + 1) := by omega
  have hlt := openings_of_runLength?_eq_none hnone m
  obtain ⟨hopen, hclosing⟩ := openings_closing hclose
  rw [hi', ← inOrder_take (by omega), List.take_succ_cons, inOrder_cons, openings_append,
    closings_append] at hequal
  omega

/-! ## Folding -/

theorem endsClosing_inOrder (latest : Sibling) (earlier : List Sibling) :
    EndsClosing (inOrder (latest :: earlier)) ↔ isParen ")" latest.node = true := by
  simp [EndsClosing, inOrder_cons]

theorem foldParens_of_not_run (h : ¬EndsClosing (inOrder siblings) ∨
      ∀ i, OpensAt (inOrder siblings) i → ¬ParensBalance ((inOrder siblings).drop i)) :
    foldParens siblings = siblings := by
  unfold foldParens
  split
  · rfl
  · next latest earlier =>
    split
    · next hclose =>
      split
      · next n hfound =>
        have hrun := runFrom_of_runLength? hclose hfound
        rcases h with h | h
        · exact absurd ((endsClosing_inOrder latest earlier).mpr hclose) h
        · exact absurd hrun.balance (h _ hrun.opens)
      · rfl
    · rfl

theorem foldParens_of_run {i : Nat} (hends : EndsClosing (inOrder siblings))
    (hopens : OpensAt (inOrder siblings) i)
    (hequal : openings ((inOrder siblings).drop i) = closings ((inOrder siblings).drop i)) :
    ∃ j, RunFrom (inOrder siblings) j ∧ inOrder (foldParens siblings) =
      (inOrder siblings).take j ++ [.row ((inOrder siblings).drop j)] := by
  cases siblings with
  | nil =>
    obtain ⟨n, hn, -⟩ := hends
    cases hn
  | cons latest earlier =>
    have hclose := (endsClosing_inOrder latest earlier).mp hends
    obtain ⟨n, hfound⟩ := Option.ne_none_iff_exists'.mp (runLength?_ne_none hclose hopens hequal)
    refine ⟨_, runFrom_of_runLength? hclose hfound, ?_⟩
    have hfold : foldParens (latest :: earlier) =
        .atom (.row (inOrder ((latest :: earlier).take n))) :: (latest :: earlier).drop n := by
      simp only [foldParens, hclose, if_true, hfound, inOrder]
    rw [hfold, inOrder_cons, inOrder_drop, inOrder_take (length_of_runLength? hfound), Sibling.node]

/-- A row in place of nodes shows the same text. -/
theorem innerTexts_append_row (first rest : List Node) :
    Node.innerTexts (first ++ [.row rest]) = Node.innerTexts (first ++ rest) := by
  simp only [Node.innerTexts_eq_flatMap, List.flatMap_append, List.flatMap_cons, List.flatMap_nil,
    Node.row, Node.innerText, List.append_nil]

theorem innerTexts_foldParens (siblings : List Sibling) :
    Node.innerTexts (inOrder (foldParens siblings)) = Node.innerTexts (inOrder siblings) := by
  by_cases h : EndsClosing (inOrder siblings) ∧
      ∃ i, OpensAt (inOrder siblings) i ∧ ParensBalance ((inOrder siblings).drop i)
  · obtain ⟨hends, i, hopens, hbalance⟩ := h
    obtain ⟨j, -, hfold⟩ := foldParens_of_run hends hopens hbalance.equal
    rw [hfold, innerTexts_append_row, List.take_append_drop]
  · rw [foldParens_of_not_run (by simpa [imp_iff_not_or] using h)]

/-- Siblings stay as they are if the last of them is no closing parenthesis or no balanced run ends
there. Otherwise a single place starts a run of which each shorter end closes more than it opens,
and the nodes from there on become the children of one row behind the others; for that, the
parentheses from an opening one on need only match in number. The text stays the same. -/
theorem foldParens_exact (siblings : List Sibling) :
    (¬EndsClosing (inOrder siblings) ∨
        (∀ i, OpensAt (inOrder siblings) i → ¬ParensBalance ((inOrder siblings).drop i)) →
      foldParens siblings = siblings) ∧
    (EndsClosing (inOrder siblings) ∧ (∃ i, OpensAt (inOrder siblings) i ∧
        openings ((inOrder siblings).drop i) = closings ((inOrder siblings).drop i)) →
      ∃ i, RunFrom (inOrder siblings) i ∧ (∀ j, RunFrom (inOrder siblings) j → j = i) ∧
        inOrder (foldParens siblings) =
          (inOrder siblings).take i ++ [.row ((inOrder siblings).drop i)]) ∧
    Node.innerTexts (inOrder (foldParens siblings)) = Node.innerTexts (inOrder siblings) := by
  refine ⟨foldParens_of_not_run, ?_, innerTexts_foldParens siblings⟩
  rintro ⟨hends, i, hopens, hequal⟩
  obtain ⟨j, hrun, hfold⟩ := foldParens_of_run hends hopens hequal
  exact ⟨j, hrun, fun k hk => hk.unique hrun, hfold⟩

/-- The siblings of `((a)(b))`, the latest first. -/
def twoRuns : List Sibling :=
  [.atom (.operator ")" []), .atom (.operator ")" []), .atom (.identifier "b"),
    .atom (.operator "(" []), .atom (.operator ")" []), .atom (.identifier "a"),
    .atom (.operator "(" []), .atom (.operator "(" [])]

/-- All of `((a)(b))` is the run that ends there, since each shorter end closes more than it
opens. -/
theorem foldParens_exact_twoRuns :
    RunFrom (inOrder twoRuns) 0 ∧
      inOrder (foldParens twoRuns) = [.row (inOrder twoRuns)] := by
  have hends : EndsClosing (inOrder twoRuns) := ⟨.operator ")" [], by decide, by decide⟩
  have hopens : OpensAt (inOrder twoRuns) 0 := ⟨.operator "(" [], by decide, by decide⟩
  obtain ⟨i, hrun, -, hfold⟩ := (foldParens_exact twoRuns).2.1 ⟨hends, 0, hopens, by decide⟩
  have honly : ∀ j < (inOrder twoRuns).length,
      openings ((inOrder twoRuns).drop j) = closings ((inOrder twoRuns).drop j) → j = 0 := by
    decide
  obtain rfl := honly i hrun.opens.lt_length hrun.balance.equal
  exact ⟨hrun, hfold⟩

end MathMarkup.Parser
