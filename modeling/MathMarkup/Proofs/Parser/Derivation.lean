import MathMarkup.Proofs.Parser.Reading

/-!
# The grammar of formulas

`Derives s w form` says that the tokens `w` are read as `form`, by one rule for each way in which
the parser goes on: siblings with their scripts, groups, atoms, commands and environments. The
rules speak about tokens only; the cursor, the scopes and the limit on nesting do not occur.

A parse that succeeds has a derivation of the tokens that it took (`MathMarkup.Proofs.Parser.Run`),
so that what is true of all derivations is true of all parses.
-/

namespace List.IsInfix

/-! ## Parts of a word

What holds of the tokens of a rule because they stand in a row in a source holds of its parts. -/

variable {α : Type} {x : α} {u v w : List α}

theorem left (h : u ++ v <:+: w) : u <:+: w :=
  List.infix_append_left.trans h

theorem right (h : u ++ v <:+: w) : v <:+: w :=
  List.infix_append_right.trans h

theorem tail (h : x :: v <:+: w) : v <:+: w :=
  (List.suffix_cons x v).isInfix.trans h

end List.IsInfix

namespace MathMarkup.Parser

/-! ## Parts of a source that are not parsed -/

/-- A name in braces. -/
def NameGroup (w : List Token) (name : Text) : Prop :=
  ∃ (opening : Token) (pieces : List Token) (closing : Token),
    w = opening :: (pieces ++ [closing]) ∧ opening.isOpenBrace = true ∧ pieces ≠ [] ∧
    (∀ t ∈ pieces, isNamePiece t = true) ∧ closing.isCloseBrace = true ∧
    name = (pieces.map Token.value).flatten

/-- A group in braces as the source text between them: the closing brace is the first one that
balances the opening one. -/
def RawGroup (s : Setup) (w : List Token) (content : Text) : Prop :=
  ∃ (opening : Token) (body : List Token) (closing : Token),
    w = opening :: (body ++ [closing]) ∧ opening.isOpenBrace = true ∧
    closingBrace? 0 (body ++ [closing]) = some (closing, body.length + 1) ∧
    content = s.source.between (opening.offset + 1) closing.offset

/-- The argument of an environment, which is there only if the environment takes one. -/
def ArgumentGroup (s : Setup) (e : Environment) (w : List Token) (argument : Text) : Prop :=
  if e.takesArgument then RawGroup s w argument else w = [] ∧ argument = []

/-! ## Nodes -/

/-- The siblings behind a command on the placement of limits. -/
def placeLimits (movable : Bool) : List Sibling → List Sibling
  | .atom node :: earlier =>
    if node.hasName "mo" then
      .atom (node.setAttribute "movablelimits" (Command.truthText movable)) :: earlier
    else .atom node :: earlier
  | done => done

/-- The environment of a name: one that is not known groups its content. -/
def environmentOf (grammar : Grammar) (name : Text) : Environment :=
  (grammar.environments.get? name).getD .generic

/-- Whether the content of an environment is cut into cells. -/
def isGrid (e : Environment) : Bool :=
  match e.kind with
  | .display | .container => false
  | .table | .fencedTable | .array => true

/-- An environment whose content is one expression. -/
def flowNode (name : Text) (e : Environment) (content : Node) : Node :=
  match e.kind with
  | .display => .element "mstyle" [("displaystyle", "true")] [content]
  | _ => .element "mrow" [("class", "latex-" ++ name)] [content]

/-- An environment whose content is cut into cells. -/
def gridNode (e : Environment) (argument : Text) (rows : List (List Node)) : Node :=
  match e.kind with
  | .fencedTable => .element "mfenced" [("open", e.opening), ("close", e.closing)]
    [tableNode (dropEmptyRow rows) e.columnAlign]
  | .array => tableNode (dropEmptyRow rows) (Environment.columnAlignment argument)
  | _ => tableNode (dropEmptyRow rows) e.columnAlign

/-- All between two delimiters, of which those that are not shown are left out. -/
def pairNode (opening : Option Text) (content : Node) (closing : Option Text) : Node :=
  .collapse ((opening.map fenceNode).toList ++
    (if content.isEmpty then [] else [content]) ++ (closing.map fenceNode).toList)

/-! ## The rules -/

/-- What tokens may be read as. -/
inductive Form where
  /-- A run of siblings, latest first. -/
  | siblings (done : List Sibling)
  /-- A group in braces. -/
  | group (content : Node)
  /-- A group in brackets. -/
  | brackets (content : Node)
  /-- A group in brackets or nothing. -/
  | optional (content : Option Node)
  /-- The cells of the row at hand and the finished rows, latest first. -/
  | rows (cells : List Node) (rows : List (List Node))
  /-- The content of an environment. -/
  | body (name : Text) (e : Environment) (argument : Text) (node : Node)
  | atom (node : Node)
  /-- An atom as it stands among its siblings. -/
  | placed (node : Node)
  /-- The argument of a script. -/
  | script (node : Node)

/-- The tokens are read as the form. -/
inductive Derives (s : Setup) : List Token → Form → Prop where
  -- Siblings.
  | nothing : Derives s [] (.siblings [])
  | next {u w : List Token} {done : List Sibling} {n : Node} :
    Derives s u (.siblings done) → Derives s w (.placed n) →
      Derives s (u ++ w) (.siblings (.atom n :: done))
  | script {u w : List Token} {t : Token} {script : Script} {n : Node}
      {done bound : List Sibling} :
    Derives s u (.siblings done) → Script.ofToken? t = some script → Derives s w (.script n) →
      bindScript? script n done = some bound → Derives s (u ++ t :: w) (.siblings bound)
  | limits {u : List Token} {t : Token} {movable : Bool} {done : List Sibling} :
    Derives s u (.siblings done) → limits? s.grammar t = some movable →
      Derives s (u ++ [t]) (.siblings (placeLimits movable done))
  -- Groups.
  | group {w : List Token} {opening closing : Token} {done : List Sibling} :
    opening.isOpenBrace = true → Derives s w (.siblings done) → closing.isCloseBrace = true →
      Derives s (opening :: (w ++ [closing])) (.group (collapseSiblings done))
  | brackets {w : List Token} {opening closing : Token} {done : List Sibling} :
    opening.isOpenBracket = true → Derives s w (.siblings done) → closing.isCloseBracket = true →
      Derives s (opening :: (w ++ [closing])) (.brackets (collapseSiblings done))
  | absent : Derives s [] (.optional none)
  | present {w : List Token} {n : Node} :
    Derives s w (.brackets n) → Derives s w (.optional (some n))
  -- Atoms that are no commands.
  | symbol {t : Token} : t.kind = .symbol → Derives s [t] (.atom (symbolNode s.grammar t.value))
  | number {t : Token} : t.kind = .number → Derives s [t] (.atom (.number t.value))
  | text {t : Token} : t.kind = .text → Derives s [t] (.atom (.textElement t.value []))
  | braced {w : List Token} {n : Node} : Derives s w (.group n) → Derives s w (.atom n)
  | bracketed {w : List Token} {n : Node} : Derives s w (.brackets n) →
      Derives s w (.atom (.element "mfenced" [("open", "["), ("close", "]")] [n]))
  -- Commands.
  | unknown {t : Token} : t.kind = .command → s.grammar.commands.get? t.value = none →
      Derives s [t] (.atom (.textElement t.value []))
  | plain {t : Token} {c : Command} {n : Node} : t.kind = .command →
      s.grammar.commands.get? t.value = some c → reading s t c = .nothing n →
      Derives s [t] (.atom n)
  | raw {t : Token} {c : Command} {build : Text → Node} {w : List Token} {content : Text} :
    t.kind = .command → s.grammar.commands.get? t.value = some c → reading s t c = .raw build →
      RawGroup s w content → Derives s (t :: w) (.atom (build content))
  | one {t : Token} {c : Command} {build : Node → Node} {w : List Token} {n : Node} :
    t.kind = .command → s.grammar.commands.get? t.value = some c → reading s t c = .one build →
      Derives s w (.group n) → Derives s (t :: w) (.atom (build n.slot))
  | two {t : Token} {c : Command} {build : Node → Node → Node} {v w : List Token} {n m : Node} :
    t.kind = .command → s.grammar.commands.get? t.value = some c → reading s t c = .two build →
      Derives s v (.group n) → Derives s w (.group m) →
      Derives s (t :: (v ++ w)) (.atom (build n.slot m.slot))
  | delimiter {t d : Token} {c : Command} {build : Option Text → Node} {shown : Option Text} :
    t.kind = .command → s.grammar.commands.get? t.value = some c →
      reading s t c = .delimiter build → delimiter? s.grammar d = some shown →
      Derives s [t, d] (.atom (build shown))
  | squareRoot {t : Token} {c : Command} {v w : List Token} {degree : Option Node} {n : Node} :
    t.kind = .command → s.grammar.commands.get? t.value = some c →
      reading s t c = .squareRoot → Derives s v (.optional degree) → Derives s w (.group n) →
      Derives s (t :: (v ++ w)) (.atom (Reading.rootNode degree n.slot))
  | root {t : Token} {c : Command} {u v w : List Token} {n m : Node} :
    t.kind = .command → s.grammar.commands.get? t.value = some c → reading s t c = .root →
      Derives s u (.group n) → (v = [] ∨ ∃ of, v = [of] ∧ of.isCommand "\\of" = true) →
      Derives s w (.group m) →
      Derives s (t :: (u ++ (v ++ w))) (.atom (.element "mroot" [] [m.slot, n.slot]))
  | leftRight {t d right d' : Token} {c : Command} {opening closing : Option Text}
      {w : List Token} {done : List Sibling} :
    t.kind = .command → s.grammar.commands.get? t.value = some c → reading s t c = .leftRight →
      delimiter? s.grammar d = some opening → Derives s w (.siblings done) →
      right.isCommand "\\right" = true → delimiter? s.grammar d' = some closing →
      Derives s (t :: d :: (w ++ [right, d']))
        (.atom (pairNode opening (collapseSiblings done) closing))
  -- Environments.
  | firstCell {w : List Token} {done : List Sibling} : Derives s w (.siblings done) →
      Derives s w (.rows [collapseSiblings done] [])
  | nextCell {u w : List Token} {t : Token} {cells : List Node} {rows : List (List Node)}
      {done : List Sibling} :
    Derives s u (.rows cells rows) → isCellSeparator t = true → Derives s w (.siblings done) →
      Derives s (u ++ t :: w) (.rows (collapseSiblings done :: cells) rows)
  | nextRow {u v w : List Token} {t : Token} {cells : List Node} {rows : List (List Node)}
      {hint : Option Node} {done : List Sibling} :
    Derives s u (.rows cells rows) → isRowSeparator t = true → Derives s v (.optional hint) →
      Derives s w (.siblings done) →
      Derives s (u ++ t :: (v ++ w)) (.rows [collapseSiblings done] (cells.reverse :: rows))
  | flow {w : List Token} {name argument : Text} {e : Environment} {done : List Sibling} :
    isGrid e = false → Derives s w (.siblings done) →
      Derives s w (.body name e argument (flowNode name e (collapseSiblings done)))
  | grid {w : List Token} {name argument : Text} {e : Environment} {cells : List Node}
      {rows : List (List Node)} :
    isGrid e = true → Derives s w (.rows cells rows) →
      Derives s w (.body name e argument (gridNode e argument (cells.reverse :: rows).reverse))
  | environment {t t' : Token} {v v' a w : List Token} {name argument : Text} {n : Node} :
    t.isCommand "\\begin" = true → NameGroup v name →
      ArgumentGroup s (environmentOf s.grammar name) a argument →
      Derives s w (.body name (environmentOf s.grammar name) argument n) →
      t'.isCommand "\\end" = true → NameGroup v' name →
      Derives s (t :: (v ++ (a ++ (w ++ t' :: v')))) (.atom n)
  -- Atoms in their places.
  | placed {t : Token} {w : List Token} {n : Node} : Derives s (t :: w) (.atom n) →
      Derives s (t :: w) (.placed (placedNode s t n))
  | group_script {w : List Token} {n : Node} : Derives s w (.group n) →
      Derives s w (.script n.slot)
  | atom_script {t : Token} {w : List Token} {n : Node} : t.isOpenBrace = false →
      Derives s (t :: w) (.placed n) → Derives s (t :: w) (.script n)

end MathMarkup.Parser
