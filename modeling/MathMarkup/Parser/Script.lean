import MathMarkup.Node
import MathMarkup.Script

/-!
# Siblings and their scripts

An expression is built from siblings, kept latest first. A sibling is an atom, or a base with one or
two scripts. A script goes to the latest sibling; a run of siblings in parentheses is folded into
one row first, so that the script applies to the whole run.
-/

namespace MathMarkup.Parser

/-- The scripts bound to a base. -/
inductive Scripts where
  | sub (node : Node)
  | sup (node : Node)
  | both (sub sup : Node)
deriving DecidableEq, Repr

namespace Scripts

/-- A first script. -/
def single : Script → Node → Scripts
  | .subscript, node => .sub node
  | .superscript, node => .sup node

/-- A script added to those present, unless there is one of its kind. -/
def add? : Scripts → Script → Node → Option Scripts
  | .sub a, .superscript, b => some (.both a b)
  | .sup b, .subscript, a => some (.both a b)
  | _, _, _ => none

end Scripts

/-- Whether scripts of this base stand below and above it. -/
def takesLimits (base : Node) : Bool :=
  base.hasName "mo" && base.attribute? "movablelimits" = some (Text.ofString "true")

/-- A base with its scripts as one element. -/
def scriptNode (base : Node) (scripts : Scripts) : Node :=
  let limits := takesLimits base
  match scripts with
  | .both sub sup => .element (if limits then "munderover" else "msubsup") [] [base, sub, sup]
  | .sub sub => .element (if limits then "munder" else "msub") [] [base, sub]
  | .sup sup => .element (if limits then "mover" else "msup") [] [base, sup]

/-- One of the nodes that make up an expression. -/
inductive Sibling where
  | atom (node : Node)
  | scripted (base : Node) (scripts : Scripts)
deriving DecidableEq, Repr

/-- A sibling as a node. -/
def Sibling.node : Sibling → Node
  | .atom node => node
  | .scripted base scripts => scriptNode base scripts

/-- Whether the node is an operator with the given text. -/
def isParen (paren : Text) (node : Node) : Bool :=
  node.hasName "mo" && node.innerText = paren

/-- How many of the siblings, counted from the latest, make up a run in parentheses of which `depth`
closing ones are still to be matched. -/
def runLength? : (depth : Nat) → List Sibling → Option Nat
  | _, [] => none
  | depth, sibling :: earlier =>
    if isParen ")" sibling.node then (runLength? (depth + 1) earlier).map (· + 1)
    else if isParen "(" sibling.node then
      if depth ≤ 1 then some 1 else (runLength? (depth - 1) earlier).map (· + 1)
    else (runLength? depth earlier).map (· + 1)

/-- The siblings with a run in parentheses at the end folded into one row. -/
def foldParens (siblings : List Sibling) : List Sibling :=
  match siblings with
  | [] => []
  | latest :: _ =>
    if isParen ")" latest.node then
      match runLength? 0 siblings with
      | some n => .atom (.row ((siblings.take n).map Sibling.node).reverse) :: siblings.drop n
      | none => siblings
    else siblings

/-- The siblings with a script bound to the latest one. There is none if the latest sibling has a
script of that kind, or if there is no sibling. -/
def bindScript? (script : Script) (argument : Node) (siblings : List Sibling) :
    Option (List Sibling) :=
  match siblings with
  | .scripted base scripts :: earlier =>
    (scripts.add? script argument).map fun all => .scripted base all :: earlier
  | _ =>
    match foldParens siblings with
    | base :: earlier => some (.scripted base.node.slot (.single script argument) :: earlier)
    | [] => none

/-- The siblings as one node. -/
def collapseSiblings (siblings : List Sibling) : Node :=
  .collapse (siblings.map Sibling.node).reverse

end MathMarkup.Parser
