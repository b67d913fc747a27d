import MathMarkup.Draft.Check
import MathMarkup.Proofs.Except

/-!
# The nodes of a draft

`Draft.nodes` lists a draft and all below it, a value that is no node among them. What a check
reports is a matter of the single nodes: a draft passes exactly if no node of it has a violation of
its own (`Draft.check_eq_ok_nil_iff`).
-/

namespace MathMarkup.Draft

mutual

/-- The draft itself and all below it, in document order. -/
def nodes : Draft → List Draft
  | .element name attributes children =>
    .element name attributes children :: nodesOfAll children
  | .text content extra => [.text content extra]
  | .childless name attributes children => [.childless name attributes children]
  | .plain value => [.plain value]

/-- The nodes of several drafts, one after the other. -/
def nodesOfAll : List Draft → List Draft
  | [] => []
  | c :: rest => c.nodes ++ nodesOfAll rest

end

/-- To show something of a draft, it may be assumed of its children. -/
@[elab_as_elim]
theorem inductionOn {motive : Draft → Prop} (d : Draft)
    (text : ∀ content extra, motive (.text content extra))
    (element : ∀ name attributes children, (∀ c ∈ children, motive c) →
      motive (.element name attributes children))
    (childless : ∀ name attributes children, motive (.childless name attributes children))
    (plain : ∀ value, motive (.plain value)) : motive d :=
  match d with
  | .text content extra => text content extra
  | .element name attributes children =>
    element name attributes children fun c hc =>
      have : sizeOf c < sizeOf children := List.sizeOf_lt_of_mem hc
      inductionOn c text element childless plain
  | .childless name attributes children => childless name attributes children
  | .plain value => plain value
termination_by sizeOf d
decreasing_by
  simp only [Draft.element.sizeOf_spec]
  omega

theorem nodesOfAll_eq_flatMap (children : List Draft) :
    nodesOfAll children = children.flatMap nodes := by
  induction children with
  | nil => rfl
  | cons c rest ih => rw [nodesOfAll, ih, List.flatMap_cons]

theorem mem_nodes_element {m : Draft} {name attributes : Value} {children : List Draft} :
    m ∈ (Draft.element name attributes children).nodes ↔
      m = .element name attributes children ∨ ∃ c ∈ children, m ∈ c.nodes := by
  simp [nodes, nodesOfAll_eq_flatMap]

/-! ## Reports -/

theorem ownReports_eq_ok_nil_iff {parent : Text} {d : Draft} :
    ownReports parent d = .ok [] ↔ d.violations = [] :=
  mapM_eq_ok_nil_iff

theorem childReports_eq_ok_nil_iff {children : List Draft} (parent : Text) (index : Nat)
    (h : ∀ c ∈ children, ∀ path, reports path c = .ok [] ↔ ∀ m ∈ c.nodes, m.violations = []) :
    childReports parent index children = .ok [] ↔
      ∀ c ∈ children, ∀ m ∈ c.nodes, m.violations = [] := by
  induction children generalizing index with
  | nil => simp [childReports]
  | cons c rest ih =>
    have hc := h c List.mem_cons_self (parent ++ "[" ++ Text.ofNat index ++ "]")
    have hrest := ih (index + 1) fun x hx => h x (List.mem_cons_of_mem c hx)
    rw [childReports, append_eq_ok_nil_iff, hc, hrest, List.forall_mem_cons]

/-- The path of a draft does not matter for whether it passes. -/
theorem reports_eq_ok_nil_iff (parent : Text) (d : Draft) :
    reports parent d = .ok [] ↔ ∀ m ∈ d.nodes, m.violations = [] := by
  induction d using inductionOn generalizing parent with
  | text content extra => simp [reports, ownReports_eq_ok_nil_iff, nodes]
  | childless name attributes children => simp [reports, ownReports_eq_ok_nil_iff, nodes]
  | plain value => simp [reports, ownReports_eq_ok_nil_iff, nodes]
  | element name attributes children ih =>
    have hchildren := childReports_eq_ok_nil_iff
      (path parent (.element name attributes children)) 0 fun c hc path => ih c hc path
    rw [reports, append_eq_ok_nil_iff, ownReports_eq_ok_nil_iff, hchildren]
    simp only [mem_nodes_element, or_imp, forall_and, forall_eq]
    grind

theorem check_eq_ok_iff {d : Draft} {v : Validation} :
    d.check = .ok v ↔ ∃ errors, reports [] d = .ok errors ∧ v = ⟨errors, []⟩ := by
  unfold check
  rw [bind_eq_ok_iff]
  refine exists_congr fun errors => and_congr_right fun _ => ?_
  exact ⟨fun h => (Except.ok.inj h).symm, fun h => congrArg _ h.symm⟩

/-- A draft passes the check exactly if none of its nodes has a violation of its own. -/
theorem check_eq_ok_nil_iff (d : Draft) :
    d.check = .ok ⟨[], []⟩ ↔ ∀ m ∈ d.nodes, m.violations = [] := by
  rw [← reports_eq_ok_nil_iff [] d, check_eq_ok_iff]
  simp

end MathMarkup.Draft
