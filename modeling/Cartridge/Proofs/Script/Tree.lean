import Cartridge.Proofs.Outcome
import Cartridge.Script.Compile

/-!
# Script trees

Induction over the nodes of a script, its statements in the order of lines, and scripts without
problems: a script that is compiled without an error (`resolvedAll_of_accepts`) has no statement and
no condition with a problem.
-/

namespace Cartridge.Script

/-- Induction over a list of nodes: the first node is taken apart, and the claim holds for the nodes
inside it and for those behind it. -/
@[elab_as_elim]
theorem nodes_induction {motive : List Node → Prop} (nil : motive [])
    (statement : ∀ s ns, motive ns → motive (.statement s :: ns))
    (choice : ∀ c t e ns, motive t → motive e → motive ns → motive (.choice c t e :: ns))
    (loop : ∀ c b ns, motive b → motive ns → motive (.loop c b :: ns))
    (comment : ∀ text ns, motive ns → motive (.comment text :: ns)) :
    ∀ ns, motive ns
  | [] => nil
  | .statement s :: ns =>
    statement s ns (nodes_induction nil statement choice loop comment ns)
  | .choice c t e :: ns =>
    choice c t e ns (nodes_induction nil statement choice loop comment t)
      (nodes_induction nil statement choice loop comment e)
      (nodes_induction nil statement choice loop comment ns)
  | .loop c b :: ns =>
    loop c b ns (nodes_induction nil statement choice loop comment b)
      (nodes_induction nil statement choice loop comment ns)
  | .comment text :: ns =>
    comment text ns (nodes_induction nil statement choice loop comment ns)

section Statements

mutual

/-- The statements of a node in the order of lines. -/
def Node.statements : Node → List Statement
  | .statement s => [s]
  | .choice _ t e => statementsOf t ++ statementsOf e
  | .loop _ b => statementsOf b
  | .comment _ => []

def statementsOf : List Node → List Statement
  | [] => []
  | n :: ns => n.statements ++ statementsOf ns

end

mutual

/-- The conditions of a node in the order of lines. -/
def Node.conditions : Node → List Condition
  | .statement _ => []
  | .choice c t e => c :: (conditionsOf t ++ conditionsOf e)
  | .loop c b => c :: conditionsOf b
  | .comment _ => []

def conditionsOf : List Node → List Condition
  | [] => []
  | n :: ns => n.conditions ++ conditionsOf ns

end

end Statements

/-! ## Scripts without problems -/

section Resolved

variable (ctx : Context)

mutual

/-- No statement and no condition in the node has a problem. -/
def Node.Resolved : Node → Prop
  | .statement s => s.problems ctx = []
  | .choice c t e => c.problems ctx = [] ∧ ResolvedAll t ∧ ResolvedAll e
  | .loop c b => c.problems ctx = [] ∧ ResolvedAll b
  | .comment _ => True

def ResolvedAll : List Node → Prop
  | [] => True
  | n :: ns => n.Resolved ∧ ResolvedAll ns

end

variable {ctx}

theorem resolvedAll_append {xs ys : List Node} :
    ResolvedAll ctx (xs ++ ys) ↔ ResolvedAll ctx xs ∧ ResolvedAll ctx ys := by
  induction xs with
  | nil => simp [ResolvedAll]
  | cons n ns ih => rw [List.cons_append, ResolvedAll, ResolvedAll, ih, and_assoc]

/-- Problems are those of statements and conditions. -/
theorem resolvedAll_iff {ns : List Node} : ResolvedAll ctx ns ↔
    (∀ s ∈ statementsOf ns, s.problems ctx = []) ∧
      ∀ c ∈ conditionsOf ns, c.problems ctx = [] := by
  induction ns using nodes_induction with
  | nil => simp [ResolvedAll, statementsOf, conditionsOf]
  | statement s ns ih =>
    rw [ResolvedAll, ih, statementsOf, conditionsOf, List.forall_mem_append]
    simp only [Node.Resolved, Node.statements, Node.conditions, List.forall_mem_singleton,
      List.nil_append]
    exact and_assoc.symm
  | choice c t e ns iht ihe ih =>
    rw [ResolvedAll, ih, statementsOf, conditionsOf, List.forall_mem_append]
    simp only [Node.Resolved, Node.statements, Node.conditions, List.forall_mem_append,
      List.cons_append, List.forall_mem_cons, iht, ihe]
    tauto
  | loop c b ns ihb ih =>
    rw [ResolvedAll, ih, statementsOf, conditionsOf, List.forall_mem_append]
    simp only [Node.Resolved, Node.statements, Node.conditions, List.forall_mem_append,
      List.cons_append, List.forall_mem_cons, ihb]
    tauto
  | comment text ns ih =>
    rw [ResolvedAll, ih, statementsOf, conditionsOf]
    simp only [Node.Resolved, Node.statements, Node.conditions, List.nil_append, true_and]

theorem problems_eq_nil_of_mem_statementsOf {ns : List Node} (h : ResolvedAll ctx ns)
    {s : Statement} (hs : s ∈ statementsOf ns) : s.problems ctx = [] :=
  (resolvedAll_iff.mp h).1 s hs

/-! ### The remarks of a script without errors -/

variable (deep : Option Nat)

/-- No remark on the nodes is an error. -/
def Quiet (rs : List Remark) : Prop := ∀ r ∈ rs, r.finding.severity ≠ .error

theorem quiet_append {xs ys : List Remark} : Quiet (xs ++ ys) ↔ Quiet xs ∧ Quiet ys := by
  simp only [Quiet, List.mem_append]
  exact ⟨fun h => ⟨fun r hr => h r (Or.inl hr), fun r hr => h r (Or.inr hr)⟩,
    fun h r hr => hr.elim (h.1 r) (h.2 r)⟩

theorem quiet_problemRemarks_iff {line : Nat} {ps : List Problem} :
    Quiet (problemRemarks line ps) ↔ ps = [] := by
  cases ps with
  | nil => simp [Quiet, problemRemarks]
  | cons p ps =>
    constructor
    · intro h
      exact absurd rfl (h ⟨line, .problem p⟩ List.mem_cons_self)
    · intro h
      exact absurd h (by simp)

theorem resolvedAll_of_quiet {ns : List Node} {line : Nat}
    (h : Quiet (remarksOf ctx deep line ns)) : ResolvedAll ctx ns := by
  induction ns using nodes_induction generalizing line with
  | nil => trivial
  | statement s ns ih =>
    obtain ⟨hs, h⟩ := quiet_append.mp h
    exact ⟨quiet_problemRemarks_iff.mp hs, ih h⟩
  | choice c t e ns iht ihe ih =>
    obtain ⟨hc, h⟩ := quiet_append.mp h
    obtain ⟨hc, he⟩ := quiet_append.mp hc
    obtain ⟨hc, ht⟩ := quiet_append.mp hc
    obtain ⟨hc, -⟩ := quiet_append.mp hc
    exact ⟨⟨quiet_problemRemarks_iff.mp hc, iht ht, ihe he⟩, ih h⟩
  | loop c b ns ihb ih =>
    obtain ⟨hc, h⟩ := quiet_append.mp h
    obtain ⟨hc, -⟩ := quiet_append.mp hc
    obtain ⟨hc, hb⟩ := quiet_append.mp hc
    obtain ⟨hc, -⟩ := quiet_append.mp hc
    exact ⟨⟨quiet_problemRemarks_iff.mp hc, ihb hb⟩, ih h⟩
  | comment text ns ih =>
    obtain ⟨-, h⟩ := quiet_append.mp h
    exact ⟨trivial, ih h⟩

/-- Unless blocks are nested too deeply, every error is about a problem. -/
theorem quiet_remarksOf_iff {ns : List Node} {line : Nat} :
    Quiet (remarksOf ctx none line ns) ↔ ResolvedAll ctx ns := by
  have hhead : ∀ (c : Condition) (line : Nat), c.problems ctx = [] →
      Quiet (problemRemarks line (c.problems ctx) ++ nestingRemarks none line) := by
    intro c line hc r hr
    rw [hc] at hr
    exact absurd hr (by simp [problemRemarks, nestingRemarks])
  have hendless : ∀ (b : List Node) (line : Nat),
      Quiet (if anyYields ctx b then [] else [⟨line, .endless⟩]) := by
    intro b line r hr
    split at hr
    · exact absurd hr List.not_mem_nil
    · rw [List.mem_singleton] at hr
      subst hr
      exact Severity.noConfusion
  refine ⟨resolvedAll_of_quiet none, fun h => ?_⟩
  induction ns using nodes_induction generalizing line with
  | nil => exact fun r hr => absurd hr List.not_mem_nil
  | statement s ns ih =>
    exact quiet_append.mpr ⟨quiet_problemRemarks_iff.mpr h.1, ih h.2⟩
  | choice c t e ns iht ihe ih =>
    obtain ⟨⟨hc, ht, he⟩, hns⟩ := h
    rw [remarksOf, Node.remarks]
    exact quiet_append.mpr ⟨quiet_append.mpr ⟨quiet_append.mpr ⟨hhead c line hc, iht ht⟩,
      ihe he⟩, ih hns⟩
  | loop c b ns ihb ih =>
    obtain ⟨⟨hc, hb⟩, hns⟩ := h
    rw [remarksOf, Node.remarks]
    exact quiet_append.mpr ⟨quiet_append.mpr ⟨quiet_append.mpr ⟨hhead c line hc, ihb hb⟩,
      hendless b line⟩, ih hns⟩
  | comment text ns ih => exact ih h.2

end Resolved

/-! ## The outcome of a compilation -/

section Compile

variable {ctx : Context} {name : String} {nodes : List Node}

theorem result_compile :
    (compile ctx name nodes).result =
      if (bytecode ctx nodes).length > maxScriptSize then
        .error (.recordTooLarge .roomScript name (bytecode ctx nodes).length maxScriptSize)
      else .ok (bytecode ctx nodes) := by
  unfold compile
  simp only [Outcome.result_bind, Outcome.result_lift, Except.bind]
  exact Outcome.result_check

theorem result_compile_eq_ok_iff {code : Bytes} :
    (compile ctx name nodes).result = .ok code ↔
      code = bytecode ctx nodes ∧ (bytecode ctx nodes).length ≤ maxScriptSize := by
  rw [result_compile]
  by_cases hc : (bytecode ctx nodes).length > maxScriptSize
  · rw [if_pos hc]
    exact ⟨fun h => absurd h (by simp), fun h => absurd h.2 (by omega)⟩
  · rw [if_neg hc, Except.ok.injEq]
    exact ⟨fun h => ⟨h.symm, by omega⟩, fun h => h.1.symm⟩

theorem report_compile :
    (compile ctx name nodes).report = (remarks ctx nodes).map (Remark.diagnostic name) := by
  unfold compile
  rw [Outcome.report_bind_of_ok (Outcome.result_lift _), Outcome.report_lift]
  split
  · simp [Noted.tell]
  · simp [Noted.tell]

theorem hasErrors_compile_eq_false_iff :
    (compile ctx name nodes).report.hasErrors = false ↔ Quiet (remarks ctx nodes) := by
  rw [report_compile, Report.hasErrors, List.any_eq_false]
  constructor
  · intro h r hr he
    have hmem : r.diagnostic name ∈ (remarks ctx nodes).map (Remark.diagnostic name) :=
      List.mem_map_of_mem hr
    exact h _ hmem (by simp [Diagnostic.isError, Remark.diagnostic, he])
  · intro h d hd herror
    obtain ⟨r, hr, rfl⟩ := List.mem_map.mp hd
    exact h r hr (by simpa [Diagnostic.isError, Remark.diagnostic] using herror)

theorem resolvedAll_of_accepts {code : Bytes} (h : (compile ctx name nodes).Accepts code) :
    ResolvedAll ctx nodes :=
  resolvedAll_of_quiet _ (hasErrors_compile_eq_false_iff.mp h.2)

end Compile

end Cartridge.Script
