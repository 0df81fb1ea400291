import Cartridge.Proofs.Script.Nesting

/-!
# Which node a diagnostic is about

Every diagnostic of a script names the line of a node.  The errors come in the order of lines, and
those at a line depend on the statement or the condition of the node alone, so an edit of one node
(`editAll`) leaves the errors at the other lines as they are (`errors_remarks_editAll`).

Main statement: `compile_attribution`.
-/

namespace Cartridge.Script

section Edit

variable (f : Statement → Statement) (g : Condition → Condition) (k : Nat)

mutual

/-- The tree at a line with another statement or condition at the line `k`. -/
def Node.edit (line : Nat) : Node → Node
  | .statement s => .statement (if line = k then f s else s)
  | .choice c t e =>
    .choice (if line = k then g c else c) (editAll (line + 1) t)
      (editAll (line + 1 + Node.countAll t) e)
  | .loop c b => .loop (if line = k then g c else c) (editAll (line + 1) b)
  | .comment text => .comment text

def editAll (line : Nat) : List Node → List Node
  | [] => []
  | n :: ns => n.edit line :: editAll (line + n.count) ns

end

end Edit

/-! ## The errors at the lines of nodes -/

section Lines

variable {ctx : Context} {deep : Option Nat} {v : Visit} {r : Remark}

theorem line_of_mem_problemRemarks {line : Nat} {ps : List Problem}
    (h : r ∈ problemRemarks line ps) : r.line = line := by
  obtain ⟨p, -, rfl⟩ := List.mem_map.mp h
  rfl

theorem line_of_mem_errors (h : r ∈ v.errors ctx deep) : r.line = v.line := by
  rcases List.mem_append.mp h with h | h
  · exact line_of_mem_problemRemarks h
  · unfold nestingRemarks at h
    split at h
    · split at h
      · rw [List.mem_singleton.mp h]
      · exact absurd h List.not_mem_nil
    · exact absurd h List.not_mem_nil

theorem line_of_mem_warnings (h : r ∈ v.warnings ctx) : r.line = v.line := by
  unfold Visit.warnings at h
  split at h
  · split at h
    · exact absurd h List.not_mem_nil
    · rw [List.mem_singleton.mp h]
  · exact absurd h List.not_mem_nil

theorem exists_line_of_mem_remarks {nodes : List Node} (h : r ∈ remarks ctx nodes) :
    ∃ v ∈ visits ctx nodes, r.line = v.line := by
  cases hs : r.finding.severity with
  | error =>
    have hr : r ∈ (remarks ctx nodes).filter Remark.isError :=
      List.mem_filter.mpr ⟨h, by simp [Remark.isError, hs]⟩
    rw [errors_remarks, List.mem_flatMap] at hr
    obtain ⟨v, hv, hr⟩ := hr
    exact ⟨v, hv, line_of_mem_errors hr⟩
  | warning =>
    have hr : r ∈ (remarks ctx nodes).filter Remark.isWarning :=
      List.mem_filter.mpr ⟨h, by simp [Remark.isWarning, hs]⟩
    rw [(warnings_remarks ctx nodes).mem_iff, List.mem_flatMap] at hr
    obtain ⟨v, hv, hr⟩ := hr
    exact ⟨v, hv, line_of_mem_warnings hr⟩

/-- Errors are found from the first line to the last. -/
theorem pairwise_line_errors_remarks (ctx : Context) (nodes : List Node) :
    ((remarks ctx nodes).filter Remark.isError).Pairwise fun r r' => r.line ≤ r'.line := by
  rw [errors_remarks, List.pairwise_flatMap]
  constructor
  · intro v _
    rw [List.pairwise_iff_forall_sublist]
    intro r r' h
    have hmem := h.subset
    have hr := line_of_mem_errors (hmem List.mem_cons_self)
    have hr' := line_of_mem_errors (hmem (List.mem_cons_of_mem _ List.mem_cons_self))
    exact Nat.le_of_eq (hr.trans hr'.symm)
  · refine (pairwise_line_visitsOf nodes 1 0 0).imp fun {v v'} hlt r hr r' hr' => ?_
    rw [line_of_mem_errors hr, line_of_mem_errors hr']
    exact Nat.le_of_lt hlt

theorem filter_errors_ne_nestedTooDeep (v : Visit) :
    (v.errors ctx deep).filter (fun r => r.finding ≠ .nestedTooDeep) = v.problems ctx := by
  have hproblems : (v.problems ctx).filter (fun r => r.finding ≠ .nestedTooDeep) =
      v.problems ctx := by
    rw [List.filter_eq_self]
    intro r hr
    obtain ⟨p, -, rfl⟩ := List.mem_map.mp hr
    simp
  have hnesting : (if v.node.isBlock then nestingRemarks deep v.line else []).filter
      (fun r => r.finding ≠ .nestedTooDeep) = [] := by
    unfold nestingRemarks
    split
    · split
      · simp
      · rfl
    · rfl
  rw [Visit.errors, List.filter_append, hproblems, hnesting, List.append_nil]

end Lines

/-! ## Edits -/

section Edits

variable {f : Statement → Statement} {g : Condition → Condition} {k : Nat} {ctx : Context}
  {deep : Option Nat} {n : Node} {ns : List Node} {line : Nat}

theorem count_editAll (ns : List Node) (line : Nat) :
    Node.countAll (editAll f g k line ns) = Node.countAll ns := by
  induction ns using nodes_induction generalizing line with
  | nil => rfl
  | statement s ns ih => simp [editAll, Node.edit, Node.countAll, Node.count, ih]
  | choice c t e ns iht ihe ih =>
    simp [editAll, Node.edit, Node.countAll, Node.count, iht, ihe, ih]
  | loop c b ns ihb ih => simp [editAll, Node.edit, Node.countAll, Node.count, ihb, ih]
  | comment text ns ih => simp [editAll, Node.edit, Node.countAll, Node.count, ih]

theorem count_edit (n : Node) (line : Nat) : (n.edit f g k line).count = n.count := by
  have h := count_editAll (f := f) (g := g) (k := k) [n] line
  rw [editAll, editAll, Node.countAll, Node.countAll] at h
  exact Nat.add_right_cancel h

/-- An edit leaves the blocks as they are. -/
theorem tooDeepIn?_editAll (ns : List Node) (depth line start : Nat) :
    tooDeepIn? depth line (editAll f g k start ns) = tooDeepIn? depth line ns := by
  induction ns using nodes_induction generalizing depth line start with
  | nil => rfl
  | statement s ns ih => simp [editAll, Node.edit, tooDeepIn?, Node.tooDeep?, Node.count, ih]
  | choice c t e ns iht ihe ih =>
    simp [editAll, Node.edit, tooDeepIn?, Node.tooDeep?, Node.count, count_editAll, iht, ihe, ih]
  | loop c b ns ihb ih =>
    simp [editAll, Node.edit, tooDeepIn?, Node.tooDeep?, Node.count, count_editAll, ihb, ih]
  | comment text ns ih => simp [editAll, Node.edit, tooDeepIn?, Node.tooDeep?, Node.count, ih]

/-- An error at another line than `k`. -/
def Remark.isErrorAway (k : Nat) (r : Remark) : Bool := r.isError && decide (r.line ≠ k)

/-- Whatever depends on the edited statement or condition stands at its line. -/
theorem filter_problemRemarks_edit {α : Type} (a b : α) (ps : α → List Problem) :
    (problemRemarks line (ps (if line = k then b else a))).filter (Remark.isErrorAway k) =
      (problemRemarks line (ps a)).filter (Remark.isErrorAway k) := by
  by_cases hline : line = k
  · have hnil : ∀ ps, (problemRemarks line ps).filter (Remark.isErrorAway k) = [] := by
      intro ps
      rw [List.filter_eq_nil_iff]
      intro r hr
      simp [Remark.isErrorAway, line_of_mem_problemRemarks hr, hline]
    rw [hnil, hnil]
  · rw [if_neg hline]

theorem filter_endless (b : Bool) :
    (if b then [] else [⟨line, .endless⟩] : List Remark).filter (Remark.isErrorAway k) = [] := by
  cases b with
  | true => rfl
  | false => rfl

theorem errors_remarksOf_editAll (deep : Option Nat) (ns : List Node) (line : Nat) :
    (remarksOf ctx deep line (editAll f g k line ns)).filter (Remark.isErrorAway k) =
      (remarksOf ctx deep line ns).filter (Remark.isErrorAway k) := by
  induction ns using nodes_induction generalizing line with
  | nil => rfl
  | statement s ns ih =>
    rw [editAll, remarksOf, remarksOf, List.filter_append, List.filter_append, count_edit, ih,
      Node.edit, Node.remarks, Node.remarks, filter_problemRemarks_edit s (f s)]
  | choice c t e ns iht ihe ih =>
    rw [editAll, remarksOf, remarksOf, List.filter_append, List.filter_append, count_edit, ih,
      Node.edit, Node.remarks, Node.remarks, count_editAll]
    simp only [List.filter_append, iht, ihe]
    rw [filter_problemRemarks_edit c (g c)]
  | loop c b ns ihb ih =>
    rw [editAll, remarksOf, remarksOf, List.filter_append, List.filter_append, count_edit, ih,
      Node.edit, Node.remarks, Node.remarks]
    simp only [List.filter_append, ihb, filter_endless]
    rw [filter_problemRemarks_edit c (g c)]
  | comment text ns ih =>
    rw [editAll, remarksOf, remarksOf, List.filter_append, List.filter_append, count_edit, ih,
      Node.edit]

/-- **An edit of one node changes only the errors at its line.** -/
theorem errors_remarks_editAll (nodes : List Node) :
    (remarks ctx (editAll f g k 1 nodes)).filter (Remark.isErrorAway k) =
      (remarks ctx nodes).filter (Remark.isErrorAway k) := by
  rw [remarks, tooDeepIn?_editAll, errors_remarksOf_editAll]
  rfl

end Edits

/-! ## The report of a script -/

/-- **Diagnostics are attributed to the right nodes.**  Compiling a script adds to the diagnostics
before it, and each one that is added names the script and the line of a node; lines count the
nodes.  But for one error on nesting, the errors are those of the statements and conditions of the
nodes, one node after the other.  If another statement or condition is put into the node at a line,
the errors at all other lines are the same. -/
theorem compile_attribution (ctx : Context) (name : String) (nodes : List Node) (prior : Report) :
    (do Noted.tell prior; compile ctx name nodes : Outcome Bytes).report =
      prior ++ (compile ctx name nodes).report ∧
    (visits ctx nodes).map Visit.line = List.range' 1 (Node.countAll nodes) ∧
    (∀ d ∈ (compile ctx name nodes).report, d.kind = .roomScript ∧ d.name = name ∧
      ∃ v ∈ visits ctx nodes, d.place = .line v.line) ∧
    (compile ctx name nodes).report.errors.filter
        (fun d => d.message ≠ Finding.nestedTooDeep.message) =
      (visits ctx nodes).flatMap (fun v => (v.node.problems ctx).map fun p =>
        ⟨.error, .roomScript, name, .line v.line, p.message⟩) ∧
    ((compile ctx name nodes).report.errors.filter
      (fun d => d.message = Finding.nestedTooDeep.message)).length ≤ 1 ∧
    ((compile ctx name nodes).report.errors.Pairwise fun d d' =>
      ∃ i j, d.place = .line i ∧ d'.place = .line j ∧ i ≤ j) ∧
    ∀ f g k, (compile ctx name (editAll f g k 1 nodes)).report.errors.filter
        (fun d => d.place ≠ .line k) =
      (compile ctx name nodes).report.errors.filter (fun d => d.place ≠ .line k) := by
  have herrors : ∀ nodes, (compile ctx name nodes).report.errors =
      ((remarks ctx nodes).filter Remark.isError).map (Remark.diagnostic name) :=
    fun nodes => errors_report_compile
  refine ⟨?_, map_line_visitsOf nodes 1 0 0, ?_, ?_, ?_, ?_, ?_⟩
  · rw [Outcome.report_bind_of_ok (Outcome.result_lift _), Outcome.report_lift]
    rfl
  · intro d hd
    rw [report_compile] at hd
    obtain ⟨r, hr, rfl⟩ := List.mem_map.mp hd
    obtain ⟨v, hv, hline⟩ := exists_line_of_mem_remarks hr
    exact ⟨rfl, rfl, v, hv, congrArg Place.line hline⟩
  · have hmessage : (fun d : Diagnostic => decide (d.message ≠ Finding.nestedTooDeep.message)) ∘
        Remark.diagnostic name = fun r => decide (r.finding ≠ .nestedTooDeep) :=
      funext fun r => decide_eq_decide.mpr (not_congr Finding.message_eq_iff)
    rw [herrors, List.filter_map, hmessage, errors_remarks, List.filter_flatMap,
      List.map_flatMap]
    refine List.flatMap_congr fun v _ => ?_
    rw [filter_errors_ne_nestedTooDeep, Visit.problems, problemRemarks, List.map_map]
    rfl
  · have hsub : ((compile ctx name nodes).report.errors.filter
        (fun d => d.message = Finding.nestedTooDeep.message)).Sublist
        ((compile ctx name nodes).report.filter
          (fun d => d.message = Finding.nestedTooDeep.message)) :=
      List.filter_sublist.filter _
    rw [filter_nestedTooDeep_report] at hsub
    exact Nat.le_trans hsub.length_le Option.length_toList_le
  · rw [herrors, List.pairwise_map]
    exact (pairwise_line_errors_remarks ctx nodes).imp fun {r r'} hle =>
      ⟨r.line, r'.line, rfl, rfl, hle⟩
  · intro f g k
    have hplace : (fun d : Diagnostic => decide (d.place ≠ .line k)) ∘ Remark.diagnostic name =
        fun r => decide (r.line ≠ k) :=
      funext fun r => decide_eq_decide.mpr (not_congr (by simp [Remark.diagnostic]))
    have haway : ∀ rs : List Remark,
        (rs.filter Remark.isError).filter (fun r => decide (r.line ≠ k)) =
          rs.filter (Remark.isErrorAway k) := by
      intro rs
      rw [List.filter_filter]
      exact List.filter_congr fun r _ => Bool.and_comm _ _
    rw [herrors, herrors, List.filter_map, List.filter_map, hplace, haway, haway,
      errors_remarks_editAll]

end Cartridge.Script
