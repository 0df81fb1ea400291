import Cartridge.Proofs.Script.Listing
import Mathlib.Data.List.Nodup

/-!
# The nodes of a script in the order of lines

`visits` lists the nodes of a script, each one before the nodes inside it and comments included,
with the line of the node, the number of blocks around it and the offset of its code.  Lines count
the nodes (`map_line_visitsOf`), and the code of a node stands at its offset
(`among_of_mem_visitsOf`).

Errors are found node by node in this order (`errors_remarksOf`).  The warnings are those of the
loops, and stand behind what is said about the bodies (`warnings_remarksOf`).
-/

namespace Cartridge.Script

/-- A node with its place in the script. -/
structure Visit where
  line : Nat
  /-- The number of choices and loops around the node. -/
  depth : Nat
  /-- The offset of the code of the node. -/
  offset : Nat
  node : Node

section Definitions

/-- The node has a block of nodes inside it. -/
def Node.isBlock : Node → Bool
  | .choice _ _ _ | .loop _ _ => true
  | .statement _ | .comment _ => false

variable (t : InstructionTable)

mutual

/-- The nodes of a tree that starts at a line, in `depth` blocks, with its code at an offset. -/
def Node.visits (line depth offset : Nat) : Node → List Visit
  | .statement s => [⟨line, depth, offset, .statement s⟩]
  | .choice c a e =>
    ⟨line, depth, offset, .choice c a e⟩ ::
      (visitsOf (line + 1) (depth + 1) (offset + c.size) a ++
        visitsOf (line + 1 + Node.countAll a) (depth + 1) (offset + c.size + codeSize t a + 3) e)
  | .loop c b =>
    ⟨line, depth, offset, .loop c b⟩ :: visitsOf (line + 1) (depth + 1) (offset + c.size) b
  | .comment text => [⟨line, depth, offset, .comment text⟩]

def visitsOf (line depth offset : Nat) : List Node → List Visit
  | [] => []
  | n :: ns =>
    n.visits line depth offset ++ visitsOf (line + n.count) depth (offset + n.size t) ns

end

variable (ctx : Context)

/-- The nodes of a whole script. -/
def visits (nodes : List Node) : List Visit := visitsOf ctx.instructions 1 0 0 nodes

/-- What is wrong with the statement or the condition of a node, without the nodes inside it. -/
def Node.problems : Node → List Problem
  | .statement s => s.problems ctx
  | .choice c _ _ => c.problems ctx
  | .loop c _ => c.problems ctx
  | .comment _ => []

namespace Visit

/-- The block of the node has too many others around it. -/
def tooDeep (v : Visit) : Bool := v.node.isBlock && decide (maxNesting ≤ v.depth)

/-- The problems of the node as errors at its line. -/
def problems (v : Visit) : List Remark := problemRemarks v.line (v.node.problems ctx)

/-- The errors at the line of a node, if the remark on nesting belongs to the line `deep`. -/
def errors (deep : Option Nat) (v : Visit) : List Remark :=
  v.problems ctx ++ if v.node.isBlock then nestingRemarks deep v.line else []

/-- The warning at the line of a node. -/
def warnings (v : Visit) : List Remark :=
  match v.node with
  | .loop _ b => if anyYields ctx b then [] else [⟨v.line, .endless⟩]
  | _ => []

end Visit

def Remark.isError (r : Remark) : Bool := r.finding.severity == .error

def Remark.isWarning (r : Remark) : Bool := r.finding.severity == .warning

end Definitions

/-! ## Lines and offsets -/

section Lines

variable {t : InstructionTable} {n : Node} {ns : List Node} {line depth offset : Nat} {v : Visit}

theorem map_line_visitsOf_cons
    (hn : (n.visits t line depth offset).map Visit.line = List.range' line n.count)
    (hns : ∀ line depth offset, (visitsOf t line depth offset ns).map Visit.line =
      List.range' line (Node.countAll ns)) :
    (visitsOf t line depth offset (n :: ns)).map Visit.line =
      List.range' line (Node.countAll (n :: ns)) := by
  rw [visitsOf, List.map_append, hn, hns, List.range'_append_1, Node.countAll]

/-- **Lines count the nodes**, comments included. -/
theorem map_line_visitsOf (ns : List Node) (line depth offset : Nat) :
    (visitsOf t line depth offset ns).map Visit.line = List.range' line (Node.countAll ns) := by
  induction ns using nodes_induction generalizing line depth offset with
  | nil => rfl
  | statement s ns ih => exact map_line_visitsOf_cons rfl ih
  | choice c a e ns iha ihe ih =>
    refine map_line_visitsOf_cons ?_ ih
    rw [Node.visits, List.map_cons, List.map_append, iha, ihe, List.range'_append_1, Node.count,
      Nat.add_assoc, Nat.add_comm 1, List.range'_succ]
  | loop c b ns ihb ih =>
    refine map_line_visitsOf_cons ?_ ih
    rw [Node.visits, List.map_cons, ihb, Node.count, Nat.add_comm 1, List.range'_succ]
  | comment text ns ih => exact map_line_visitsOf_cons rfl ih

theorem line_bounds_of_mem_visitsOf (h : v ∈ visitsOf t line depth offset ns) :
    line ≤ v.line ∧ v.line < line + Node.countAll ns := by
  have hmem : v.line ∈ (visitsOf t line depth offset ns).map Visit.line := List.mem_map_of_mem h
  rw [map_line_visitsOf, List.mem_range'_1] at hmem
  exact hmem

theorem pairwise_line_visitsOf (ns : List Node) (line depth offset : Nat) :
    (visitsOf t line depth offset ns).Pairwise fun v v' => v.line < v'.line := by
  rw [← List.pairwise_map, map_line_visitsOf]
  exact List.pairwise_lt_range'

theorem eq_of_line_eq {u : Visit} (hu : u ∈ visitsOf t line depth offset ns)
    (hv : v ∈ visitsOf t line depth offset ns) (h : u.line = v.line) : u = v := by
  have hnodup : ((visitsOf t line depth offset ns).map Visit.line).Nodup := by
    rw [map_line_visitsOf]
    exact List.nodup_range'
  exact List.inj_on_of_nodup_map hnodup hu hv h

end Lines

section Offsets

variable {ctx : Context} {v : Visit} {ns : List Node} {line depth origin : Nat} {xs ys : List Op}

/-- The instructions of the node stand at its offset among instructions that start at `origin`. -/
def Visit.Among (ctx : Context) (v : Visit) (origin : Nat) (ops : List Op) : Prop :=
  ∃ front back, ops = front ++ (v.node.ops ctx v.offset ++ back) ∧
    v.offset = origin + extent front

theorem Visit.among_self : v.Among ctx v.offset (v.node.ops ctx v.offset) :=
  ⟨[], [], by simp, rfl⟩

theorem Visit.Among.append_right (h : v.Among ctx origin xs) : v.Among ctx origin (xs ++ ys) := by
  obtain ⟨front, back, rfl, hoffset⟩ := h
  exact ⟨front, back ++ ys, by simp, hoffset⟩

theorem Visit.Among.append_left {start : Nat} (h : v.Among ctx start ys) (xs : List Op)
    (hstart : start = origin + extent xs) : v.Among ctx origin (xs ++ ys) := by
  obtain ⟨front, back, rfl, hoffset⟩ := h
  refine ⟨xs ++ front, back, by simp, ?_⟩
  rw [extent_append]
  omega

theorem among_cons {n : Node} (h : v ∈ visitsOf ctx.instructions line depth origin (n :: ns))
    (hn : v ∈ n.visits ctx.instructions line depth origin → v.Among ctx origin (n.ops ctx origin))
    (hns : ∀ {line origin}, v ∈ visitsOf ctx.instructions line depth origin ns →
      v.Among ctx origin (opsOf ctx origin ns)) :
    v.Among ctx origin (opsOf ctx origin (n :: ns)) := by
  rcases List.mem_append.mp h with h | h
  · exact (hn h).append_right
  · exact (hns h).append_left _ (by rw [extent_ops])

/-- **The code of every node stands at its offset.** -/
theorem among_of_mem_visitsOf (h : v ∈ visitsOf ctx.instructions line depth origin ns) :
    v.Among ctx origin (opsOf ctx origin ns) := by
  induction ns using nodes_induction generalizing line depth origin with
  | nil => exact absurd h List.not_mem_nil
  | statement s ns ih =>
    refine among_cons h (fun h => ?_) ih
    obtain rfl := List.mem_singleton.mp h
    exact Visit.among_self
  | choice c a e ns iha ihe ih =>
    refine among_cons h (fun h => ?_) ih
    rcases List.mem_cons.mp h with rfl | h
    · exact Visit.among_self
    cases e with
    | nil =>
      rw [visitsOf, List.append_nil] at h
      exact (iha h).append_left [_] (by simp)
    | cons n e =>
      rw [Node.ops]
      rcases List.mem_append.mp h with h | h
      · exact ((iha h).append_right).append_left [_] (by simp)
      -- in front of the second block stands a jump over it
      · have hjump : ∀ target, v.Among ctx (origin + c.size + codeSize ctx.instructions a)
            (.jump target :: opsOf ctx _ (n :: e)) :=
          fun target => (ihe h).append_left [.jump target] rfl
        have hblocks : ∀ target, v.Among ctx (origin + c.size)
            (opsOf ctx (origin + c.size) a ++ .jump target :: opsOf ctx _ (n :: e)) :=
          fun target => (hjump target).append_left _ (by rw [extent_opsOf])
        exact (hblocks _).append_left [_] (by simp)
  | loop c b ns ihb ih =>
    refine among_cons h (fun h => ?_) ih
    rcases List.mem_cons.mp h with rfl | h
    · exact Visit.among_self
    · exact ((ihb h).append_right).append_left [_] (by simp)
  | comment text ns ih =>
    refine among_cons h (fun h => ?_) ih
    obtain rfl := List.mem_singleton.mp h
    exact Visit.among_self

theorem among_listing {nodes : List Node} (h : v ∈ visits ctx nodes) :
    v.Among ctx 0 (listing ctx nodes) :=
  (among_of_mem_visitsOf h).append_right

end Offsets

/-! ## Errors and warnings -/

section Remarks

variable {t : InstructionTable} {ctx : Context} {deep : Option Nat} {n : Node} {ns : List Node}
  {line depth offset : Nat}

theorem tooDeep_of_block {v : Visit} (hb : v.node.isBlock = true) (hd : maxNesting ≤ v.depth) :
    v.tooDeep = true :=
  Bool.and_eq_true_iff.mpr ⟨hb, decide_eq_true hd⟩

theorem not_tooDeep {v : Visit} (hd : ¬ maxNesting ≤ v.depth) : ¬ v.tooDeep = true :=
  fun h => hd (of_decide_eq_true (Bool.and_eq_true_iff.mp h).2)

theorem tooDeepIn?_cons_eq_find?
    (hn : n.tooDeep? depth line =
      ((n.visits t line depth offset).find? Visit.tooDeep).map Visit.line)
    (hns : ∀ line offset, tooDeepIn? depth line ns =
      ((visitsOf t line depth offset ns).find? Visit.tooDeep).map Visit.line) :
    tooDeepIn? depth line (n :: ns) =
      ((visitsOf t line depth offset (n :: ns)).find? Visit.tooDeep).map Visit.line := by
  rw [tooDeepIn?, visitsOf, List.find?_append, Option.map_or, ← hn, ← hns,
    Option.orElse_eq_orElse, Option.orElse_eq_or]

/-- The line of the first block that is nested too deeply, in the order of lines. -/
theorem tooDeepIn?_eq_find? (ns : List Node) (line depth offset : Nat) :
    tooDeepIn? depth line ns =
      ((visitsOf t line depth offset ns).find? Visit.tooDeep).map Visit.line := by
  induction ns using nodes_induction generalizing line depth offset with
  | nil => rfl
  | statement s ns ih => exact tooDeepIn?_cons_eq_find? rfl fun line offset => ih line depth offset
  | choice c a e ns iha ihe ih =>
    refine tooDeepIn?_cons_eq_find? ?_ fun line offset => ih line depth offset
    rw [Node.tooDeep?, Node.visits]
    by_cases hd : maxNesting ≤ depth
    · rw [if_pos hd, List.find?_cons_of_pos (tooDeep_of_block rfl hd)]
      rfl
    · rw [if_neg hd, List.find?_cons_of_neg (not_tooDeep hd), List.find?_append, Option.map_or,
        ← iha, ← ihe, Option.orElse_eq_orElse, Option.orElse_eq_or]
  | loop c b ns ihb ih =>
    refine tooDeepIn?_cons_eq_find? ?_ fun line offset => ih line depth offset
    rw [Node.tooDeep?, Node.visits]
    by_cases hd : maxNesting ≤ depth
    · rw [if_pos hd, List.find?_cons_of_pos (tooDeep_of_block rfl hd)]
      rfl
    · rw [if_neg hd, List.find?_cons_of_neg (not_tooDeep hd), ← ihb]
  | comment text ns ih => exact tooDeepIn?_cons_eq_find? rfl fun line offset => ih line depth offset

theorem filter_isError_problemRemarks (line : Nat) (ps : List Problem) :
    (problemRemarks line ps).filter Remark.isError = problemRemarks line ps := by
  rw [List.filter_eq_self]
  intro r hr
  obtain ⟨p, -, rfl⟩ := List.mem_map.mp hr
  rfl

theorem filter_isError_nestingRemarks (deep : Option Nat) (line : Nat) :
    (nestingRemarks deep line).filter Remark.isError = nestingRemarks deep line := by
  unfold nestingRemarks
  split
  · rfl
  · rfl

theorem errors_of_block {v : Visit} (hb : v.node.isBlock = true) :
    v.errors ctx deep = v.problems ctx ++ nestingRemarks deep v.line := by
  rw [Visit.errors, if_pos hb]

theorem errors_remarksOf_cons
    (hn : (n.remarks ctx deep line).filter Remark.isError =
      (n.visits t line depth offset).flatMap (Visit.errors ctx deep))
    (hns : ∀ line offset, (remarksOf ctx deep line ns).filter Remark.isError =
      (visitsOf t line depth offset ns).flatMap (Visit.errors ctx deep)) :
    (remarksOf ctx deep line (n :: ns)).filter Remark.isError =
      (visitsOf t line depth offset (n :: ns)).flatMap (Visit.errors ctx deep) := by
  rw [remarksOf, visitsOf, List.filter_append, List.flatMap_append, hn, hns]

/-- **Errors are found node by node** in the order of lines, and tell only what is wrong with the
statement or condition of the node, and that it is nested too deeply. -/
theorem errors_remarksOf (deep : Option Nat) (ns : List Node) (line depth offset : Nat) :
    (remarksOf ctx deep line ns).filter Remark.isError =
      (visitsOf t line depth offset ns).flatMap (Visit.errors ctx deep) := by
  induction ns using nodes_induction generalizing line depth offset with
  | nil => rfl
  | statement s ns ih =>
    refine errors_remarksOf_cons ?_ fun line offset => ih line depth offset
    rw [Node.remarks, filter_isError_problemRemarks]
    simp [Node.visits, Visit.errors, Visit.problems, Node.problems, Node.isBlock]
  | choice c a e ns iha ihe ih =>
    refine errors_remarksOf_cons ?_ fun line offset => ih line depth offset
    rw [Node.remarks, Node.visits, List.flatMap_cons, List.flatMap_append, ← iha, ← ihe,
      errors_of_block rfl]
    simp only [List.filter_append, filter_isError_problemRemarks, filter_isError_nestingRemarks,
      List.append_assoc]
    rfl
  | loop c b ns ihb ih =>
    refine errors_remarksOf_cons ?_ fun line offset => ih line depth offset
    rw [Node.remarks, Node.visits, List.flatMap_cons, ← ihb, errors_of_block rfl]
    simp only [List.filter_append, filter_isError_problemRemarks, filter_isError_nestingRemarks]
    have hendless : (if anyYields ctx b then [] else [⟨line, .endless⟩] : List Remark).filter
        Remark.isError = [] := by
      split
      · rfl
      · rfl
    rw [hendless, List.append_nil]
    rfl
  | comment text ns ih =>
    exact errors_remarksOf_cons rfl fun line offset => ih line depth offset

theorem filter_isWarning_problemRemarks (line : Nat) (ps : List Problem) :
    (problemRemarks line ps).filter Remark.isWarning = [] := by
  rw [List.filter_eq_nil_iff]
  intro r hr
  obtain ⟨p, -, rfl⟩ := List.mem_map.mp hr
  exact Bool.false_ne_true

theorem filter_isWarning_nestingRemarks (deep : Option Nat) (line : Nat) :
    (nestingRemarks deep line).filter Remark.isWarning = [] := by
  unfold nestingRemarks
  split
  · rfl
  · rfl

theorem warnings_of_loop {v : Visit} {c : Condition} {b : List Node} (h : v.node = .loop c b) :
    v.warnings ctx = if anyYields ctx b then [] else [⟨v.line, .endless⟩] := by
  rw [Visit.warnings, h]

theorem warnings_remarksOf_cons
    (hn : ((n.remarks ctx deep line).filter Remark.isWarning).Perm
      ((n.visits t line depth offset).flatMap (Visit.warnings ctx)))
    (hns : ∀ line offset, ((remarksOf ctx deep line ns).filter Remark.isWarning).Perm
      ((visitsOf t line depth offset ns).flatMap (Visit.warnings ctx))) :
    ((remarksOf ctx deep line (n :: ns)).filter Remark.isWarning).Perm
      ((visitsOf t line depth offset (n :: ns)).flatMap (Visit.warnings ctx)) := by
  rw [remarksOf, visitsOf, List.filter_append, List.flatMap_append]
  exact hn.append (hns _ _)

/-- **There is one warning for each loop in whose body nothing yields**, and there are no others. -/
theorem warnings_remarksOf (deep : Option Nat) (ns : List Node) (line depth offset : Nat) :
    ((remarksOf ctx deep line ns).filter Remark.isWarning).Perm
      ((visitsOf t line depth offset ns).flatMap (Visit.warnings ctx)) := by
  induction ns using nodes_induction generalizing line depth offset with
  | nil => exact .nil
  | statement s ns ih =>
    refine warnings_remarksOf_cons ?_ fun line offset => ih line depth offset
    rw [Node.remarks, filter_isWarning_problemRemarks]
    exact .nil
  | choice c a e ns iha ihe ih =>
    refine warnings_remarksOf_cons ?_ fun line offset => ih line depth offset
    rw [Node.remarks, Node.visits, List.flatMap_cons, List.flatMap_append]
    simp only [List.filter_append, filter_isWarning_problemRemarks, filter_isWarning_nestingRemarks]
    exact (iha _ _ _).append (ihe _ _ _)
  | loop c b ns ihb ih =>
    refine warnings_remarksOf_cons ?_ fun line offset => ih line depth offset
    have hendless : (if anyYields ctx b then [] else [⟨line, .endless⟩] : List Remark).filter
        Remark.isWarning = Visit.warnings ctx ⟨line, depth, offset, .loop c b⟩ := by
      rw [warnings_of_loop rfl]
      split
      · rfl
      · rfl
    rw [Node.remarks, Node.visits, List.flatMap_cons]
    simp only [List.filter_append, filter_isWarning_problemRemarks, filter_isWarning_nestingRemarks,
      hendless, List.nil_append]
    -- the warning comes behind those of the body, but the loop in front of its body
    exact List.perm_append_comm.trans (List.Perm.append_left _ (ihb _ _ _))
  | comment text ns ih =>
    exact warnings_remarksOf_cons .nil fun line offset => ih line depth offset

end Remarks

/-! ## The report of a script -/

section Report

variable {ctx : Context} {name : String} {nodes : List Node}

theorem errors_remarks (ctx : Context) (nodes : List Node) :
    (remarks ctx nodes).filter Remark.isError =
      (visits ctx nodes).flatMap (Visit.errors ctx (tooDeepIn? 0 1 nodes)) :=
  errors_remarksOf _ nodes 1 0 0

theorem warnings_remarks (ctx : Context) (nodes : List Node) :
    ((remarks ctx nodes).filter Remark.isWarning).Perm
      ((visits ctx nodes).flatMap (Visit.warnings ctx)) :=
  warnings_remarksOf _ nodes 1 0 0

theorem errors_report_compile : (compile ctx name nodes).report.errors =
    ((remarks ctx nodes).filter Remark.isError).map (Remark.diagnostic name) := by
  rw [report_compile, Report.errors, List.filter_map]
  rfl

theorem warnings_report_compile : (compile ctx name nodes).report.warnings =
    ((remarks ctx nodes).filter Remark.isWarning).map (Remark.diagnostic name) := by
  rw [report_compile, Report.warnings, List.filter_map]
  rfl

theorem errors_of_ne {deep : Option Nat} {v : Visit} (h : deep ≠ some v.line) :
    v.errors ctx deep = v.problems ctx := by
  rw [Visit.errors, nestingRemarks, if_neg h, ite_self, List.append_nil]

theorem flatMap_errors_of_ne {deep : Option Nat} {vs : List Visit}
    (h : ∀ v ∈ vs, deep ≠ some v.line) :
    vs.flatMap (Visit.errors ctx deep) = vs.flatMap (Visit.problems ctx) :=
  List.flatMap_congr fun v hv => errors_of_ne (h v hv)

/-- The remark on nesting is put behind the problems of the first node that is nested too deeply. -/
theorem errors_remarks_cases (ctx : Context) (nodes : List Node) :
    ((∀ v ∈ visits ctx nodes, v.tooDeep = false) ∧
      (remarks ctx nodes).filter Remark.isError =
        (visits ctx nodes).flatMap (Visit.problems ctx)) ∨
    ∃ front v back, visits ctx nodes = front ++ v :: back ∧ v.tooDeep = true ∧
      (∀ u ∈ front, u.tooDeep = false) ∧
      (remarks ctx nodes).filter Remark.isError =
        front.flatMap (Visit.problems ctx) ++ v.problems ctx ++
          ⟨v.line, .nestedTooDeep⟩ :: back.flatMap (Visit.problems ctx) := by
  have herrors := errors_remarks ctx nodes
  have hdeep : tooDeepIn? 0 1 nodes =
      ((visits ctx nodes).find? Visit.tooDeep).map Visit.line := tooDeepIn?_eq_find? nodes 1 0 0
  cases hfound : (visits ctx nodes).find? Visit.tooDeep with
  | none =>
    rw [hfound, Option.map_none] at hdeep
    rw [hdeep, flatMap_errors_of_ne fun v _ => (Option.some_ne_none v.line).symm] at herrors
    refine .inl ⟨fun v hv => ?_, herrors⟩
    simpa using List.find?_eq_none.mp hfound v hv
  | some v =>
    obtain ⟨hv, front, back, hvisits, hfront⟩ := List.find?_eq_some_iff_append.mp hfound
    rw [hfound, Option.map_some] at hdeep
    -- the line belongs to no other node
    have hlines : (visits ctx nodes).Pairwise fun v v' => v.line < v'.line :=
      pairwise_line_visitsOf nodes 1 0 0
    rw [hvisits, List.pairwise_append, List.pairwise_cons] at hlines
    obtain ⟨-, ⟨hback, -⟩, hbefore⟩ := hlines
    have hneFront : ∀ u ∈ front, some v.line ≠ some u.line := by
      intro u hu h
      have hlt := hbefore u hu v List.mem_cons_self
      rw [Option.some.inj h] at hlt
      exact Nat.lt_irrefl _ hlt
    have hneBack : ∀ u ∈ back, some v.line ≠ some u.line := by
      intro u hu h
      have hlt := hback u hu
      rw [Option.some.inj h] at hlt
      exact Nat.lt_irrefl _ hlt
    have hhere : v.errors ctx (some v.line) = v.problems ctx ++ [⟨v.line, .nestedTooDeep⟩] := by
      rw [errors_of_block (Bool.and_eq_true_iff.mp hv).1, nestingRemarks, if_pos rfl]
    rw [hdeep, hvisits, List.flatMap_append, List.flatMap_cons, flatMap_errors_of_ne hneFront,
      flatMap_errors_of_ne hneBack, hhere] at herrors
    refine .inr ⟨front, v, back, hvisits, hv, fun u hu => by simpa using hfront u hu, ?_⟩
    rw [herrors]
    simp only [List.append_assoc, List.singleton_append]

end Report

end Cartridge.Script
