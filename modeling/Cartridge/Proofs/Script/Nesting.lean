import Cartridge.Proofs.Script.Visits

/-!
# Blocks that are nested too deeply

`Walk` goes over the nodes of a script with counters: how many blocks are open, the line of the last
node, and whether a block that is nested too deeply has been reported.  The walk makes the remarks
on the script and closes every block that it opens (`walkAll_eq`).

Main statement: `compile_nesting`, the first block that has too many others around it is reported at
the line of its node, and no other.
-/

namespace Cartridge.Script

/-! ## Walking over a script -/

section Walking

/-- The counters of a walk over a script, and the remarks that it has made. -/
structure Walk where
  /-- The number of blocks that are open. -/
  depth : Nat
  /-- The line of the last node. -/
  line : Nat
  /-- A block that is nested too deeply has been reported. -/
  reported : Bool
  remarks : List Remark
deriving DecidableEq, Repr

namespace Walk

def start : Walk := ⟨0, 0, false, []⟩

def advance (w : Walk) : Walk := { w with line := w.line + 1 }

def note (w : Walk) (rs : List Remark) : Walk := { w with remarks := w.remarks ++ rs }

/-- Opens a block.  Only the first one that is nested too deeply is reported. -/
def enter (w : Walk) : Walk :=
  if maxNesting < w.depth + 1 ∧ w.reported = false then
    { w with
      depth := w.depth + 1
      reported := true
      remarks := w.remarks ++ [⟨w.line, .nestedTooDeep⟩] }
  else { w with depth := w.depth + 1 }

def leave (w : Walk) : Walk := { w with depth := w.depth - 1 }

end Walk

variable (ctx : Context)

mutual

def Node.walk (w : Walk) : Node → Walk
  | .statement s => w.advance.note (problemRemarks (w.line + 1) (s.problems ctx))
  | .choice c t e =>
    let head := w.advance.note (problemRemarks (w.line + 1) (c.problems ctx))
    let behind := (walkAll head.enter t).leave
    match e with
    | [] => behind
    | _ :: _ => (walkAll behind.enter e).leave
  | .loop c b =>
    let head := w.advance.note (problemRemarks (w.line + 1) (c.problems ctx))
    (walkAll head.enter b).leave.note (if anyYields ctx b then [] else [⟨head.line, .endless⟩])
  | .comment _ => w.advance

def walkAll (w : Walk) : List Node → Walk
  | [] => w
  | n :: ns => walkAll (n.walk w) ns

end

end Walking

/-! ## Lists of nodes one behind the other -/

section Append

variable {ctx : Context} {deep : Option Nat} {xs ys : List Node} {depth line l : Nat}

theorem countAll_append (xs ys : List Node) :
    Node.countAll (xs ++ ys) = Node.countAll xs + Node.countAll ys := by
  induction xs with
  | nil => rw [List.nil_append, Node.countAll, Nat.zero_add]
  | cons n ns ih => rw [List.cons_append, Node.countAll, Node.countAll, ih, Nat.add_assoc]

theorem remarksOf_append (xs ys : List Node) (line : Nat) :
    remarksOf ctx deep line (xs ++ ys) =
      remarksOf ctx deep line xs ++ remarksOf ctx deep (line + Node.countAll xs) ys := by
  induction xs generalizing line with
  | nil => rfl
  | cons n ns ih =>
    rw [List.cons_append, remarksOf, remarksOf, ih, Node.countAll, List.append_assoc,
      Nat.add_assoc]

theorem tooDeepIn?_append (xs ys : List Node) (line : Nat) :
    tooDeepIn? depth line (xs ++ ys) =
      (tooDeepIn? depth line xs).or (tooDeepIn? depth (line + Node.countAll xs) ys) := by
  induction xs generalizing line with
  | nil => rfl
  | cons n ns ih =>
    rw [List.cons_append, tooDeepIn?, tooDeepIn?, ih, Node.countAll, Nat.add_assoc,
      Option.orElse_eq_orElse, Option.orElse_eq_or, Option.orElse_eq_or, Option.or_assoc]

theorem line_bounds_of_tooDeepIn? (h : tooDeepIn? depth line xs = some l) :
    line ≤ l ∧ l < line + Node.countAll xs := by
  rw [tooDeepIn?_eq_find? (t := sampleTable) xs line depth 0] at h
  obtain ⟨v, hv, rfl⟩ := Option.map_eq_some_iff.mp h
  exact line_bounds_of_mem_visitsOf (List.mem_of_find?_eq_some hv)

theorem nestingRemarks_of_ne (h : deep ≠ some line) : nestingRemarks deep line = [] := if_neg h

/-- A line outside of the nodes does not matter to them. -/
theorem remarksOf_of_outside (h : l < line ∨ line + Node.countAll xs ≤ l) :
    remarksOf ctx (some l) line xs = remarksOf ctx none line xs := by
  induction xs using nodes_induction generalizing line with
  | nil => rfl
  | statement s ns ih =>
    rw [Node.countAll, Node.count] at h
    rw [remarksOf, remarksOf, Node.count, ih (by omega)]
    rfl
  | choice c t e ns iht ihe ih =>
    rw [Node.countAll, Node.count] at h
    have hne : some l ≠ some line := fun heq => by
      have := Option.some.inj heq
      omega
    rw [remarksOf, remarksOf, Node.remarks, Node.remarks, Node.count, iht (by omega),
      ihe (by omega), ih (by omega), nestingRemarks_of_ne hne,
      nestingRemarks_of_ne (Option.some_ne_none line).symm]
  | loop c b ns ihb ih =>
    rw [Node.countAll, Node.count] at h
    have hne : some l ≠ some line := fun heq => by
      have := Option.some.inj heq
      omega
    rw [remarksOf, remarksOf, Node.remarks, Node.remarks, Node.count, ihb (by omega),
      ih (by omega), nestingRemarks_of_ne hne,
      nestingRemarks_of_ne (Option.some_ne_none line).symm]
  | comment text ns ih =>
    rw [Node.countAll, Node.count] at h
    rw [remarksOf, remarksOf, Node.count, ih (by omega)]
    rfl

end Append

/-! ## The remarks of a walk -/

section Remarks

variable {ctx : Context} {xs ys : List Node} {depth : Nat} {w : Walk}

/-- The walk behind nodes with `depth` blocks around them, as the remarks tell it: the number of
open blocks is the same as in front of them. -/
def Walk.over (ctx : Context) (depth : Nat) (w : Walk) (ns : List Node) : Walk where
  depth := w.depth
  line := w.line + Node.countAll ns
  reported := w.reported || (tooDeepIn? depth (w.line + 1) ns).isSome
  remarks := w.remarks ++
    remarksOf ctx (bif w.reported then none else tooDeepIn? depth (w.line + 1) ns) (w.line + 1) ns

theorem Walk.over_append (w : Walk) :
    (w.over ctx depth xs).over ctx depth ys = w.over ctx depth (xs ++ ys) := by
  obtain ⟨d, line, reported, remarks⟩ := w
  have hlines : line + Node.countAll xs + 1 = line + 1 + Node.countAll xs := by omega
  cases reported with
  | true => simp [Walk.over, countAll_append, remarksOf_append, hlines, ← Nat.add_assoc]
  | false =>
    simp only [Walk.over, countAll_append, remarksOf_append, tooDeepIn?_append, hlines,
      ← Nat.add_assoc, Bool.false_or, List.append_assoc]
    cases hx : tooDeepIn? depth (line + 1) xs with
    | some l =>
      have hl := (line_bounds_of_tooDeepIn? hx).2
      simp [remarksOf_of_outside (.inl hl)]
    | none =>
      cases hy : tooDeepIn? depth (line + 1 + Node.countAll xs) ys with
      | none => simp
      | some l =>
        have hl := (line_bounds_of_tooDeepIn? hy).1
        simp [remarksOf_of_outside (.inr hl)]

/-- The line of the first block that is nested too deeply, among the one that belongs to the node at
the line and those inside it. -/
def tooDeepBlock? (depth line : Nat) (ns : List Node) : Option Nat :=
  if maxNesting ≤ depth then some line else tooDeepIn? (depth + 1) (line + 1) ns

@[simp] theorem Walk.over_singleton (w : Walk) (n : Node) :
    w.over ctx depth [n] =
      ⟨w.depth, w.line + n.count, w.reported || (n.tooDeep? depth (w.line + 1)).isSome,
        w.remarks ++ n.remarks ctx (bif w.reported then none else n.tooDeep? depth (w.line + 1))
          (w.line + 1)⟩ := by
  have hfound : tooDeepIn? depth (w.line + 1) [n] = n.tooDeep? depth (w.line + 1) := by
    rw [tooDeepIn?, tooDeepIn?, Option.orElse_eq_orElse, Option.orElse_eq_or, Option.or_none]
  simp [Walk.over, hfound, Node.countAll, remarksOf]

theorem tooDeep?_choice (c : Condition) (t e : List Node) (depth line : Nat) :
    (Node.choice c t e).tooDeep? depth line = tooDeepBlock? depth line (t ++ e) := by
  rw [Node.tooDeep?, tooDeepBlock?, tooDeepIn?_append, Option.orElse_eq_orElse,
    Option.orElse_eq_or]

theorem tooDeep?_loop (c : Condition) (b : List Node) (depth line : Nat) :
    (Node.loop c b).tooDeep? depth line = tooDeepBlock? depth line b := rfl

/-- A block with its nodes, from the node that it belongs to. -/
def Walk.block (ctx : Context) (w : Walk) (ns : List Node) : Walk :=
  let found := tooDeepBlock? w.depth w.line ns
  let deep := bif w.reported then none else found
  ⟨w.depth, w.line + Node.countAll ns, w.reported || found.isSome,
    w.remarks ++ (nestingRemarks deep w.line ++ remarksOf ctx deep (w.line + 1) ns)⟩

theorem Walk.depth_enter (w : Walk) : w.enter.depth = w.depth + 1 := by
  unfold Walk.enter
  split
  · rfl
  · rfl

theorem Walk.leave_enter_of_reported (h : w.reported = true) : w.enter.leave = w := by
  rw [Walk.enter, if_neg (by simp [h])]
  rfl

theorem Walk.leave_enter_of_lt (h : w.depth < maxNesting) : w.enter.leave = w := by
  rw [Walk.enter, if_neg (by omega)]
  rfl

theorem Walk.leave_enter_of_deep (hdepth : maxNesting ≤ w.depth) (hreported : w.reported = false) :
    w.enter.leave =
      { w with reported := true, remarks := w.remarks ++ [⟨w.line, .nestedTooDeep⟩] } := by
  rw [Walk.enter, if_pos ⟨by omega, hreported⟩]
  rfl

/-- Opening a block puts the remark on nesting in front of the remarks on the nodes inside. -/
theorem Walk.over_leave_enter (w : Walk) (ns : List Node) :
    w.enter.leave.over ctx (w.depth + 1) ns = w.block ctx ns := by
  cases hreported : w.reported with
  | true =>
    rw [Walk.leave_enter_of_reported hreported]
    simp [Walk.over, Walk.block, hreported, nestingRemarks]
  | false =>
    by_cases hdepth : maxNesting ≤ w.depth
    · rw [Walk.leave_enter_of_deep hdepth hreported]
      have hinside : remarksOf ctx (some w.line) (w.line + 1) ns =
          remarksOf ctx none (w.line + 1) ns :=
        remarksOf_of_outside (.inl (Nat.lt_succ_self w.line))
      simp [Walk.over, Walk.block, tooDeepBlock?, hreported, hdepth, nestingRemarks, hinside]
    · rw [Walk.leave_enter_of_lt (by omega)]
      have hne : tooDeepIn? (w.depth + 1) (w.line + 1) ns ≠ some w.line := by
        intro h
        have := (line_bounds_of_tooDeepIn? h).1
        omega
      simp [Walk.over, Walk.block, tooDeepBlock?, hreported, hdepth, nestingRemarks, hne]

/-- The blocks of a node are closed behind their nodes. -/
theorem leave_walkAll_enter (h : ∀ w, walkAll ctx w xs = w.over ctx w.depth xs) (w : Walk) :
    (walkAll ctx w.enter xs).leave = w.block ctx xs := by
  rw [h, ← Walk.over_leave_enter, Walk.depth_enter]
  rfl

/-- A second block of the same node is not reported. -/
theorem block_block (w : Walk) : (w.block ctx xs).block ctx ys = w.block ctx (xs ++ ys) := by
  have hquiet : (w.block ctx xs).enter.leave = w.block ctx xs := by
    by_cases hdepth : maxNesting ≤ w.depth
    · exact Walk.leave_enter_of_reported (by simp [Walk.block, tooDeepBlock?, hdepth])
    · exact Walk.leave_enter_of_lt (Nat.lt_of_not_le hdepth)
  calc (w.block ctx xs).block ctx ys
    _ = (w.block ctx xs).over ctx (w.depth + 1) ys := by
      rw [← Walk.over_leave_enter (w.block ctx xs), hquiet]
      rfl
    _ = (w.enter.leave.over ctx (w.depth + 1) xs).over ctx (w.depth + 1) ys := by
      rw [Walk.over_leave_enter]
    _ = w.enter.leave.over ctx (w.depth + 1) (xs ++ ys) := Walk.over_append _
    _ = w.block ctx (xs ++ ys) := Walk.over_leave_enter w _

theorem walkAll_cons {n : Node} (h : n.walk ctx w = w.over ctx w.depth [n])
    (ih : ∀ w, walkAll ctx w xs = w.over ctx w.depth xs) :
    walkAll ctx w (n :: xs) = w.over ctx w.depth (n :: xs) := by
  rw [walkAll, ih, h]
  exact Walk.over_append w

/-- **The walk makes the remarks on the nodes**, and leaves no block open. -/
theorem walkAll_eq (ns : List Node) (w : Walk) :
    walkAll ctx w ns = w.over ctx w.depth ns := by
  induction ns using nodes_induction generalizing w with
  | nil => simp [walkAll, Walk.over, Node.countAll, tooDeepIn?, remarksOf]
  | statement s ns ih =>
    refine walkAll_cons ?_ ih
    simp [Node.walk, Walk.advance, Walk.note, Node.count, Node.tooDeep?, Node.remarks]
  | choice c t e ns iht ihe ih =>
    refine walkAll_cons ?_ ih
    have hwalk : (Node.choice c t e).walk ctx w =
        (w.advance.note (problemRemarks (w.line + 1) (c.problems ctx))).block ctx (t ++ e) := by
      cases e with
      | nil => rw [Node.walk, leave_walkAll_enter iht, List.append_nil]
      | cons n e =>
        rw [Node.walk, leave_walkAll_enter iht, leave_walkAll_enter ihe, block_block]
    rw [hwalk, Walk.over_singleton, tooDeep?_choice]
    simp [Walk.block, Walk.advance, Walk.note, Node.count, Node.remarks, countAll_append,
      remarksOf_append, ← Nat.add_assoc]
  | loop c b ns ihb ih =>
    refine walkAll_cons ?_ ih
    rw [Node.walk, leave_walkAll_enter ihb, Walk.over_singleton, tooDeep?_loop]
    simp [Walk.block, Walk.advance, Walk.note, Node.count, Node.remarks, ← Nat.add_assoc]
  | comment text ns ih =>
    refine walkAll_cons ?_ ih
    simp [Node.walk, Walk.advance, Node.count, Node.tooDeep?, Node.remarks]

end Remarks

/-! ## The message -/

section Message

theorem any_head?_append {q : Char → Bool} {s : String} (h : s.toList.head?.any q = true)
    (t : String) : (s ++ t).toList.head?.any q = true := by
  cases hs : s.toList.head? with
  | none =>
    rw [hs] at h
    exact absurd h Bool.false_ne_true
  | some c =>
    rw [String.toList_append, List.head?_append, hs, Option.some_or, ← hs]
    exact h

theorem isDigit_of_getLast?_toString {n : Nat} {c : Char}
    (h : (toString n).toList.getLast? = some c) : c.isDigit = true := by
  rw [Nat.toString_eq_repr, Nat.toList_repr] at h
  exact Nat.isDigit_of_mem_toDigits (by decide) (by decide) (List.mem_of_getLast? h)

theorem getLast?_append_toString (s : String) (n : Nat) :
    ∃ c, (s ++ toString n).toList.getLast? = some c ∧ c.isDigit = true := by
  have hne : (toString n).toList ≠ [] := by
    rw [Nat.toString_eq_repr, Nat.toList_repr]
    exact Nat.toDigits_ne_nil
  refine ⟨_, ?_, isDigit_of_getLast?_toString (List.getLast?_eq_some_getLast hne)⟩
  rw [String.toList_append, List.getLast?_append, List.getLast?_eq_some_getLast hne,
    Option.some_or]

/-- No problem has the message on nesting: either the first letter is another one, or a number is
the last word. -/
theorem Problem.message_ne (p : Problem) : p.message ≠ Finding.nestedTooDeep.message := by
  have hfirst : p.message.toList.head?.any (· != 't') = true →
      p.message ≠ Finding.nestedTooDeep.message := by
    intro hp h
    rw [h] at hp
    exact absurd hp (by decide)
  cases p with
  | argumentCount instruction expected found =>
    intro h
    obtain ⟨c, hlast, hdigit⟩ := getLast?_append_toString
      (s!"{instruction} expects {expected} argument(s), found ") found
    have hmessage : s!"{instruction} expects {expected} argument(s), found " ++ toString found =
        Finding.nestedTooDeep.message := h
    rw [hmessage, show Finding.nestedTooDeep.message.toList.getLast? = some ')' by decide] at hlast
    rw [← Option.some.inj hlast] at hdigit
    exact absurd hdigit (by decide)
  | foreignVariable kind name owner =>
    refine hfirst ?_
    unfold message
    repeat with_reducible refine any_head?_append ?_ _
    cases kind with
    | flag => decide
    | word => decide
  | _ =>
    refine hfirst ?_
    unfold message
    repeat with_reducible refine any_head?_append ?_ _
    decide

theorem Finding.message_eq_iff {f : Finding} :
    f.message = nestedTooDeep.message ↔ f = nestedTooDeep := by
  refine ⟨fun h => ?_, congrArg message⟩
  cases f with
  | problem p => exact absurd h p.message_ne
  | nestedTooDeep => rfl
  | endless => exact absurd h (by decide)

end Message

/-! ## The report of a script -/

section Report

variable {ctx : Context}

theorem filter_nestedTooDeep_problems (vs : List Visit) :
    (vs.flatMap (Visit.problems ctx)).filter (fun r => r.finding = .nestedTooDeep) = [] := by
  rw [List.filter_eq_nil_iff]
  intro r hr
  obtain ⟨v, -, hr⟩ := List.mem_flatMap.mp hr
  obtain ⟨p, -, rfl⟩ := List.mem_map.mp hr
  simp

/-- The remark on nesting is made once, at the first block that is too deep. -/
theorem filter_nestedTooDeep_remarks (ctx : Context) (nodes : List Node) :
    (remarks ctx nodes).filter (fun r => r.finding = .nestedTooDeep) =
      (((visits ctx nodes).find? Visit.tooDeep).map fun v => ⟨v.line, .nestedTooDeep⟩).toList := by
  have herror : (remarks ctx nodes).filter (fun r => r.finding = .nestedTooDeep) =
      ((remarks ctx nodes).filter Remark.isError).filter (fun r => r.finding = .nestedTooDeep) := by
    rw [List.filter_filter]
    refine List.filter_congr fun r _ => ?_
    by_cases h : r.finding = .nestedTooDeep
    · simp [h, Remark.isError, Finding.severity]
    · simp [h]
  rcases errors_remarks_cases ctx nodes with
    ⟨hnone, hremarks⟩ | ⟨front, v, back, hvisits, hv, hfront, hremarks⟩
  · rw [herror, hremarks, filter_nestedTooDeep_problems,
      List.find?_eq_none.mpr fun v hv => by simp [hnone v hv]]
    rfl
  · have hfound : (visits ctx nodes).find? Visit.tooDeep = some v :=
      List.find?_eq_some_iff_append.mpr
        ⟨hv, front, back, hvisits, fun u hu => by simp [hfront u hu]⟩
    have hproblems : (v.problems ctx).filter (fun r => r.finding = .nestedTooDeep) = [] := by
      have h : ([v].flatMap (Visit.problems ctx)).filter _ = [] := filter_nestedTooDeep_problems [v]
      rwa [List.flatMap_cons, List.flatMap_nil, List.append_nil] at h
    rw [herror, hremarks, hfound, List.filter_append, List.filter_append,
      filter_nestedTooDeep_problems, hproblems, List.filter_cons_of_pos (by simp),
      filter_nestedTooDeep_problems]
    rfl

theorem filter_nestedTooDeep_report (ctx : Context) (name : String) (nodes : List Node) :
    (compile ctx name nodes).report.filter (fun d => d.message = Finding.nestedTooDeep.message) =
      (((visits ctx nodes).find? Visit.tooDeep).map fun v =>
        ⟨.error, .roomScript, name, .line v.line, Finding.nestedTooDeep.message⟩).toList := by
  have hmessage : (fun d : Diagnostic => decide (d.message = Finding.nestedTooDeep.message)) ∘
      Remark.diagnostic name = fun r => decide (r.finding = .nestedTooDeep) :=
    funext fun r => decide_eq_decide.mpr Finding.message_eq_iff
  rw [report_compile, List.filter_map, hmessage, filter_nestedTooDeep_remarks,
    ← Option.toList_map, Option.map_map]
  rfl

/-- **Nesting is limited to eight blocks.**  A script has the error on nesting exactly if a choice
or a loop has eight others around it, and then once, at the line of the first of these.  A walk with
a counter of open blocks makes the same report, and ends with none open. -/
theorem compile_nesting (ctx : Context) (name : String) (nodes : List Node) :
    ((∃ d ∈ (compile ctx name nodes).report, d.message = Finding.nestedTooDeep.message) ↔
      ∃ v ∈ visits ctx nodes, v.node.isBlock = true ∧ 8 ≤ v.depth) ∧
    (compile ctx name nodes).report.filter (fun d => d.message = Finding.nestedTooDeep.message) =
      (((visits ctx nodes).find? fun v => v.node.isBlock && decide (8 ≤ v.depth)).map fun v =>
        ⟨.error, .roomScript, name, .line v.line, Finding.nestedTooDeep.message⟩).toList ∧
    (visits ctx nodes).map Visit.line = List.range' 1 (Node.countAll nodes) ∧
    (walkAll ctx .start nodes).depth = 0 ∧
    (walkAll ctx .start nodes).remarks.map (Remark.diagnostic name) =
      (compile ctx name nodes).report := by
  have hfilter := filter_nestedTooDeep_report ctx name nodes
  have hsome : (∃ d ∈ (compile ctx name nodes).report,
      d.message = Finding.nestedTooDeep.message) ↔
        ((visits ctx nodes).find? Visit.tooDeep).isSome = true := by
    have hexists : (∃ d ∈ (compile ctx name nodes).report,
        d.message = Finding.nestedTooDeep.message) ↔
          (compile ctx name nodes).report.filter
            (fun d => d.message = Finding.nestedTooDeep.message) ≠ [] := by
      simp [List.filter_eq_nil_iff]
    rw [hexists, hfilter]
    cases (visits ctx nodes).find? Visit.tooDeep with
    | none => simp
    | some v => simp
  refine ⟨?_, hfilter, map_line_visitsOf nodes 1 0 0, ?_, ?_⟩
  · rw [hsome, List.find?_isSome]
    exact exists_congr fun v => and_congr_right fun _ => by
      rw [Visit.tooDeep, Bool.and_eq_true, decide_eq_true_iff, maxNesting]
  · rw [walkAll_eq]
    rfl
  · rw [walkAll_eq, report_compile]
    rfl

/-- Of ten loops inside each other, each behind a comment, the ninth is reported. -/
example : ((visits sampleContext (Nat.repeat
    (fun ns => [.comment "again", .loop ⟨.flag, "seen", .isClear, none⟩ ns]) 10 [])).find?
      Visit.tooDeep).map Visit.line = some 18 := by
  decide

end Report

end Cartridge.Script
