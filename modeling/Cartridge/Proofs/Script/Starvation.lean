import Cartridge.Proofs.Script.Outline
import Cartridge.Proofs.Script.Targets
import Cartridge.Proofs.Script.Visits

/-!
# Loops that never let go

A loop is warned about if no instruction in its body yields.  The warning is found on the tree, by
the names of instructions, and says the same as the opcodes in the code of the loop: no boundary
from its head to its exit holds an opcode that yields (`any_yields_loop`).

Main statement: `compile_starvation`, the warnings about a script are those that its code asks for,
one for each loop, and they never change the code.
-/

namespace Cartridge

def TableEntry.withYields (e : TableEntry) (yields : Bool) : TableEntry :=
  { e with instruction := { e.instruction with yields := yields } }

/-- The table with other answers to the question which instructions yield. -/
def InstructionTable.withYields (t : InstructionTable) (f : TableEntry → Bool) :
    InstructionTable :=
  { t with entries := t.entries.map fun e => e.withYields (f e) }

namespace Script

section Definitions

def Context.withYields (ctx : Context) (f : TableEntry → Bool) : Context :=
  { ctx with instructions := ctx.instructions.withYields f }

variable (t : InstructionTable)

/-- A script may be suspended behind the instruction. -/
def Op.yields (op : Op) : Bool := (op.encode t).head?.any fun opcode => t.yieldsAt opcode.toNat

def Node.isLoop : Node → Bool
  | .loop _ _ => true
  | .statement _ | .choice _ _ _ | .comment _ => false

namespace Visit

/-- The offset behind the code of the node. -/
def exit (v : Visit) : Nat := v.offset + v.node.size t

/-- An instruction of the code holds an opcode that yields, between the start of the node and its
exit. -/
def yields (code : Bytes) (ls : List Listed) (v : Visit) : Bool :=
  ls.any fun l => (decide (v.offset ≤ l.offset) && decide (l.offset < v.exit t)) &&
    code[l.offset]?.any fun opcode => t.yieldsAt opcode.toNat

/-- The loop of the node stands in the code: a branch to its exit, and a jump back to the branch in
front of the exit. -/
structure Loops (ctx : Context) (code : Bytes) (ls : List Listed) (v : Visit) : Prop where
  head : ∃ op, ⟨v.offset, op⟩ ∈ ls ∧ op.target? = some (v.exit ctx.instructions)
  back : ⟨v.exit ctx.instructions - 3, .jump v.offset⟩ ∈ ls
  emitted : (code.drop v.offset).take (v.node.size ctx.instructions) = v.node.code ctx v.offset

end Visit

end Definitions

theorem Node.exists_of_isLoop {n : Node} (h : n.isLoop = true) : ∃ c b, n = .loop c b := by
  cases n with
  | loop c b => exact ⟨c, b, rfl⟩
  | _ => exact absurd h Bool.false_ne_true

/-! ## Opcodes that yield -/

section Opcodes

theorem Op.yields_jump (t : InstructionTable) (target : Nat) :
    (Op.jump target).yields t = false := by
  refine InstructionTable.yieldsAt_of_lt ?_
  show 1 < 6 + 2 * t.groups
  omega

variable {ctx : Context} (hs : ctx.Sound)
include hs

theorem Op.yields_branch {test : Test} (hf : test.Fits ctx.instructions) (target : Nat) :
    (Op.branch test target).yields ctx.instructions = false := by
  rw [Op.yields, Op.encode, Test.encode]
  unfold Test.Fits at hf
  have hm : ctx.instructions.firstInstruction ≤ 128 := hs.laidOut.firstInstruction_le
  have h1 := ctx.instructions.firstInstruction_eq
  have h2 := ctx.instructions.branchClear_eq
  cases hk : test.comparator.kind with
  | flag =>
    simp only [hk] at hf
    have hg : test.index / flagGroupSize < ctx.instructions.groups := Nat.div_lt_of_lt_mul hf.1
    have hb := flagBranch_bounds (t := ctx.instructions) test.comparator
    refine InstructionTable.yieldsAt_of_lt ?_
    rw [toNat_byte_of_lt (by omega)]
    omega
  | word =>
    have hlt := wordBranch_lt ctx.instructions test.comparator
    refine InstructionTable.yieldsAt_of_lt ?_
    rw [toNat_byte_of_lt (by omega)]
    omega

theorem Condition.yields_exit (c : Condition) (target : Nat) :
    (c.exit ctx target).yields ctx.instructions = false := by
  unfold exit
  by_cases ha : c.comparator.accepts c.kind = true
  · rw [if_pos ha]
    exact Op.yields_branch hs (Condition.fits_exitTest hs ha) target
  · rw [if_neg ha]
    exact Op.yields_jump ctx.instructions target

/-- The opcode of a statement tells the same as its name, whatever group its flag is in. -/
theorem Statement.yields_emit? (s : Statement) :
    ((s.emit? ctx).toList.map Op.call).any (Op.yields ctx.instructions) = s.yields ctx := by
  unfold emit? yields
  cases hl : ctx.instructions.lookup? s.instruction with
  | none => rfl
  | some e =>
    have hyields := hs.laidOut.yieldsAt_eq
      (Statement.entryAt?_emit hs (s := s) (InstructionTable.mem_of_lookup? hl))
    simp only [Option.map_some, Option.toList_some, List.map_cons, List.map_nil, List.any_cons,
      List.any_nil, Bool.or_false]
    exact hyields

/-- **The opcodes of nodes tell the same as their tree.** -/
theorem any_yields_opsOf (ns : List Node) (origin : Nat) :
    (opsOf ctx origin ns).any (Op.yields ctx.instructions) = anyYields ctx ns := by
  induction ns using nodes_induction generalizing origin with
  | nil => rfl
  | statement s ns ih =>
    rw [opsOf, List.any_append, ih, anyYields, Node.ops, s.yields_emit? hs, Node.yields]
  | choice c t e ns iht ihe ih =>
    rw [opsOf, List.any_append, ih, anyYields, Node.yields]
    cases e with
    | nil => rw [Node.ops, List.any_cons, c.yields_exit hs, iht, anyYields, Bool.or_false,
        Bool.false_or]
    | cons n e => rw [Node.ops, List.any_cons, c.yields_exit hs, List.any_append, List.any_cons,
        Op.yields_jump, iht, ihe, Bool.false_or, Bool.false_or]
  | loop c b ns ihb ih =>
    rw [opsOf, List.any_append, ih, anyYields, Node.yields, Node.ops, List.any_cons,
      c.yields_exit hs, List.any_append, List.any_cons, Op.yields_jump, ihb, List.any_nil,
      Bool.or_false, Bool.or_false, Bool.false_or]
  | comment text ns ih => rw [opsOf, List.any_append, ih, anyYields, Node.ops, Node.yields,
      List.any_nil]

theorem any_yields_loop (c : Condition) (b : List Node) (origin : Nat) :
    ((Node.loop c b).ops ctx origin).any (Op.yields ctx.instructions) = anyYields ctx b := by
  have h := any_yields_opsOf hs [.loop c b] origin
  rw [opsOf, opsOf, List.append_nil, anyYields, anyYields, Bool.or_false] at h
  exact h

end Opcodes

/-! ## Boundaries in the code of a node -/

section Boundaries

variable {t : InstructionTable} {ctx : Context} {v : Visit} {ops : List Op} {origin : Nat}
  {l : Listed}

theorem Op.head?_encode_append (op : Op) (rest : Bytes) :
    (op.encode t ++ rest).head? = (op.encode t).head? := by
  have hpos : 0 < (op.encode t).length := by
    rw [Op.length_encode]
    exact op.size_pos
  cases h : op.encode t with
  | nil => exact absurd hpos (by rw [h]; exact Nat.lt_irrefl 0)
  | cons b bs => rfl

/-- At the offset of an instruction stands its opcode. -/
theorem getElem?_of_mem_locate {front : Bytes} (hfront : front.length = origin)
    (h : l ∈ locate origin ops) :
    (front ++ assemble t ops)[l.offset]? = (l.op.encode t).head? := by
  induction ops generalizing origin front with
  | nil => exact absurd h List.not_mem_nil
  | cons op ops ih =>
    rw [assemble_cons]
    rcases List.mem_cons.mp h with rfl | h
    · rw [List.getElem?_append_right (Nat.le_of_eq hfront), hfront, Nat.sub_self,
        ← List.head?_eq_getElem?, Op.head?_encode_append]
    · rw [← List.append_assoc]
      exact ih (by rw [List.length_append, hfront, Op.length_encode]) h

/-- The instructions between the start of a node and its exit are its own. -/
theorem Visit.Among.mem_locate_iff (h : v.Among ctx origin ops) :
    l ∈ locate v.offset (v.node.ops ctx v.offset) ↔
      l ∈ locate origin ops ∧ v.offset ≤ l.offset ∧ l.offset < v.exit ctx.instructions := by
  obtain ⟨front, back, rfl, hoffset⟩ := h
  rw [locate_append, locate_append, ← hoffset, List.mem_append, List.mem_append, Visit.exit,
    ← extent_ops v.node v.offset]
  constructor
  · intro hl
    exact ⟨.inr (.inl hl), offset_bounds_of_mem_locate hl⟩
  · rintro ⟨hl | hl | hl, hlo, hhi⟩
    · have := offset_bounds_of_mem_locate hl
      omega
    · exact hl
    · have := offset_bounds_of_mem_locate hl
      omega

/-- The code of a node is cut out of the code of the script. -/
theorem Visit.Among.take_drop (h : v.Among ctx 0 ops) :
    ((assemble ctx.instructions ops).drop v.offset).take (v.node.size ctx.instructions) =
      v.node.code ctx v.offset := by
  obtain ⟨front, back, rfl, hoffset⟩ := h
  have hfront : (assemble ctx.instructions front).length = v.offset := by
    rw [length_assemble, hoffset, Nat.zero_add]
  rw [assemble_append, ← hfront, List.drop_left, hfront, assemble_append, ← code_eq_assemble,
    ← length_code v.node v.offset, List.take_left]

theorem Visit.Among.loops {c : Condition} {b : List Node} (h : v.Among ctx 0 ops)
    (hv : v.node = .loop c b) :
    v.Loops ctx (assemble ctx.instructions ops) (locate 0 ops) := by
  have hexit : v.exit ctx.instructions =
      v.offset + c.size + codeSize ctx.instructions b + 3 := by
    rw [Visit.exit, hv, Node.size, Nat.add_assoc, Nat.add_assoc, Nat.add_assoc]
  have hlocate : locate v.offset (v.node.ops ctx v.offset) =
      ⟨v.offset, c.exit ctx (v.exit ctx.instructions)⟩ ::
        (locate (v.offset + c.size) (opsOf ctx (v.offset + c.size) b) ++
          [⟨v.exit ctx.instructions - 3, .jump v.offset⟩]) := by
    rw [hv, Node.ops, locate_cons, Condition.size_exit, locate_append, extent_opsOf, hexit]
    rfl
  have hhead : ⟨v.offset, c.exit ctx (v.exit ctx.instructions)⟩ ∈
      locate v.offset (v.node.ops ctx v.offset) := by
    rw [hlocate]
    exact List.mem_cons_self
  have hback : ⟨v.exit ctx.instructions - 3, .jump v.offset⟩ ∈
      locate v.offset (v.node.ops ctx v.offset) := by
    rw [hlocate]
    exact List.mem_cons_of_mem _ (List.mem_append_right _ List.mem_cons_self)
  exact ⟨⟨_, (h.mem_locate_iff.mp hhead).1, Condition.target?_exit c _⟩,
    (h.mem_locate_iff.mp hback).1, h.take_drop⟩

/-- An opcode that yields stands in the code of a node if an instruction of the node yields. -/
theorem Visit.Among.yields_eq (h : v.Among ctx 0 ops) :
    v.yields ctx.instructions (assemble ctx.instructions ops) (locate 0 ops) =
      (v.node.ops ctx v.offset).any (Op.yields ctx.instructions) := by
  have hopcode : ∀ l ∈ locate 0 ops, ((assemble ctx.instructions ops)[l.offset]?.any fun opcode =>
      ctx.instructions.yieldsAt opcode.toNat) = l.op.yields ctx.instructions := by
    intro l hl
    have hget : ([] ++ assemble ctx.instructions ops)[l.offset]? = _ :=
      getElem?_of_mem_locate rfl hl
    rw [List.nil_append] at hget
    rw [hget, Op.yields]
  rw [Bool.eq_iff_iff, Visit.yields, List.any_eq_true,
    ← map_op_locate v.offset (v.node.ops ctx v.offset), List.any_map, List.any_eq_true]
  simp only [Bool.and_eq_true, decide_eq_true_eq]
  constructor
  · rintro ⟨l, hl, hbounds, hyields⟩
    rw [hopcode l hl] at hyields
    exact ⟨l, h.mem_locate_iff.mpr ⟨hl, hbounds⟩, hyields⟩
  · rintro ⟨l, hl, hyields⟩
    obtain ⟨hl, hbounds⟩ := h.mem_locate_iff.mp hl
    exact ⟨l, hl, hbounds, (hopcode l hl).trans hyields⟩

end Boundaries

/-! ## Code without regard to what yields -/

section Code

variable {ctx : Context} {f : TableEntry → Bool}

theorem lookup?_withYields (name : String) :
    (ctx.withYields f).instructions.lookup? name =
      (ctx.instructions.lookup? name).map fun e => e.withYields (f e) :=
  List.find?_map

theorem Statement.code_withYields (s : Statement) : s.code (ctx.withYields f) = s.code ctx := by
  rw [code, code, lookup?_withYields]
  cases ctx.instructions.lookup? s.instruction with
  | none => rfl
  | some e => rfl

theorem Condition.code_withYields (c : Condition) : c.code (ctx.withYields f) = c.code ctx := rfl

/-- What yields does not matter to the code. -/
theorem codeOf_withYields (ns : List Node) (origin : Nat) :
    codeOf (ctx.withYields f) origin ns = codeOf ctx origin ns := by
  induction ns using nodes_induction generalizing origin with
  | nil => rfl
  | statement s ns ih => rw [codeOf, codeOf, Node.code, Node.code, s.code_withYields, ih]
  | choice c t e ns iht ihe ih =>
    rw [codeOf, codeOf, ih]
    cases e with
    | nil => rw [Node.code, Node.code, c.code_withYields, iht]
    | cons n e => rw [Node.code, Node.code, c.code_withYields, iht, ihe]
  | loop c b ns ihb ih =>
    rw [codeOf, codeOf, ih, Node.code, Node.code, c.code_withYields, ihb]
  | comment text ns ih => rw [codeOf, codeOf, ih, Node.code, Node.code]

theorem result_compile_withYields (name : String) (nodes : List Node) :
    (compile (ctx.withYields f) name nodes).result = (compile ctx name nodes).result := by
  rw [result_compile, result_compile, bytecode, bytecode, codeOf_withYields]

end Code

/-! ## The warnings of a script -/

section Compile

variable {ctx : Context} {name : String} {nodes : List Node}

theorem flatMap_warnings {p : Visit → Bool} {vs : List Visit}
    (h : ∀ v ∈ vs, v.warnings ctx = if p v then [⟨v.line, .endless⟩] else []) :
    vs.flatMap (Visit.warnings ctx) = (vs.filter p).map fun v => ⟨v.line, .endless⟩ := by
  induction vs with
  | nil => rfl
  | cons v vs ih =>
    rw [List.forall_mem_cons] at h
    rw [List.flatMap_cons, h.1, ih h.2]
    by_cases hp : p v = true
    · rw [if_pos hp, List.filter_cons_of_pos hp]
      rfl
    · rw [if_neg hp, List.filter_cons_of_neg hp]
      rfl

/-- The warnings of a compiled script are read off its code. -/
theorem warnings_perm (hs : ctx.Sound) (name : String) (nodes : List Node) :
    (compile ctx name nodes).report.warnings.Perm
      (((visits ctx nodes).filter fun v => v.node.isLoop && !v.yields ctx.instructions
        (bytecode ctx nodes) (locate 0 (listing ctx nodes))).map fun v =>
          Remark.diagnostic name ⟨v.line, .endless⟩) := by
  have hwarnings : ∀ v ∈ visits ctx nodes, v.warnings ctx =
      if v.node.isLoop && !v.yields ctx.instructions (bytecode ctx nodes)
        (locate 0 (listing ctx nodes)) then [⟨v.line, .endless⟩] else [] := by
    intro v hv
    rw [bytecode_eq_assemble, (among_listing hv).yields_eq]
    cases hnode : v.node with
    | loop c b =>
      rw [warnings_of_loop hnode, any_yields_loop hs]
      cases anyYields ctx b with
      | true => rfl
      | false => rfl
    | _ =>
      rw [Visit.warnings, hnode]
      rfl
  have hperm := (warnings_remarks ctx nodes).map (Remark.diagnostic name)
  rw [flatMap_warnings hwarnings, List.map_map] at hperm
  rw [warnings_report_compile]
  exact hperm

theorem diagnostic_endless_inj {line line' : Nat} :
    Remark.diagnostic name ⟨line, .endless⟩ = Remark.diagnostic name ⟨line', .endless⟩ ↔
      line = line' := by
  simp [Remark.diagnostic]

/-- A loop has one warning or none. -/
theorem count_warnings (hs : ctx.Sound) (name : String) {v : Visit} (hv : v ∈ visits ctx nodes)
    (hloop : v.node.isLoop = true) :
    (compile ctx name nodes).report.warnings.count (Remark.diagnostic name ⟨v.line, .endless⟩) =
      if v.yields ctx.instructions (bytecode ctx nodes) (locate 0 (listing ctx nodes)) then 0
      else 1 := by
  rw [(warnings_perm hs name nodes).count_eq]
  by_cases hyields : v.yields ctx.instructions (bytecode ctx nodes) (locate 0 (listing ctx nodes))
  · rw [if_pos hyields]
    refine List.count_eq_zero.mpr fun hmem => ?_
    obtain ⟨u, hu, hline⟩ := List.mem_map.mp hmem
    obtain ⟨hu, hstarves⟩ := List.mem_filter.mp hu
    -- no other node has the line
    obtain rfl := eq_of_line_eq hu hv (diagnostic_endless_inj.mp hline)
    simp [hyields] at hstarves
  · rw [if_neg hyields]
    refine List.count_eq_one_of_mem ?_ (List.mem_map_of_mem (List.mem_filter.mpr ⟨hv, ?_⟩))
    · rw [List.Nodup, List.pairwise_map]
      exact ((pairwise_line_visitsOf nodes 1 0 0).filter _).imp fun {u u'} hlt heq =>
        Nat.ne_of_lt hlt (diagnostic_endless_inj.mp heq)
    · simp [hloop, hyields]

/-- **Warnings agree with the code.**  In every script that is compiled, each loop stands between a
branch to its exit and a jump back.  It is warned about, and then once, exactly if no boundary of
its code holds an opcode that yields.  There are no other warnings, and what yields does not matter
to the code. -/
theorem compile_starvation {project : List Instruction} {kind : VariableKind} {vs : List Variable}
    {room : String} {temporaries : List String}
    (htable : (InstructionTable.build project VariableKind.flag.capacity).result =
      .ok ctx.instructions)
    (hflags : (SlotTable.build kind vs room temporaries).result = .ok ctx.scope.flags)
    (name : String) (nodes : List Node) (code : Bytes)
    (h : (compile ctx name nodes).result = .ok code) :
    ∃ ls, disassemble ctx.instructions code = some ls ∧
      (visits ctx nodes).map Visit.line = List.range' 1 (Node.countAll nodes) ∧
      (∀ v ∈ visits ctx nodes, v.node.isLoop = true → v.Loops ctx code ls ∧
        (compile ctx name nodes).report.warnings.count (Remark.diagnostic name ⟨v.line, .endless⟩) =
          if v.yields ctx.instructions code ls then 0 else 1) ∧
      (∀ d ∈ (compile ctx name nodes).report.warnings, ∃ v ∈ visits ctx nodes,
        v.node.isLoop = true ∧ d = Remark.diagnostic name ⟨v.line, .endless⟩) ∧
      ∀ f, (compile (ctx.withYields f) name nodes).result = .ok code := by
  have hs := Context.sound_of_build htable hflags
  obtain ⟨rfl, hsize⟩ := result_compile_eq_ok_iff.mp h
  refine ⟨_, disassemble_bytecode hs hsize, map_line_visitsOf nodes 1 0 0,
    fun v hv hloop => ⟨?_, ?_⟩, fun d hd => ?_,
    fun f => (result_compile_withYields name nodes).trans h⟩
  · obtain ⟨c, b, hnode⟩ := Node.exists_of_isLoop hloop
    rw [bytecode_eq_assemble]
    exact (among_listing hv).loops hnode
  · exact count_warnings hs name hv hloop
  · obtain ⟨v, hv, rfl⟩ := List.mem_map.mp ((warnings_perm hs name nodes).subset hd)
    obtain ⟨hv, hloop⟩ := List.mem_filter.mp hv
    exact ⟨v, hv, (Bool.and_eq_true_iff.mp hloop).1, rfl⟩

/-- Only the inner loop runs without end: the outer one sleeps. -/
def busyNodes : List Node :=
  [.loop ⟨.flag, "seen", .isClear, none⟩
    [.loop ⟨.word, "coins", .less, some "3"⟩
      [.statement ⟨"vanish", []⟩, .statement ⟨"clear_flag", ["seen"]⟩],
      .statement ⟨"sleep_frames", ["1"]⟩]]

def busyCode : Bytes :=
  [7, 255, 21, 0, 5, 0, 3, 0, 15, 0, 13, 255, 1, 4, 0, 22, 1, 0, 1, 0, 0, 0]

theorem starvation_busyNodes :
    (compile sampleContext "startup" busyNodes).report.warnings.count
        (Remark.diagnostic "startup" ⟨1, .endless⟩) = 0 ∧
      (compile sampleContext "startup" busyNodes).report.warnings.count
        (Remark.diagnostic "startup" ⟨2, .endless⟩) = 1 := by
  obtain ⟨ls, hls, -, hloops, -⟩ := @compile_starvation sampleContext _ _ _ _ _ build_sampleTable
    build_sampleFlags "startup" busyNodes busyCode rfl
  obtain rfl := Option.some.inj hls
  refine ⟨(hloops ⟨1, 0, 0, _⟩ List.mem_cons_self rfl).2, ?_⟩
  exact (hloops ⟨2, 1, 4, _⟩ (List.mem_cons_of_mem _ List.mem_cons_self) rfl).2

end Compile

end Script

end Cartridge
