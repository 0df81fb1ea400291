import Cartridge.Proofs.Script.Assembly
import Cartridge.Proofs.Script.Tree
import Cartridge.Proofs.Variable.Bounds

/-!
# The listing of a script

`opsOf` gives the instructions of a script tree in the order of the code, with the offsets that the
jumps and branches lead to.  The code of a script is its listing, assembled (`codeOf_eq_assemble`);
the numbers of the listing fit into their operands (`fits_opsOf`); and its calls are the
statements of the tree in the order of lines (`filterMap_call?_opsOf`).
-/

namespace Cartridge.Script

/-! ## Sizes -/

section Sizes

/-- The size of the branch that leaves a block, in bytes. -/
def Condition.size (c : Condition) : Nat :=
  if c.comparator.accepts c.kind then branchSize c.kind else 3

variable (t : InstructionTable)

mutual

/-- The size of the code of a node in bytes. -/
def Node.size : Node → Nat
  | .statement s => ((t.lookup? s.instruction).map fun e => e.instruction.size).getD 0
  | .choice c a e =>
    c.size + codeSize a +
      match e with
      | [] => 0
      | _ :: _ => 3 + codeSize e
  | .loop c b => c.size + codeSize b + 3
  | .comment _ => 0

def codeSize : List Node → Nat
  | [] => 0
  | n :: ns => n.size + codeSize ns

end

end Sizes

/-! ## Instructions -/

section Instructions

variable (ctx : Context)

/-- The instruction that a statement stands for, with zero for what cannot be resolved. -/
def Statement.emit (s : Statement) (e : TableEntry) : Call :=
  let first := (ctx.firstOperand e.instruction s).number
  let second := (ctx.secondOperand e.instruction s).number
  ⟨byte (e.opcode + Parameter.group e.instruction.first first +
      Parameter.group e.instruction.second second),
    Parameter.encode e.instruction.first first ++ Parameter.encode e.instruction.second second⟩

/-- An unknown instruction leaves nothing. -/
def Statement.emit? (s : Statement) : Option Call :=
  (ctx.instructions.lookup? s.instruction).map (s.emit ctx)

/-- The branch that leaves a block when the condition does not hold. -/
def Condition.exitTest (c : Condition) : Test :=
  let n := (c.variableOperand ctx).number
  match c.kind with
  | .flag => ⟨c.comparator.negate, n, 0⟩
  | .word => ⟨c.comparator.negate, n % 256, c.valueOperand.number⟩

def Condition.exit (c : Condition) (target : Nat) : Op :=
  if c.comparator.accepts c.kind then .branch (c.exitTest ctx) target else .jump target

mutual

/-- The instructions of a node that starts at the offset `origin`. -/
def Node.ops (origin : Nat) : Node → List Op
  | .statement s => (s.emit? ctx).toList.map .call
  | .choice c t e =>
    let thenStart := origin + c.size
    let thenStop := thenStart + codeSize ctx.instructions t
    match e with
    | [] => c.exit ctx thenStop :: opsOf thenStart t
    | _ :: _ =>
      let elseStart := thenStop + 3
      c.exit ctx elseStart :: (opsOf thenStart t ++
        .jump (elseStart + codeSize ctx.instructions e) :: opsOf elseStart e)
  | .loop c b =>
    let bodyStart := origin + c.size
    c.exit ctx (bodyStart + codeSize ctx.instructions b + 3) ::
      (opsOf bodyStart b ++ [.jump origin])
  | .comment _ => []

def opsOf (origin : Nat) : List Node → List Op
  | [] => []
  | n :: ns => n.ops origin ++ opsOf (origin + n.size ctx.instructions) ns

end

/-- The instructions of a whole script. -/
def listing (nodes : List Node) : List Op := opsOf ctx 0 nodes ++ [.finish]

end Instructions

/-! ## The code of single nodes -/

section Single

variable {ctx : Context}

theorem Comparator.kind_eq_of_accepts {c : Comparator} {kind : VariableKind}
    (h : c.accepts kind = true) : c.kind = kind := by
  simpa [accepts] using h

theorem Condition.comparator_exitTest (c : Condition) :
    (c.exitTest ctx).comparator = c.comparator.negate := by
  unfold exitTest
  dsimp only
  split
  · rfl
  · rfl

theorem Condition.kind_exitTest {c : Condition} (h : c.comparator.accepts c.kind = true) :
    (c.exitTest ctx).comparator.kind = c.kind := by
  rw [comparator_exitTest, Comparator.kind_negate, Comparator.kind_eq_of_accepts h]

@[simp] theorem Condition.size_exit (c : Condition) (target : Nat) :
    (c.exit ctx target).size = c.size := by
  unfold exit size
  by_cases h : c.comparator.accepts c.kind = true
  · rw [if_pos h, if_pos h, Op.size, Test.size, kind_exitTest h]
  · rw [if_neg h, if_neg h, Op.size]

@[simp] theorem Condition.target?_exit (c : Condition) (target : Nat) :
    (c.exit ctx target).target? = some target := by
  unfold exit
  split
  · rfl
  · rfl

theorem Condition.code_append_target (c : Condition) (target : Nat) :
    c.code ctx ++ word16 target = (c.exit ctx target).encode ctx.instructions := by
  unfold code exit
  by_cases h : c.comparator.accepts c.kind = true
  · rw [if_pos h, if_pos h, Op.encode, Test.encode, kind_exitTest h, exitTest]
    cases c.kind with
    | flag => rfl
    | word =>
      simp only
      rw [byte_mod]
  · rw [if_neg h, if_neg h]
    rfl

theorem Condition.length_code (c : Condition) : (c.code ctx).length + 2 = c.size := by
  have h : (c.code ctx ++ word16 0).length = _ := congrArg List.length (c.code_append_target 0)
  rw [List.length_append, word16_length, Op.length_encode, size_exit] at h
  exact h

theorem Statement.code_eq (s : Statement) :
    s.code ctx = assemble ctx.instructions ((s.emit? ctx).toList.map .call) := by
  unfold code emit?
  cases ctx.instructions.lookup? s.instruction with
  | none => rfl
  | some e => simp [assemble, emit, Op.encode]

@[simp] theorem Parameter.length_encode (p : Parameter) (n : Nat) :
    (Parameter.encode p n).length = p.size := by
  cases p <;> rfl

theorem Statement.extent_emit? (s : Statement) :
    extent ((s.emit? ctx).toList.map .call) = (Node.statement s).size ctx.instructions := by
  rw [Node.size, emit?]
  cases ctx.instructions.lookup? s.instruction with
  | none => rfl
  | some e => simp [Op.size, emit, Instruction.size]

end Single

/-! ## The code of trees -/

section Trees

variable {ctx : Context}

theorem length_jumpTo (target : Nat) : (jumpTo target).length = 3 := rfl

/-- The length of the code does not depend on where it starts. -/
theorem length_codeOf (ns : List Node) (origin : Nat) :
    (codeOf ctx origin ns).length = codeSize ctx.instructions ns := by
  induction ns using nodes_induction generalizing origin with
  | nil => rfl
  | statement s ns ih =>
    rw [codeOf, codeSize, List.length_append, ih, Node.code, s.code_eq, length_assemble,
      s.extent_emit?]
  | choice c t e ns iht ihe ih =>
    rw [codeOf, codeSize, List.length_append, ih]
    have hc : (c.code ctx).length + 2 = c.size := c.length_code
    cases e with
    | nil =>
      rw [Node.code, Node.size]
      simp only [List.length_append, word16_length, iht]
      omega
    | cons n e =>
      rw [Node.code, Node.size]
      simp only [List.length_append, word16_length, iht, ihe, length_jumpTo]
      omega
  | loop c b ns ihb ih =>
    rw [codeOf, codeSize, List.length_append, ih, Node.code, Node.size]
    have hc : (c.code ctx).length + 2 = c.size := c.length_code
    simp only [List.length_append, word16_length, ihb, length_jumpTo]
    omega
  | comment text ns ih =>
    rw [codeOf, codeSize, List.length_append, ih, Node.code, Node.size, List.length_nil]

theorem length_code (n : Node) (origin : Nat) :
    (n.code ctx origin).length = n.size ctx.instructions := by
  have h : (codeOf ctx origin [n]).length = _ := length_codeOf [n] origin
  rw [codeOf, codeOf, List.append_nil, codeSize, codeSize] at h
  exact h

theorem length_bytecode (nodes : List Node) :
    (bytecode ctx nodes).length = codeSize ctx.instructions nodes + 1 := by
  rw [bytecode, List.length_append, length_codeOf, List.length_singleton]

/-- **The code of a script is its listing, assembled.** -/
theorem codeOf_eq_assemble (ns : List Node) (origin : Nat) :
    codeOf ctx origin ns = assemble ctx.instructions (opsOf ctx origin ns) := by
  induction ns using nodes_induction generalizing origin with
  | nil => rfl
  | statement s ns ih =>
    rw [codeOf, opsOf, assemble_append, length_code, ih, Node.code, Node.ops, s.code_eq]
  | choice c t e ns iht ihe ih =>
    rw [codeOf, opsOf, assemble_append, length_code, ih]
    congr 1
    -- only in front of an else branch stands a jump
    cases e with
    | nil =>
      rw [Node.code, Node.ops]
      simp only [Nat.add_assoc origin, c.length_code, length_codeOf, c.code_append_target]
      rw [iht, assemble_cons]
    | cons n e =>
      rw [Node.code, Node.ops]
      simp only [Nat.add_assoc origin, c.length_code, length_codeOf, c.code_append_target]
      rw [iht, ihe, assemble_cons, assemble_append, assemble_cons, Op.encode_jump,
        List.append_assoc, List.append_assoc]
  | loop c b ns ihb ih =>
    rw [codeOf, opsOf, assemble_append, length_code, ih]
    congr 1
    rw [Node.code, Node.ops]
    simp only [Nat.add_assoc origin, c.length_code, length_codeOf, c.code_append_target]
    rw [ihb, assemble_cons, assemble_append, assemble_cons, assemble_nil, Op.encode_jump,
      List.append_nil, List.append_assoc]
  | comment text ns ih =>
    rw [codeOf, opsOf, assemble_append, length_code, ih, Node.code, Node.ops, assemble_nil]

theorem code_eq_assemble (n : Node) (origin : Nat) :
    n.code ctx origin = assemble ctx.instructions (n.ops ctx origin) := by
  have h : codeOf ctx origin [n] = _ := codeOf_eq_assemble [n] origin
  rw [codeOf, codeOf, List.append_nil, opsOf, opsOf, List.append_nil] at h
  exact h

theorem bytecode_eq_assemble (nodes : List Node) :
    bytecode ctx nodes = assemble ctx.instructions (listing ctx nodes) := by
  rw [bytecode, codeOf_eq_assemble, listing, assemble_append]
  rfl

theorem extent_opsOf (ns : List Node) (origin : Nat) :
    extent (opsOf ctx origin ns) = codeSize ctx.instructions ns := by
  rw [← length_codeOf ns origin, codeOf_eq_assemble, length_assemble]

theorem extent_ops (n : Node) (origin : Nat) :
    extent (n.ops ctx origin) = n.size ctx.instructions := by
  have h : extent (opsOf ctx origin [n]) = _ := extent_opsOf [n] origin
  rw [opsOf, opsOf, List.append_nil, codeSize, codeSize] at h
  exact h

/-- The calls of a listing are the statements of the tree in the order of lines. -/
theorem filterMap_call?_opsOf (ns : List Node) (origin : Nat) :
    (opsOf ctx origin ns).filterMap Op.call? =
      (statementsOf ns).filterMap (Statement.emit? ctx) := by
  have hexit : ∀ (c : Condition) (target : Nat), (c.exit ctx target).call? = none := by
    intro c target
    unfold Condition.exit
    split
    · rfl
    · rfl
  induction ns using nodes_induction generalizing origin with
  | nil => rfl
  | statement s ns ih =>
    rw [opsOf, statementsOf, List.filterMap_append, List.filterMap_append, ih, Node.ops,
      Node.statements]
    cases h : s.emit? ctx with
    | none => simp [h]
    | some call => simp [h, Op.call?]
  | choice c t e ns iht ihe ih =>
    rw [opsOf, statementsOf, List.filterMap_append, List.filterMap_append, ih,
      Node.statements, List.filterMap_append]
    congr 1
    cases e with
    | nil =>
      rw [Node.ops, List.filterMap_cons, hexit]
      simp only [iht, statementsOf, List.filterMap_nil, List.append_nil]
    | cons n e =>
      rw [Node.ops, List.filterMap_cons, hexit]
      simp only [List.filterMap_append, List.filterMap_cons, Op.call?, iht, ihe]
  | loop c b ns ihb ih =>
    rw [opsOf, statementsOf, List.filterMap_append, List.filterMap_append, ih, Node.ops,
      Node.statements, List.filterMap_cons, hexit]
    simp only [List.filterMap_append, List.filterMap_cons, List.filterMap_nil, Op.call?, ihb,
      List.append_nil]
  | comment text ns ih =>
    rw [opsOf, statementsOf, List.filterMap_append, List.filterMap_append, ih, Node.ops,
      Node.statements, List.filterMap_nil, List.filterMap_nil]

/-- The calls of a whole script. -/
theorem filterMap_call?_listing (nodes : List Node) :
    (locate 0 (listing ctx nodes)).filterMap (fun l => l.op.call?) =
      (statementsOf nodes).filterMap (Statement.emit? ctx) := by
  have hops : (locate 0 (listing ctx nodes)).filterMap (fun l => l.op.call?) =
      ((locate 0 (listing ctx nodes)).map Listed.op).filterMap Op.call? := by
    rw [List.filterMap_map]
    rfl
  rw [← filterMap_call?_opsOf nodes 0, hops, map_op_locate, listing, List.filterMap_append]
  exact List.append_nil _

end Trees

/-! ## Numbers fit into their operands -/

/-- What holds of every context: its table is laid out, and its flags are within the groups that the
table has opcodes for. -/
structure Context.Sound (ctx : Context) : Prop where
  laidOut : ctx.instructions.LaidOut
  flag_lt : ∀ name n, ctx.scope.lookup .flag name = .ok n →
    n < flagGroupSize * ctx.instructions.groups

section Fits

theorem resolveNumber_lt (text : String) : (resolveNumber text).number < 0x10000 := by
  unfold resolveNumber
  cases Text.integer? text with
  | none => exact Nat.zero_lt_succ _
  | some n =>
    simp only
    split
    · simp only [Resolved.number]
      omega
    · exact Nat.zero_lt_succ _

theorem Condition.valueOperand_lt (c : Condition) : c.valueOperand.number < 0x10000 := by
  unfold valueOperand
  cases c.value with
  | none => exact Nat.zero_lt_succ _
  | some text => exact resolveNumber_lt text

theorem Parameter.group_of_ne_flag {p : Parameter} (h : p ≠ .flag) (n : Nat) :
    Parameter.group p n = 0 := by
  cases p with
  | flag => exact absurd rfl h
  | _ => rfl

/-- An instruction never leaves its range of opcodes. -/
theorem group_add_group_lt_width {i : Instruction} (hi : i.Valid) {groups m n : Nat}
    (hg : 0 < groups) (hm : i.first = .flag → m < flagGroupSize * groups)
    (hn : i.second = .flag → n < flagGroupSize * groups) :
    Parameter.group i.first m + Parameter.group i.second n < i.width groups := by
  by_cases h1 : i.first = .flag
  · have h2 : i.second ≠ .flag := by
      intro h2
      have hc := hi.flagCount_le
      simp [Instruction.flagCount, Instruction.parameters, h1, h2] at hc
    rw [Parameter.group_of_ne_flag h2,
      Instruction.width_of_flag (by simp [Instruction.parameters]) h1, h1]
    exact Nat.div_lt_of_lt_mul (hm h1)
  · rw [Parameter.group_of_ne_flag h1, Nat.zero_add]
    by_cases h2 : i.second = .flag
    · rw [Instruction.width_of_flag (by simp [Instruction.parameters]) h2, h2]
      exact Nat.div_lt_of_lt_mul (hn h2)
    · rw [Parameter.group_of_ne_flag h2]
      exact Instruction.width_pos hg

variable {ctx : Context} (hs : ctx.Sound)
include hs

theorem Context.Sound.resolveVariable_lt (name : String) :
    (ctx.resolveVariable .flag name).number < flagGroupSize * ctx.instructions.groups := by
  have hpos : 0 < flagGroupSize * ctx.instructions.groups :=
    Nat.mul_pos (by decide) hs.laidOut.groups_pos
  unfold resolveVariable
  cases h : ctx.scope.lookup .flag name with
  | ok n => exact hs.flag_lt name n h
  | error e =>
    cases e with
    | unknown => exact hpos
    | wrongRoom owner => exact hpos

theorem Context.Sound.resolve?_lt (target : Option String) (argument : Option String) :
    (ctx.resolve? target .flag argument).number < flagGroupSize * ctx.instructions.groups := by
  cases argument with
  | none => exact Nat.mul_pos (by decide) hs.laidOut.groups_pos
  | some name => exact hs.resolveVariable_lt name

/-- The opcode of a statement belongs to the entry of its instruction. -/
theorem Context.Sound.group_lt {s : Statement} {e : TableEntry}
    (he : e ∈ ctx.instructions.entries) :
    Parameter.group e.instruction.first (ctx.firstOperand e.instruction s).number +
      Parameter.group e.instruction.second (ctx.secondOperand e.instruction s).number <
      e.instruction.width ctx.instructions.groups := by
  refine group_add_group_lt_width (hs.laidOut.valid_entry he) hs.laidOut.groups_pos
    (fun h => ?_) (fun h => ?_)
  · rw [firstOperand, h]
    exact hs.resolve?_lt _ _
  · rw [secondOperand, h]
    exact hs.resolve?_lt _ _

theorem Statement.toNat_opcode_emit {s : Statement} {e : TableEntry}
    (he : e ∈ ctx.instructions.entries) :
    (s.emit ctx e).opcode.toNat = e.opcode +
      (Parameter.group e.instruction.first (ctx.firstOperand e.instruction s).number +
        Parameter.group e.instruction.second (ctx.secondOperand e.instruction s).number) := by
  have hb := hs.laidOut.opcode_bounds he (hs.group_lt (s := s) he)
  have hm : maxOpcodes = 128 := rfl
  rw [emit, toNat_byte_of_lt (by omega), Nat.add_assoc]

theorem Statement.entryAt?_emit {s : Statement} {e : TableEntry}
    (he : e ∈ ctx.instructions.entries) :
    ctx.instructions.entryAt? (s.emit ctx e).opcode.toNat = some e := by
  rw [Statement.toNat_opcode_emit hs he]
  exact hs.laidOut.entryAt?_eq_some he (hs.group_lt he)

theorem Statement.fits_emit {s : Statement} {e : TableEntry}
    (he : e ∈ ctx.instructions.entries) : (Op.call (s.emit ctx e)).Fits ctx.instructions := by
  refine ⟨?_, e, Statement.entryAt?_emit hs he, ?_⟩
  · rw [Statement.toNat_opcode_emit hs he]
    exact (hs.laidOut.opcode_bounds he (hs.group_lt he)).1
  · rw [emit, List.length_append, Parameter.length_encode, Parameter.length_encode]

theorem Condition.fits_exit {c : Condition} {target : Nat} (h : target < 0x10000) :
    (c.exit ctx target).Fits ctx.instructions := by
  unfold exit
  by_cases ha : c.comparator.accepts c.kind = true
  · rw [if_pos ha]
    refine ⟨?_, h⟩
    rw [Test.Fits, kind_exitTest ha]
    unfold exitTest
    cases hc : c.kind with
    | flag =>
      refine ⟨?_, rfl⟩
      simp only [variableOperand, hc]
      exact hs.resolveVariable_lt _
    | word => exact ⟨Nat.mod_lt _ (by decide), c.valueOperand_lt⟩
  · rw [if_neg ha]
    exact h

/-- In a script that sixteen-bit targets can address, every number fits into its operand. -/
theorem fits_opsOf {ns : List Node} {origin : Nat}
    (hsize : origin + codeSize ctx.instructions ns < 0x10000) :
    ∀ op ∈ opsOf ctx origin ns, op.Fits ctx.instructions := by
  have hjump : ∀ {target : Nat}, target < 0x10000 → (Op.jump target).Fits ctx.instructions :=
    fun h => h
  -- no target lies behind the end of the nodes
  induction ns using nodes_induction generalizing origin with
  | nil => exact fun op h => absurd h List.not_mem_nil
  | statement s ns ih =>
    rw [codeSize] at hsize
    rw [opsOf, List.forall_mem_append]
    refine ⟨fun op h => ?_, ih (by omega)⟩
    rw [Node.ops, Statement.emit?] at h
    cases hl : ctx.instructions.lookup? s.instruction with
    | none => simp [hl] at h
    | some e =>
      simp only [hl, Option.map_some, Option.toList_some, List.map_cons, List.map_nil,
        List.mem_singleton] at h
      subst h
      exact Statement.fits_emit hs (InstructionTable.mem_of_lookup? hl)
  | choice c t e ns iht ihe ih =>
    rw [codeSize] at hsize
    rw [opsOf, List.forall_mem_append]
    refine ⟨?_, ih (by omega)⟩
    cases e with
    | nil =>
      simp only [Node.size] at hsize
      rw [Node.ops, List.forall_mem_cons]
      exact ⟨Condition.fits_exit hs (by omega), iht (by omega)⟩
    | cons n e =>
      simp only [Node.size] at hsize
      rw [Node.ops, List.forall_mem_cons, List.forall_mem_append, List.forall_mem_cons]
      exact ⟨Condition.fits_exit hs (by omega), iht (by omega), hjump (by omega),
        ihe (by omega)⟩
  | loop c b ns ihb ih =>
    rw [codeSize, Node.size] at hsize
    rw [opsOf, List.forall_mem_append]
    refine ⟨?_, ih (by rw [Node.size]; omega)⟩
    rw [Node.ops, List.forall_mem_cons, List.forall_mem_append, List.forall_mem_singleton]
    exact ⟨Condition.fits_exit hs (by omega), ihb (by omega), hjump (by omega)⟩
  | comment text ns ih =>
    rw [codeSize] at hsize
    rw [opsOf, List.forall_mem_append]
    exact ⟨fun op h => absurd h List.not_mem_nil, ih (by omega)⟩

theorem fits_of_mem_listing {nodes : List Node}
    (hsize : (bytecode ctx nodes).length ≤ maxScriptSize) {op : Op} (h : op ∈ listing ctx nodes) :
    op.Fits ctx.instructions := by
  rw [length_bytecode] at hsize
  have hm : maxScriptSize = 0x10000 := rfl
  rcases List.mem_append.mp h with h | h
  · exact fits_opsOf hs (by omega) _ h
  · rw [List.mem_singleton] at h
    subst h
    trivial

/-- **The sweep over a compiled script finds its listing.** -/
theorem disassemble_bytecode {nodes : List Node}
    (hsize : (bytecode ctx nodes).length ≤ maxScriptSize) :
    disassemble ctx.instructions (bytecode ctx nodes) = some (locate 0 (listing ctx nodes)) := by
  rw [bytecode_eq_assemble]
  exact disassemble_assemble hs.laidOut fun op h => fits_of_mem_listing hs hsize h

end Fits

/-- Flags fit into the groups of a table that is built for as many flags as a room can see. -/
theorem Context.sound_of_build {ctx : Context} {project : List Instruction} {kind : VariableKind}
    {vs : List Variable} {room : String} {temporaries : List String}
    (htable : (InstructionTable.build project VariableKind.flag.capacity).result =
      .ok ctx.instructions)
    (hflags : (SlotTable.build kind vs room temporaries).result = .ok ctx.scope.flags) :
    ctx.Sound := by
  refine ⟨InstructionTable.laidOut_of_build htable, fun name n h => ?_⟩
  rw [InstructionTable.groups_of_build htable]
  exact SlotTable.lookup_lt_of_build hflags h

/-! ## A context of the base instructions -/

section Sample

def sampleTable : InstructionTable := ⟨2, InstructionTable.layOut 2 10 Instruction.base⟩

def sampleState : GameState := ⟨[⟨"door", none⟩, ⟨"lever", some "cave"⟩], [⟨"coins", none⟩]⟩

/-- The temporary flag has the last index. -/
def sampleScope : Scope :=
  ⟨"town", [⟨"door", 0, none⟩, ⟨"lever", 1, some "cave"⟩, ⟨"seen", 511, some "town"⟩],
    [⟨"coins", 0, none⟩]⟩

def sampleContext : Context :=
  ⟨sampleTable, sampleScope, ["startup"], [], ⟨[("town", ["gate"])]⟩⟩

theorem build_sampleTable :
    (InstructionTable.build [] VariableKind.flag.capacity).result = .ok sampleTable := by
  rfl

theorem build_sampleScope :
    (Scope.build sampleState "town" ["seen"] []).result = .ok sampleScope := by
  rfl

theorem build_sampleFlags :
    (SlotTable.build .flag sampleState.flags "town" ["seen"]).result = .ok sampleScope.flags := by
  rfl

end Sample

end Cartridge.Script
