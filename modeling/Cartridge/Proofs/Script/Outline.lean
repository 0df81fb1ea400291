import Cartridge.Proofs.Script.Listing

/-!
# Outlines of scripts

The outline of a script tells what each of its bytes is for: the opcode of an instruction, up to the
group of flags, an operand, or a byte of a target.  Operands are left blank and targets are not.

Main statement: `compile_sameShape`, the outline of a script depends on the instruction table and
not on the names that the script can refer to.  So a name that cannot be resolved does not move any
code.
-/

namespace Cartridge

namespace InstructionTable

variable {t : InstructionTable} {n : Nat}

/-- The first opcode of the block that an opcode belongs to.  A block has one opcode for each group
of flags, or a single opcode. -/
def blockStart (t : InstructionTable) (opcode : Nat) : Nat :=
  if opcode < t.branchSet then opcode
  else if opcode < t.branchClear then t.branchSet
  else if opcode < t.firstInstruction then t.branchClear
  else ((t.entryAt? opcode).map TableEntry.opcode).getD opcode

theorem blockStart_of_lt (h : n < t.branchSet) : t.blockStart n = n := by
  rw [blockStart, if_pos h]

theorem blockStart_of_entryAt? (h : t.firstInstruction ≤ n) {e : TableEntry}
    (he : t.entryAt? n = some e) : t.blockStart n = e.opcode := by
  have h1 := t.firstInstruction_eq
  have h2 := t.branchClear_eq
  rw [blockStart, if_neg (by omega), if_neg (by omega), if_neg (by omega), he]
  rfl

theorem blockStart_flagBranch (c : Script.Comparator) (hn : n < t.groups) :
    t.blockStart (Script.Condition.flagBranch t c + n) = Script.Condition.flagBranch t c := by
  have h1 := t.firstInstruction_eq
  have h2 := t.branchClear_eq
  cases c with
  | isSet =>
    show t.blockStart (t.branchSet + n) = t.branchSet
    rw [blockStart, if_neg (by omega), if_pos (by omega)]
  | _ =>
    show t.blockStart (t.branchClear + n) = t.branchClear
    rw [blockStart, if_neg (by omega), if_neg (by omega), if_pos (by omega)]

end InstructionTable

namespace Script

/-! ## Parts -/

/-- What a byte of a script is for. -/
inductive Part where
  /-- An opcode of the block that starts with the opcode `first`. -/
  | opcode (first : Nat)
  | operand
  | target (b : UInt8)
deriving DecidableEq, Repr

def Part.Describes (t : InstructionTable) : Part → UInt8 → Prop
  | opcode first, b => t.blockStart b.toNat = first
  | operand, _ => True
  | target b', b => b = b'

section Parts

variable (t : InstructionTable)

/-- The parts of an instruction; a target stands in the last two bytes. -/
def Op.parts (op : Op) : Bytes → List Part
  | [] => []
  | opcode :: rest =>
    .opcode (t.blockStart opcode.toNat) ::
      match op.target? with
      | none => List.replicate rest.length .operand
      | some _ =>
        List.replicate (rest.length - 2) .operand ++ (rest.drop (rest.length - 2)).map .target

def Op.outline (op : Op) : List Part := op.parts t (op.encode t)

/-- The parts of a script that the sweep consumes. -/
def outline? (code : Bytes) : Option (List Part) := alongSweep? t (Op.parts t) code

/-- Scripts that differ in operands alone, and in the groups of flags that opcodes stand for. -/
structure SameShape (code code' : Bytes) : Prop where
  length_eq : code.length = code'.length
  boundaries : ∃ ls ls', disassemble t code = some ls ∧ disassemble t code' = some ls' ∧
    ls.map Listed.offset = ls'.map Listed.offset
  outlined : ∃ parts, outline? t code = some parts ∧ outline? t code' = some parts ∧
    List.Forall₂ (Part.Describes t) parts code ∧ List.Forall₂ (Part.Describes t) parts code'

variable {t} {op : Op} {opcode : UInt8}

theorem Op.parts_of_target {target : Nat} (h : op.target? = some target) (operands : Bytes) :
    op.parts t (opcode :: (operands ++ word16 target)) =
      .opcode (t.blockStart opcode.toNat) ::
        (List.replicate operands.length .operand ++ (word16 target).map .target) := by
  have hlen : (operands ++ word16 target).length - 2 = operands.length := by simp
  rw [parts, h]
  simp only [hlen, List.drop_left]

theorem Op.parts_of_call {c : Call} :
    (Op.call c).parts t (c.opcode :: c.operands) =
      .opcode (t.blockStart c.opcode.toNat) :: List.replicate c.operands.length .operand := rfl

theorem describes_operands (operands : Bytes) :
    List.Forall₂ (Part.Describes t) (List.replicate operands.length .operand) operands := by
  induction operands with
  | nil => exact .nil
  | cons b bs ih => exact .cons trivial ih

theorem describes_target (bytes : Bytes) :
    List.Forall₂ (Part.Describes t) (bytes.map .target) bytes := by
  induction bytes with
  | nil => exact .nil
  | cons b bs ih => exact .cons rfl ih

/-- Parts describe the bytes that they are made of. -/
theorem Op.describes_parts (op : Op) (bytes : Bytes) :
    List.Forall₂ (Part.Describes t) (op.parts t bytes) bytes := by
  cases bytes with
  | nil => exact .nil
  | cons opcode rest =>
    refine .cons rfl ?_
    cases op.target? with
    | none => exact describes_operands rest
    | some target =>
      have happend := List.rel_append (describes_operands (t := t) (rest.take (rest.length - 2)))
        (describes_target (rest.drop (rest.length - 2)))
      dsimp only at happend
      rw [List.take_append_drop, List.length_take_of_le (Nat.sub_le _ _)] at happend
      exact happend

theorem Op.length_outline (op : Op) : (op.outline t).length = op.size := by
  rw [outline, (op.describes_parts (op.encode t)).length_eq, Op.length_encode]

theorem describes_flatMap (ops : List Op) :
    List.Forall₂ (Part.Describes t) (ops.flatMap (Op.outline t)) (assemble t ops) := by
  induction ops with
  | nil => exact .nil
  | cons op ops ih =>
    rw [List.flatMap_cons, assemble_cons]
    exact List.rel_append (op.describes_parts (op.encode t)) ih

/-- Instructions with the same outlines stand at the same offsets. -/
theorem map_offset_locate {xs ys : List Op}
    (h : xs.map (Op.outline t) = ys.map (Op.outline t)) (offset : Nat) :
    (locate offset xs).map Listed.offset = (locate offset ys).map Listed.offset := by
  induction xs generalizing ys offset with
  | nil =>
    obtain rfl := List.map_eq_nil_iff.mp h.symm
    rfl
  | cons x xs ih =>
    cases ys with
    | nil => exact absurd h (by simp)
    | cons y ys =>
      obtain ⟨hhead, htail⟩ := List.cons.inj h
      have hsize : x.size = y.size := by
        rw [← x.length_outline (t := t), ← y.length_outline (t := t), hhead]
      rw [locate_cons, locate_cons, List.map_cons, List.map_cons, hsize, ih htail]

theorem sameShape_assemble (ht : t.LaidOut) {xs ys : List Op} (hx : ∀ op ∈ xs, op.Fits t)
    (hy : ∀ op ∈ ys, op.Fits t) (h : xs.map (Op.outline t) = ys.map (Op.outline t)) :
    SameShape t (assemble t xs) (assemble t ys) := by
  have hparts : ys.flatMap (Op.outline t) = xs.flatMap (Op.outline t) := by
    rw [List.flatMap_def, List.flatMap_def, h]
  have hdx := describes_flatMap (t := t) xs
  have hdy := describes_flatMap (t := t) ys
  rw [hparts] at hdy
  refine ⟨hdx.length_eq.symm.trans hdy.length_eq,
    ⟨_, _, disassemble_assemble ht hx, disassemble_assemble ht hy, map_offset_locate h 0⟩,
    ⟨_, alongSweep?_assemble _ ht hx, ?_, hdx, hdy⟩⟩
  exact (alongSweep?_assemble _ ht hy).trans (congrArg some hparts)

end Parts

/-! ## Branches and calls -/

section Single

/-- The first opcode of the branches that make a comparison. -/
def Comparator.firstOpcode (t : InstructionTable) (c : Comparator) : Nat :=
  match c.kind with
  | .flag => Condition.flagBranch t c
  | .word => Condition.wordBranch c

theorem wordBranch_lt (t : InstructionTable) (c : Comparator) :
    Condition.wordBranch c < t.branchSet := by
  show Condition.wordBranch c < 6
  cases c with
  | _ => decide

/-- A branch tells its comparison and its target. -/
theorem outline_branch {t : InstructionTable} (ht : t.LaidOut) {test : Test} (hf : test.Fits t)
    (target : Nat) :
    (Op.branch test target).outline t =
      .opcode (test.comparator.firstOpcode t) ::
        (List.replicate (test.size - 3) .operand ++ (word16 target).map .target) := by
  rw [Op.outline, Op.encode]
  unfold Test.Fits at hf
  unfold Test.encode Test.size Comparator.firstOpcode
  cases hk : test.comparator.kind with
  | flag =>
    simp only [hk] at hf
    -- the group of the flag counts from the first opcode, and stays inside of the block
    have hg : test.index / flagGroupSize < t.groups := Nat.div_lt_of_lt_mul hf.1
    have hb := flagBranch_bounds (t := t) test.comparator
    have hm : t.firstInstruction ≤ 128 := ht.firstInstruction_le
    refine (Op.parts_of_target rfl [_]).trans ?_
    rw [toNat_byte_of_lt (by omega), InstructionTable.blockStart_flagBranch _ hg]
    rfl
  | word =>
    have hlt : Condition.wordBranch test.comparator < t.branchSet := wordBranch_lt t _
    refine (Op.parts_of_target rfl (_ :: word16 _)).trans ?_
    rw [toNat_byte_of_lt (Nat.lt_of_lt_of_le hlt (show 6 ≤ 256 by decide)),
      InstructionTable.blockStart_of_lt hlt]
    rfl

variable {ctx ctx' : Context}

theorem Condition.fits_exitTest (hs : ctx.Sound) {c : Condition}
    (ha : c.comparator.accepts c.kind = true) : (c.exitTest ctx).Fits ctx.instructions := by
  have h : (c.exit ctx 0).Fits ctx.instructions := Condition.fits_exit hs (by decide)
  rw [exit, if_pos ha] at h
  exact h.1

/-- A call tells its instruction. -/
theorem Statement.outline_emit (hs : ctx.Sound) {s : Statement} {e : TableEntry}
    (he : e ∈ ctx.instructions.entries) :
    (Op.call (s.emit ctx e)).outline ctx.instructions =
      .opcode e.opcode ::
        List.replicate (e.instruction.first.size + e.instruction.second.size) .operand := by
  obtain ⟨hfirst, e', he', hlen⟩ := Statement.fits_emit hs (s := s) he
  obtain rfl : e = e' := Option.some.inj ((Statement.entryAt?_emit hs he).symm.trans he')
  rw [Op.outline, Op.encode, Op.parts_of_call,
    InstructionTable.blockStart_of_entryAt? hfirst he', hlen]

variable (hs : ctx.Sound) (hs' : ctx'.Sound) (htable : ctx'.instructions = ctx.instructions)
include hs hs' htable

theorem Condition.outline_exit (c : Condition) (target : Nat) :
    (c.exit ctx target).outline ctx.instructions =
      (c.exit ctx' target).outline ctx.instructions := by
  unfold exit
  by_cases ha : c.comparator.accepts c.kind = true
  · have hf := fits_exitTest hs ha
    have hf' := fits_exitTest hs' ha
    rw [htable] at hf'
    rw [if_pos ha, if_pos ha, outline_branch hs.laidOut hf, outline_branch hs.laidOut hf',
      Test.size, Test.size, c.comparator_exitTest, c.comparator_exitTest]
  · rw [if_neg ha, if_neg ha]

theorem Statement.outline_emit? (s : Statement) :
    ((s.emit? ctx).toList.map Op.call).map (Op.outline ctx.instructions) =
      ((s.emit? ctx').toList.map Op.call).map (Op.outline ctx.instructions) := by
  rw [emit?, emit?, htable]
  cases hl : ctx.instructions.lookup? s.instruction with
  | none => rfl
  | some e =>
    have he := InstructionTable.mem_of_lookup? hl
    have he' : e ∈ ctx'.instructions.entries := by rw [htable]; exact he
    have h' := Statement.outline_emit hs' (s := s) he'
    rw [htable] at h'
    exact congrArg (fun parts => [parts]) ((Statement.outline_emit hs he).trans h'.symm)

/-- **The outlines of a listing depend on the table alone.** -/
theorem map_outline_opsOf (ns : List Node) (origin : Nat) :
    (opsOf ctx origin ns).map (Op.outline ctx.instructions) =
      (opsOf ctx' origin ns).map (Op.outline ctx.instructions) := by
  -- sizes are read off the table, so the same nodes start at the same offsets in both contexts
  induction ns using nodes_induction generalizing origin with
  | nil => rfl
  | statement s ns ih =>
    rw [opsOf, opsOf, List.map_append, List.map_append, ih, htable, Node.ops, Node.ops,
      s.outline_emit? hs hs' htable]
  | choice c t e ns iht ihe ih =>
    rw [opsOf, opsOf, List.map_append, List.map_append, ih, htable]
    congr 1
    cases e with
    | nil =>
      rw [Node.ops, Node.ops, List.map_cons, List.map_cons, c.outline_exit hs hs' htable, iht,
        htable]
    | cons n e =>
      rw [Node.ops, Node.ops, htable]
      simp only [List.map_cons, List.map_append, c.outline_exit hs hs' htable, iht, ihe]
  | loop c b ns ihb ih =>
    rw [opsOf, opsOf, List.map_append, List.map_append, ih, htable]
    congr 1
    rw [Node.ops, Node.ops, htable]
    simp only [List.map_cons, List.map_append, c.outline_exit hs hs' htable, ihb]
  | comment text ns ih =>
    rw [opsOf, opsOf, List.map_append, List.map_append, ih, htable, Node.ops, Node.ops]

theorem sameShape_bytecode {nodes : List Node}
    (hsize : (bytecode ctx nodes).length ≤ maxScriptSize) :
    SameShape ctx.instructions (bytecode ctx nodes) (bytecode ctx' nodes) := by
  have hsize' : (bytecode ctx' nodes).length ≤ maxScriptSize := by
    rw [length_bytecode] at hsize ⊢
    rwa [htable]
  have hfits' : ∀ op ∈ listing ctx' nodes, op.Fits ctx.instructions := by
    intro op hop
    rw [← htable]
    exact fits_of_mem_listing hs' hsize' hop
  rw [bytecode_eq_assemble, bytecode_eq_assemble, htable]
  refine sameShape_assemble hs.laidOut (fun op hop => fits_of_mem_listing hs hsize hop) hfits' ?_
  rw [listing, listing, List.map_append, List.map_append, map_outline_opsOf hs hs' htable]

end Single

/-! ## Compilation in two contexts -/

section Compile

variable {ctx ctx' : Context}

/-- **What names stand for does not shape the code.**  In contexts with one table a script compiles
to code of one shape, or fails in both for the same reason. -/
theorem compile_sameShape {project : List Instruction} {kind kind' : VariableKind}
    {vs vs' : List Variable} {room room' : String} {temporaries temporaries' : List String}
    (htable : (InstructionTable.build project VariableKind.flag.capacity).result =
      .ok ctx.instructions)
    (hshared : ctx'.instructions = ctx.instructions)
    (hflags : (SlotTable.build kind vs room temporaries).result = .ok ctx.scope.flags)
    (hflags' : (SlotTable.build kind' vs' room' temporaries').result = .ok ctx'.scope.flags)
    (name : String) (nodes : List Node) :
    (∀ failure, (compile ctx name nodes).result = .error failure ↔
      (compile ctx' name nodes).result = .error failure) ∧
    ∀ code, (compile ctx name nodes).result = .ok code →
      ∃ code', (compile ctx' name nodes).result = .ok code' ∧
        SameShape ctx.instructions code code' := by
  have hs := Context.sound_of_build htable hflags
  have hs' : ctx'.Sound := Context.sound_of_build (by rw [hshared]; exact htable) hflags'
  have hlength : (bytecode ctx' nodes).length = (bytecode ctx nodes).length := by
    rw [length_bytecode, length_bytecode, hshared]
  refine ⟨fun failure => ?_, fun code h => ?_⟩
  · rw [result_compile, result_compile, hlength]
    split
    · exact Iff.rfl
    · exact ⟨fun h => absurd h (by simp), fun h => absurd h (by simp)⟩
  · obtain ⟨rfl, hsize⟩ := result_compile_eq_ok_iff.mp h
    refine ⟨bytecode ctx' nodes, result_compile_eq_ok_iff.mpr ⟨rfl, ?_⟩,
      sameShape_bytecode hs hs' hshared hsize⟩
    rwa [hlength]

/-- Nothing can be referred to but two flags, one in each group. -/
def caveContext : Context :=
  ⟨sampleTable, ⟨"cave", [⟨"seen", 0, none⟩, ⟨"door", 511, some "cave"⟩], []⟩, [], [], ⟨[]⟩⟩

theorem build_caveFlags :
    (SlotTable.build .flag [⟨"seen", none⟩] "cave" ["door"]).result =
      .ok caveContext.scope.flags := by
  rfl

def gateKeeperNodes : List Node :=
  [.choice ⟨.word, "coins", .less, some "ten"⟩ [.statement ⟨"load_room", ["town", "gate"]⟩]
      [.statement ⟨"set_flag", ["door"]⟩],
    .loop ⟨.flag, "seen", .isClear, none⟩ [.statement ⟨"start_script", ["startup"]⟩]]

/-- The flags are swapped between the groups, and the text `ten` is a number in neither context. -/
theorem sameShape_gateKeeperNodes :
    SameShape sampleTable
      [5, 0, 0, 0, 12, 0, 21, 0, 0, 1, 14, 0, 10, 0, 7, 255, 23, 0, 19, 0, 1, 14, 0, 0]
      [5, 0, 0, 0, 12, 0, 21, 0, 0, 1, 14, 0, 11, 255, 6, 0, 23, 0, 19, 0, 1, 14, 0, 0] := by
  have hcompiles := @compile_sameShape sampleContext caveContext _ _ _ _ _ _ _ _ _
    build_sampleTable rfl build_sampleFlags build_caveFlags "startup" gateKeeperNodes
  obtain ⟨code', hcode', hshape⟩ := hcompiles.2 _ rfl
  obtain rfl := Except.ok.inj hcode'
  exact hshape

end Compile

end Script

end Cartridge
