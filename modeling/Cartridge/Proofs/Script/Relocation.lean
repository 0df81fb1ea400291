import Cartridge.Proofs.Script.Listing

/-!
# Moving code

The targets in a script are offsets from its start, so code can be put behind other code if its
targets are moved along.  `relocate?` moves the targets of a script and leaves all other bytes as
they are.

Main statement: `compile_append`, a script in two parts is the first part and behind it the second
one, moved.  The proof goes over the listing: the instructions of nodes that start later are the
same instructions, moved (`opsOf_add`).
-/

namespace Cartridge.Script

/-! ## Moved instructions -/

namespace Op

def move (delta : Nat) : Op → Op
  | finish => finish
  | jump target => jump (target + delta)
  | branch test target => branch test (target + delta)
  | call c => call c

/-- The bytes of an instruction with another target in the last two, if it has one. -/
def moveBytes (delta : Nat) (op : Op) (bytes : Bytes) : Bytes :=
  match op.target? with
  | none => bytes
  | some target => bytes.take (bytes.length - 2) ++ word16 (target + delta)

@[simp] theorem size_move (delta : Nat) (op : Op) : (op.move delta).size = op.size := by
  cases op with
  | finish => rfl
  | jump target => rfl
  | branch test target => rfl
  | call c => rfl

theorem moveBytes_append_target {op : Op} {target : Nat} (h : op.target? = some target)
    (delta : Nat) (front : Bytes) :
    op.moveBytes delta (front ++ word16 target) = front ++ word16 (target + delta) := by
  have hlen : (front ++ word16 target).length - 2 = front.length := by simp
  rw [moveBytes, h]
  simp only [hlen, List.take_left]

/-- Moving the target in the bytes of an instruction gives the bytes of the moved instruction. -/
theorem moveBytes_encode (t : InstructionTable) (delta : Nat) (op : Op) :
    op.moveBytes delta (op.encode t) = (op.move delta).encode t := by
  cases op with
  | finish => rfl
  | jump target => exact moveBytes_append_target rfl delta [byte Opcode.jump]
  | branch test target => exact moveBytes_append_target rfl delta (test.encode t)
  | call c => rfl

end Op

def Listed.move (delta : Nat) (l : Listed) : Listed := { l with op := l.op.move delta }

theorem locate_map_move (delta offset : Nat) (ops : List Op) :
    locate offset (ops.map (Op.move delta)) = (locate offset ops).map (Listed.move delta) := by
  induction ops generalizing offset with
  | nil => rfl
  | cons op ops ih =>
    rw [List.map_cons, locate_cons, ih, Op.size_move, locate_cons, List.map_cons]
    rfl

theorem assemble_map_move (t : InstructionTable) (delta : Nat) (ops : List Op) :
    assemble t (ops.map (Op.move delta)) =
      ops.flatMap fun op => op.moveBytes delta (op.encode t) := by
  rw [assemble, List.flatMap_map]
  simp only [Op.moveBytes_encode]

/-! ## Moved scripts -/

/-- The script with every target increased. -/
def relocate? (t : InstructionTable) (delta : Nat) (code : Bytes) : Option Bytes :=
  alongSweep? t (Op.moveBytes delta) code

/-- The code with every target increased, so that the sweep finds the same instructions at the same
offsets, moved. -/
structure Relocates (t : InstructionTable) (delta : Nat) (code moved : Bytes) : Prop where
  relocate?_eq : relocate? t delta code = some moved
  swept : ∃ ls, disassemble t code = some ls ∧
    disassemble t moved = some (ls.map (Listed.move delta))

theorem relocates_assemble {t : InstructionTable} (ht : t.LaidOut) {delta : Nat} {ops : List Op}
    (hf : ∀ op ∈ ops, op.Fits t) (hm : ∀ op ∈ ops, (op.move delta).Fits t) :
    Relocates t delta (assemble t ops) (assemble t (ops.map (Op.move delta))) := by
  refine ⟨?_, locate 0 ops, disassemble_assemble ht hf, ?_⟩
  · rw [relocate?, alongSweep?_assemble _ ht hf, assemble_map_move]
  · rw [disassemble_assemble ht (List.forall_mem_map.mpr hm), locate_map_move]

/-! ## Listings -/

section Listings

variable {ctx : Context}

theorem Condition.move_exit (c : Condition) (delta target : Nat) :
    (c.exit ctx target).move delta = c.exit ctx (target + delta) := by
  unfold exit
  split
  · rfl
  · rfl

theorem codeSize_append (t : InstructionTable) (xs ys : List Node) :
    codeSize t (xs ++ ys) = codeSize t xs + codeSize t ys := by
  induction xs with
  | nil => simp [codeSize]
  | cons n ns ih => rw [List.cons_append, codeSize, codeSize, ih, Nat.add_assoc]

theorem opsOf_append (xs ys : List Node) (origin : Nat) :
    opsOf ctx origin (xs ++ ys) =
      opsOf ctx origin xs ++ opsOf ctx (origin + codeSize ctx.instructions xs) ys := by
  induction xs generalizing origin with
  | nil => simp [opsOf, codeSize]
  | cons n ns ih =>
    rw [List.cons_append, opsOf, opsOf, ih, codeSize, List.append_assoc, Nat.add_assoc]

/-- **The instructions of nodes move with their start.** -/
theorem opsOf_add (ns : List Node) (origin delta : Nat) :
    opsOf ctx (origin + delta) ns = (opsOf ctx origin ns).map (Op.move delta) := by
  induction ns using nodes_induction generalizing origin with
  | nil => rfl
  | statement s ns ih =>
    rw [opsOf, opsOf, List.map_append, ← ih, Nat.add_right_comm, Node.ops, Node.ops,
      List.map_map]
    rfl
  | choice c t e ns iht ihe ih =>
    rw [opsOf, opsOf, List.map_append, ← ih, Nat.add_right_comm]
    congr 1
    cases e with
    | nil =>
      rw [Node.ops, Node.ops, List.map_cons, Condition.move_exit, ← iht]
      simp only [Nat.add_right_comm _ delta]
    | cons n e =>
      rw [Node.ops, Node.ops, List.map_cons, List.map_append, List.map_cons, Condition.move_exit,
        ← iht, ← ihe, Op.move]
      simp only [Nat.add_right_comm _ delta]
  | loop c b ns ihb ih =>
    rw [opsOf, opsOf, List.map_append, ← ih, Nat.add_right_comm]
    congr 1
    rw [Node.ops, Node.ops, List.map_cons, List.map_append, Condition.move_exit, ← ihb]
    simp only [Nat.add_right_comm _ delta]
    rfl
  | comment text ns ih =>
    rw [opsOf, opsOf, List.map_append, ← ih, Nat.add_right_comm, Node.ops, Node.ops]
    rfl

/-- The listing of a script in two parts. -/
theorem listing_append (xs ys : List Node) :
    listing ctx (xs ++ ys) = opsOf ctx 0 xs ++
      (listing ctx ys).map (Op.move (codeSize ctx.instructions xs)) := by
  rw [listing, listing, opsOf_append, opsOf_add, List.map_append, List.append_assoc]
  rfl

end Listings

/-! ## Scripts in two parts -/

section Compile

variable {ctx : Context}

theorem bytecode_append (hs : ctx.Sound) {xs ys : List Node}
    (hsize : (bytecode ctx (xs ++ ys)).length ≤ maxScriptSize) :
    ∃ moved, Relocates ctx.instructions (codeOf ctx 0 xs).length (bytecode ctx ys) moved ∧
      bytecode ctx (xs ++ ys) = codeOf ctx 0 xs ++ moved := by
  have hys : (bytecode ctx ys).length ≤ maxScriptSize := by
    rw [length_bytecode, codeSize_append] at hsize
    rw [length_bytecode]
    omega
  rw [length_codeOf]
  refine ⟨assemble ctx.instructions
    ((listing ctx ys).map (Op.move (codeSize ctx.instructions xs))), ?_, ?_⟩
  · rw [bytecode_eq_assemble]
    refine relocates_assemble hs.laidOut (fun op h => fits_of_mem_listing hs hys h) fun op h => ?_
    -- the moved instructions are instructions of the whole script
    refine fits_of_mem_listing hs hsize ?_
    rw [listing_append]
    exact List.mem_append_right _ (List.mem_map_of_mem h)
  · rw [bytecode_eq_assemble, listing_append, assemble_append, codeOf_eq_assemble]

/-- **A script in two parts is the first one without its end, and the second one moved behind
it.** -/
theorem compile_append {project : List Instruction} {kind : VariableKind} {vs : List Variable}
    {room : String} {temporaries : List String}
    (htable : (InstructionTable.build project VariableKind.flag.capacity).result =
      .ok ctx.instructions)
    (hflags : (SlotTable.build kind vs room temporaries).result = .ok ctx.scope.flags)
    {name : String} {xs ys : List Node} {code : Bytes}
    (h : (compile ctx name (xs ++ ys)).result = .ok code) :
    ∃ front back moved, (compile ctx name xs).result = .ok (front ++ [byte Opcode.finish]) ∧
      (compile ctx name ys).result = .ok back ∧
      Relocates ctx.instructions front.length back moved ∧ code = front ++ moved := by
  have hs := Context.sound_of_build htable hflags
  obtain ⟨rfl, hsize⟩ := result_compile_eq_ok_iff.mp h
  have hlength : codeSize ctx.instructions xs + codeSize ctx.instructions ys + 1 ≤
      maxScriptSize := by
    rw [← codeSize_append, ← length_bytecode]
    exact hsize
  have hcompiles : ∀ ns, codeSize ctx.instructions ns + 1 ≤ maxScriptSize →
      (compile ctx name ns).result = .ok (bytecode ctx ns) := by
    intro ns hns
    rw [← @length_bytecode ctx] at hns
    exact result_compile_eq_ok_iff.mpr ⟨rfl, hns⟩
  obtain ⟨moved, hmoved, hcode⟩ := bytecode_append hs hsize
  exact ⟨codeOf ctx 0 xs, bytecode ctx ys, moved, hcompiles xs (by omega), hcompiles ys (by omega),
    hmoved, hcode⟩

def openNodes : List Node := [.statement ⟨"set_flag", ["door"]⟩]

def waitNodes : List Node :=
  [.loop ⟨.flag, "seen", .isClear, none⟩ [.statement ⟨"sleep_frames", ["1"]⟩]]

theorem append_openNodes_waitNodes :
    (compile sampleContext "startup" (openNodes ++ waitNodes)).result =
        .ok [10, 0, 7, 255, 12, 0, 22, 1, 0, 1, 2, 0, 0] ∧
      ∃ front back moved,
        (compile sampleContext "startup" openNodes).result = .ok (front ++ [byte Opcode.finish]) ∧
        (compile sampleContext "startup" waitNodes).result = .ok back ∧
        Relocates sampleTable front.length back moved ∧
        [10, 0, 7, 255, 12, 0, 22, 1, 0, 1, 2, 0, 0] = front ++ moved := by
  have hcode : (compile sampleContext "startup" (openNodes ++ waitNodes)).result =
      .ok [10, 0, 7, 255, 12, 0, 22, 1, 0, 1, 2, 0, 0] := by rfl
  exact ⟨hcode, @compile_append sampleContext _ _ _ _ _ build_sampleTable build_sampleFlags _ _ _ _
    hcode⟩

end Compile

end Cartridge.Script
