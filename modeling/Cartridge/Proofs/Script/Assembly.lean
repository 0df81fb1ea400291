import Cartridge.Proofs.Bytes
import Cartridge.Proofs.Instruction.Layout
import Cartridge.Script.Compile

/-!
# Assembly of scripts

The instructions of the bytecode as the runtime reads them.  `decode?` reads the instruction at the
start of bytes by the documented sizes: a jump has three bytes, a branch on a word six, one on a
flag four, and every other instruction the size that the owner of its opcode has.  `disassemble`
sweeps over bytes from the start and gives every instruction with its offset.

Main statement: `sweep_assemble`, the sweep finds exactly the instructions that were assembled.
-/

namespace Cartridge.Script

/-- What a branch tests: a flag, or a word and the number that it is compared with. -/
structure Test where
  comparator : Comparator
  index : Nat
  /-- Zero for a flag. -/
  value : Nat
deriving DecidableEq, Repr

/-- An instruction of the table as it stands in the code. -/
structure Call where
  opcode : UInt8
  operands : Bytes
deriving DecidableEq, Repr

inductive Op where
  | finish
  | jump (target : Nat)
  | branch (test : Test) (target : Nat)
  | call (c : Call)
deriving DecidableEq, Repr

/-- An instruction and its offset from the start of the script. -/
structure Listed where
  offset : Nat
  op : Op
deriving DecidableEq, Repr

/-- The size of a branch on a variable of the kind, in bytes. -/
def branchSize : VariableKind → Nat
  | .flag => 4
  | .word => 6

namespace Test

def negate (test : Test) : Test := { test with comparator := test.comparator.negate }

def size (test : Test) : Nat := branchSize test.comparator.kind

theorem size_pos (test : Test) : 0 < test.size := by
  unfold size
  cases test.comparator.kind with
  | flag => exact Nat.succ_pos 3
  | word => exact Nat.succ_pos 5

end Test

namespace Op

/-- The size in bytes. -/
def size : Op → Nat
  | finish => 1
  | jump _ => 3
  | branch test _ => test.size
  | call c => 1 + c.operands.length

def target? : Op → Option Nat
  | jump target => some target
  | branch _ target => some target
  | finish | call _ => none

def call? : Op → Option Call
  | call c => some c
  | finish | jump _ | branch _ _ => none

theorem size_pos (op : Op) : 0 < op.size := by
  cases op with
  | finish => exact Nat.one_pos
  | jump target => exact Nat.succ_pos 2
  | branch test target => exact test.size_pos
  | call c => exact Nat.lt_of_lt_of_le Nat.one_pos (Nat.le_add_right 1 _)

end Op

/-! ## Decoding -/

section Decoding

/-- The comparison that a branch on a word makes. -/
def wordComparator? : Nat → Option Comparator
  | 2 => some .equal
  | 3 => some .notEqual
  | 4 => some .less
  | 5 => some .greaterEqual
  | _ => none

variable (t : InstructionTable)

/-- The test that a branch on a flag makes, and its group of flags. -/
def flagComparator? (opcode : Nat) : Option (Comparator × Nat) :=
  if opcode < t.branchSet then none
  else if opcode < t.branchClear then some (.isSet, opcode - t.branchSet)
  else if opcode < t.firstInstruction then some (.isClear, opcode - t.branchClear)
  else none

def decodeJump? : Bytes → Option Op
  | lo :: hi :: _ => some (.jump (ofLittleEndian [lo, hi]))
  | _ => none

def decodeWordBranch? (c : Comparator) : Bytes → Option Op
  | i :: vlo :: vhi :: lo :: hi :: _ =>
    some (.branch ⟨c, i.toNat, ofLittleEndian [vlo, vhi]⟩ (ofLittleEndian [lo, hi]))
  | _ => none

def decodeFlagBranch? (c : Comparator) (group : Nat) : Bytes → Option Op
  | i :: lo :: hi :: _ =>
    some (.branch ⟨c, flagGroupSize * group + i.toNat, 0⟩ (ofLittleEndian [lo, hi]))
  | _ => none

/-- An instruction of the table has as many operand bytes as the owner of its opcode says. -/
def decodeCall? (opcode : UInt8) (rest : Bytes) : Option Op :=
  (t.entryAt? opcode.toNat).bind fun e =>
    let count := e.instruction.first.size + e.instruction.second.size
    if count ≤ rest.length then some (.call ⟨opcode, rest.take count⟩) else none

/-- The instruction at the start of bytes. -/
def decode? : Bytes → Option Op
  | [] => none
  | opcode :: rest =>
    if opcode.toNat = Opcode.finish then some .finish
    else if opcode.toNat = Opcode.jump then decodeJump? rest
    else
      match wordComparator? opcode.toNat with
      | some c => decodeWordBranch? c rest
      | none =>
        match flagComparator? t opcode.toNat with
        | some (c, group) => decodeFlagBranch? c group rest
        | none => decodeCall? t opcode rest

/-- Reads instructions one behind the other, after `skip` bytes of the instruction before.  There is
no answer if an opcode is unknown or the bytes end within an instruction. -/
def sweep (offset : Nat) : Nat → Bytes → Option (List Listed)
  | 0, [] => some []
  | _ + 1, [] => none
  | skip + 1, _ :: bs => sweep (offset + 1) skip bs
  | 0, b :: bs =>
    match decode? t (b :: bs) with
    | none => none
    | some op => (sweep (offset + 1) (op.size - 1) bs).map (⟨offset, op⟩ :: ·)

/-- All instructions of a script, if the sweep from its start consumes it exactly. -/
def disassemble (code : Bytes) : Option (List Listed) := sweep t 0 0 code

end Decoding

/-! ## Encoding -/

section Encoding

variable (t : InstructionTable)

/-- A branch without its target. -/
def Test.encode (test : Test) : Bytes :=
  match test.comparator.kind with
  | .flag =>
    [byte (Condition.flagBranch t test.comparator + test.index / flagGroupSize), byte test.index]
  | .word =>
    byte (Condition.wordBranch test.comparator) :: byte test.index :: word16 test.value

def Op.encode : Op → Bytes
  | .finish => [byte Opcode.finish]
  | .jump target => jumpTo target
  | .branch test target => test.encode t ++ word16 target
  | .call c => c.opcode :: c.operands

def assemble (ops : List Op) : Bytes := ops.flatMap (Op.encode t)

/-- The number of bytes that instructions take. -/
def extent (ops : List Op) : Nat := total (ops.map Op.size)

/-- Instructions that follow each other from an offset. -/
def locate (offset : Nat) : List Op → List Listed
  | [] => []
  | op :: ops => ⟨offset, op⟩ :: locate (offset + op.size) ops

/-- The numbers of a test fit into its operands. -/
def Test.Fits (test : Test) : Prop :=
  match test.comparator.kind with
  | .flag => test.index < flagGroupSize * t.groups ∧ test.value = 0
  | .word => test.index < 256 ∧ test.value < 0x10000

/-- The numbers of an instruction fit into its operands, and its opcode has an owner. -/
def Op.Fits : Op → Prop
  | .finish => True
  | .jump target => target < 0x10000
  | .branch test target => test.Fits t ∧ target < 0x10000
  | .call c =>
    t.firstInstruction ≤ c.opcode.toNat ∧ ∃ e, t.entryAt? c.opcode.toNat = some e ∧
      c.operands.length = e.instruction.first.size + e.instruction.second.size

@[simp] theorem assemble_nil : assemble t [] = [] := rfl

@[simp] theorem assemble_cons (op : Op) (ops : List Op) :
    assemble t (op :: ops) = op.encode t ++ assemble t ops := rfl

@[simp] theorem assemble_append (xs ys : List Op) :
    assemble t (xs ++ ys) = assemble t xs ++ assemble t ys := List.flatMap_append

@[simp] theorem extent_nil : extent [] = 0 := rfl

@[simp] theorem extent_cons (op : Op) (ops : List Op) :
    extent (op :: ops) = op.size + extent ops := rfl

@[simp] theorem extent_append (xs ys : List Op) : extent (xs ++ ys) = extent xs + extent ys := by
  simp [extent]

@[simp] theorem locate_nil (offset : Nat) : locate offset [] = [] := rfl

@[simp] theorem locate_cons (offset : Nat) (op : Op) (ops : List Op) :
    locate offset (op :: ops) = ⟨offset, op⟩ :: locate (offset + op.size) ops := rfl

theorem locate_append (offset : Nat) (xs ys : List Op) :
    locate offset (xs ++ ys) = locate offset xs ++ locate (offset + extent xs) ys := by
  induction xs generalizing offset with
  | nil => rfl
  | cons x xs ih =>
    rw [List.cons_append, locate_cons, ih, locate_cons, extent_cons, List.cons_append,
      Nat.add_assoc]

theorem map_op_locate (offset : Nat) (ops : List Op) :
    (locate offset ops).map Listed.op = ops := by
  induction ops generalizing offset with
  | nil => rfl
  | cons op ops ih => rw [locate_cons, List.map_cons, ih]

theorem Test.length_encode (test : Test) : (test.encode t).length + 2 = test.size := by
  unfold encode size
  cases test.comparator.kind with
  | flag => rfl
  | word => rfl

theorem Op.encode_jump (target : Nat) : (Op.jump target).encode t = jumpTo target := rfl

@[simp] theorem Op.length_encode (op : Op) : (op.encode t).length = op.size := by
  cases op with
  | finish => rfl
  | jump target => rfl
  | branch test target =>
    rw [encode, List.length_append, word16_length, Test.length_encode, size]
  | call c =>
    rw [encode, List.length_cons, size, Nat.add_comm]

@[simp] theorem length_assemble (ops : List Op) : (assemble t ops).length = extent ops := by
  induction ops with
  | nil => rfl
  | cons op ops ih => rw [assemble_cons, List.length_append, Op.length_encode, ih, extent_cons]

end Encoding

/-! ## Reading back -/

section Reading

variable {t : InstructionTable} (ht : t.LaidOut)

theorem decode?_finish (rest : Bytes) :
    decode? t (byte Opcode.finish :: rest) = some .finish := rfl

theorem decode?_jumpTo {target : Nat} (h : target < 0x10000) (rest : Bytes) :
    decode? t (jumpTo target ++ rest) = some (.jump target) := by
  change some (Op.jump (ofLittleEndian (word16 target))) = _
  rw [ofLittleEndian_word16 h]

theorem decode?_wordBranch {c : Comparator} (hc : c.kind = .word) {index value target : Nat}
    (hi : index < 256) (hv : value < 0x10000) (h : target < 0x10000) (rest : Bytes) :
    decode? t (byte (Condition.wordBranch c) :: byte index ::
      (word16 value ++ (word16 target ++ rest))) = some (.branch ⟨c, index, value⟩ target) := by
  have hread : decodeWordBranch? c (byte index :: (word16 value ++ (word16 target ++ rest))) =
      some (.branch ⟨c, index, value⟩ target) := by
    change some (Op.branch ⟨c, (byte index).toNat, ofLittleEndian (word16 value)⟩
      (ofLittleEndian (word16 target))) = _
    rw [toNat_byte_of_lt hi, ofLittleEndian_word16 hv, ofLittleEndian_word16 h]
  cases c with
  | equal => exact hread
  | notEqual => exact hread
  | less => exact hread
  | greaterEqual => exact hread
  | isSet => exact absurd hc (by decide)
  | isClear => exact absurd hc (by decide)

/-- An opcode behind the branches on words is neither the end nor a jump nor such a branch. -/
theorem decode?_of_ge {opcode : UInt8} (h : t.branchSet ≤ opcode.toNat) (rest : Bytes) :
    decode? t (opcode :: rest) =
      match flagComparator? t opcode.toNat with
      | some (c, group) => decodeFlagBranch? c group rest
      | none => decodeCall? t opcode rest := by
  have h6 : 6 ≤ opcode.toNat := h
  have hw : wordComparator? opcode.toNat = none := by
    unfold wordComparator?
    split <;> first | omega | rfl
  have hf : ¬ opcode.toNat = Opcode.finish := by simp only [Opcode.finish]; omega
  have hj : ¬ opcode.toNat = Opcode.jump := by simp only [Opcode.jump]; omega
  rw [decode?, if_neg hf, if_neg hj, hw]

theorem flagComparator?_eq_none {opcode : Nat} (h : t.firstInstruction ≤ opcode) :
    flagComparator? t opcode = none := by
  have h1 := t.firstInstruction_eq
  have h2 := t.branchClear_eq
  rw [flagComparator?, if_neg (by omega), if_neg (by omega), if_neg (by omega)]

theorem flagComparator?_flagBranch {c : Comparator} (hc : c.kind = .flag) {group : Nat}
    (hg : group < t.groups) :
    flagComparator? t (Condition.flagBranch t c + group) = some (c, group) := by
  have h1 := t.firstInstruction_eq
  have h2 := t.branchClear_eq
  cases c with
  | isSet =>
    change flagComparator? t (t.branchSet + group) = _
    rw [flagComparator?, if_neg (by omega), if_pos (by omega), Nat.add_sub_cancel_left]
  | isClear =>
    change flagComparator? t (t.branchClear + group) = _
    rw [flagComparator?, if_neg (by omega), if_neg (by omega), if_pos (by omega),
      Nat.add_sub_cancel_left]
  | equal => exact absurd hc (by decide)
  | notEqual => exact absurd hc (by decide)
  | less => exact absurd hc (by decide)
  | greaterEqual => exact absurd hc (by decide)

theorem flagBranch_bounds (c : Comparator) :
    t.branchSet ≤ Condition.flagBranch t c ∧
      Condition.flagBranch t c + t.groups ≤ t.firstInstruction := by
  have h1 := t.firstInstruction_eq
  have h2 := t.branchClear_eq
  cases c with
  | isSet =>
    change t.branchSet ≤ t.branchSet ∧ t.branchSet + t.groups ≤ t.firstInstruction
    omega
  | _ =>
    change t.branchSet ≤ t.branchClear ∧ t.branchClear + t.groups ≤ t.firstInstruction
    omega

include ht

theorem decode?_flagBranch {c : Comparator} (hc : c.kind = .flag) {index target : Nat}
    (hi : index < flagGroupSize * t.groups) (h : target < 0x10000) (rest : Bytes) :
    decode? t (byte (Condition.flagBranch t c + index / flagGroupSize) :: byte index ::
      (word16 target ++ rest)) = some (.branch ⟨c, index, 0⟩ target) := by
  have hg : index / flagGroupSize < t.groups := Nat.div_lt_of_lt_mul hi
  have hb := flagBranch_bounds (t := t) c
  have hm : t.firstInstruction ≤ 128 := ht.firstInstruction_le
  have hop : (byte (Condition.flagBranch t c + index / flagGroupSize)).toNat =
      Condition.flagBranch t c + index / flagGroupSize := toNat_byte_of_lt (by omega)
  have hge : t.branchSet ≤ Condition.flagBranch t c + index / flagGroupSize :=
    Nat.le_trans hb.1 (Nat.le_add_right _ _)
  rw [decode?_of_ge (by rw [hop]; exact hge), hop, flagComparator?_flagBranch hc hg]
  change some (Op.branch ⟨c, flagGroupSize * (index / flagGroupSize) + (byte index).toNat, 0⟩
    (ofLittleEndian (word16 target))) = _
  rw [toNat_byte, ofLittleEndian_word16 h, show (256 : Nat) = flagGroupSize from rfl,
    Nat.div_add_mod]

omit ht in
theorem decode?_call {c : Call} (hf : (Op.call c).Fits t) (rest : Bytes) :
    decode? t (c.opcode :: (c.operands ++ rest)) = some (.call c) := by
  obtain ⟨hfirst, e, he, hlen⟩ := hf
  have h1 := t.firstInstruction_eq
  have h2 := t.branchClear_eq
  rw [decode?_of_ge (by omega), flagComparator?_eq_none hfirst]
  simp only [decodeCall?, he, Option.bind_some, ← hlen, List.length_append,
    Nat.le_add_right, if_true, List.take_left]

/-- An instruction whose numbers fit is read back, whatever follows it. -/
theorem decode?_encode {op : Op} (hf : op.Fits t) (rest : Bytes) :
    decode? t (op.encode t ++ rest) = some op := by
  cases op with
  | finish => exact decode?_finish rest
  | jump target => exact decode?_jumpTo hf rest
  | call c => exact decode?_call hf rest
  | branch test target =>
    obtain ⟨hfits, htarget⟩ := hf
    obtain ⟨c, index, value⟩ := test
    cases hc : c.kind with
    | flag =>
      simp only [Test.Fits, hc] at hfits
      obtain ⟨hi, rfl⟩ := hfits
      simp only [Op.encode, Test.encode, hc, List.cons_append, List.nil_append]
      exact decode?_flagBranch ht hc hi htarget rest
    | word =>
      simp only [Test.Fits, hc] at hfits
      simp only [Op.encode, Test.encode, hc, List.append_assoc, List.cons_append]
      exact decode?_wordBranch hc hfits.1 hfits.2 htarget rest

omit ht

theorem sweep_skip (offset : Nat) (skipped rest : Bytes) :
    sweep t offset skipped.length (skipped ++ rest) =
      sweep t (offset + skipped.length) 0 rest := by
  induction skipped generalizing offset with
  | nil => rfl
  | cons b bs ih =>
    rw [List.length_cons, List.cons_append, sweep, ih,
      show offset + 1 + bs.length = offset + (bs.length + 1) by omega]

/-- One instruction of a sweep. -/
theorem sweep_of_decode? {offset : Nat} {bytes rest : Bytes} {op : Op}
    (hd : decode? t (bytes ++ rest) = some op) (hlen : bytes.length = op.size) :
    sweep t offset 0 (bytes ++ rest) =
      (sweep t (offset + op.size) 0 rest).map (⟨offset, op⟩ :: ·) := by
  cases bytes with
  | nil => exact absurd op.size_pos (by rw [← hlen]; exact Nat.lt_irrefl 0)
  | cons b bs =>
    rw [List.cons_append] at hd ⊢
    rw [sweep, hd]
    simp only
    rw [← hlen, List.length_cons, Nat.add_sub_cancel, sweep_skip,
      show offset + 1 + bs.length = offset + (bs.length + 1) by omega]

include ht

/-- **The sweep finds what was assembled**, instruction by instruction. -/
theorem sweep_assemble {ops : List Op} (hf : ∀ op ∈ ops, op.Fits t) (offset : Nat)
    (rest : Bytes) :
    sweep t offset 0 (assemble t ops ++ rest) =
      (sweep t (offset + extent ops) 0 rest).map (locate offset ops ++ ·) := by
  induction ops generalizing offset with
  | nil => simp
  | cons op ops ih =>
    have hd := decode?_encode ht (hf op List.mem_cons_self) (assemble t ops ++ rest)
    rw [assemble_cons, List.append_assoc, sweep_of_decode? hd (Op.length_encode t op),
      ih (fun op' h' => hf op' (List.mem_cons_of_mem op h')), Option.map_map, extent_cons,
      Nat.add_assoc]
    rfl

theorem disassemble_assemble {ops : List Op} (hf : ∀ op ∈ ops, op.Fits t) :
    disassemble t (assemble t ops) = some (locate 0 ops) := by
  have h := sweep_assemble ht hf 0 []
  rw [List.append_nil] at h
  rw [disassemble, h, sweep, Option.map_some, List.append_nil]

end Reading

/-! ## Instruction by instruction -/

section Along

variable {α : Type} {t : InstructionTable} (f : Op → Bytes → List α)

/-- What a function makes of the instructions of a listing and of their bytes. -/
def along : List Listed → Bytes → List α
  | [], _ => []
  | l :: ls, code => f l.op (code.take l.op.size) ++ along ls (code.drop l.op.size)

variable (t) in
/-- What a function makes of a script that the sweep consumes. -/
def alongSweep? (code : Bytes) : Option (List α) :=
  (disassemble t code).map fun ls => along f ls code

theorem along_assemble (offset : Nat) (ops : List Op) :
    along f (locate offset ops) (assemble t ops) = ops.flatMap fun op => f op (op.encode t) := by
  induction ops generalizing offset with
  | nil => rfl
  | cons op ops ih =>
    have hlen : (op.encode t).length = op.size := op.length_encode t
    rw [locate_cons, assemble_cons, along, List.flatMap_cons, ← hlen, List.take_left,
      List.drop_left, ih]

theorem alongSweep?_assemble (ht : t.LaidOut) {ops : List Op} (hf : ∀ op ∈ ops, op.Fits t) :
    alongSweep? t f (assemble t ops) = some (ops.flatMap fun op => f op (op.encode t)) := by
  rw [alongSweep?, disassemble_assemble ht hf, Option.map_some, along_assemble]

end Along

end Cartridge.Script
