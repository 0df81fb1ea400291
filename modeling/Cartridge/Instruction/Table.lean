import Cartridge.Instruction.Basic
import Cartridge.Noted
import Cartridge.Total

/-!
# The instruction table

Opcodes are laid out without gaps:

```text
0            end of script
1            jump
2 to 5       branch if a word is equal, not equal, less, greater or equal
6            branch if a flag is set, one opcode for each group of flags
6 + G        branch if a flag is clear, one opcode for each group of flags
6 + 2 G      instructions in the order of declaration, the base set first
```

`G` is the number of groups of 256 flags, at least one.  An instruction with a flag parameter takes
`G` opcodes, and every other one takes one.
-/

namespace Cartridge

def maxOpcodes : Nat := 128

def flagGroupSize : Nat := 256

namespace Opcode

def finish : Nat := 0

def jump : Nat := 1

def wordEqual : Nat := 2

def wordNotEqual : Nat := 3

def wordLess : Nat := 4

def wordGreaterEqual : Nat := 5

def firstFlagBranch : Nat := 6

end Opcode

/-- The number of flag groups for a number of flags. -/
def flagGroups (flags : Nat) : Nat := max 1 ((flags + (flagGroupSize - 1)) / flagGroupSize)

/-- The number of opcodes that an instruction takes. -/
def Instruction.width (groups : Nat) (i : Instruction) : Nat := if i.takesFlag then groups else 1

/-- An instruction with the first of its opcodes. -/
structure TableEntry where
  instruction : Instruction
  opcode : Nat
deriving DecidableEq, Repr

structure InstructionTable where
  groups : Nat
  entries : List TableEntry
deriving Repr

namespace InstructionTable

/-- The opcode behind the branches. -/
def firstOpcode (groups : Nat) : Nat := Opcode.firstFlagBranch + 2 * groups

/-- Gives opcodes to instructions, one range behind the other. -/
def layOut (groups opcode : Nat) : List Instruction → List TableEntry
  | [] => []
  | i :: is => ⟨i, opcode⟩ :: layOut groups (opcode + i.width groups) is

/-- The number of opcodes that a list of instructions takes, with the branches. -/
def required (groups : Nat) (instructions : List Instruction) : Nat :=
  firstOpcode groups + total (instructions.map (Instruction.width groups))

def branchSet (_ : InstructionTable) : Nat := Opcode.firstFlagBranch

def branchClear (t : InstructionTable) : Nat := Opcode.firstFlagBranch + t.groups

def firstInstruction (t : InstructionTable) : Nat := firstOpcode t.groups

def instructions (t : InstructionTable) : List Instruction := t.entries.map TableEntry.instruction

def opcodeCount (t : InstructionTable) : Nat := required t.groups t.instructions

def lookup? (t : InstructionTable) (name : String) : Option TableEntry :=
  t.entries.find? fun e => e.instruction.name == name

/-- The names in alphabetical order. -/
def names (t : InstructionTable) : List String :=
  (t.instructions.map Instruction.name).mergeSort fun a b => decide (a ≤ b)

/-- The names of the owners of the opcodes behind the branches, in the order of opcodes. -/
def opcodeNames (t : InstructionTable) : List String :=
  t.entries.flatMap fun e => List.replicate (e.instruction.width t.groups) e.instruction.name

/-- The name of the owner of an opcode; the end of a script, jumps and branches have none. -/
def nameAt? (t : InstructionTable) (opcode : Nat) : Option String :=
  if opcode < t.firstInstruction then none else t.opcodeNames[opcode - t.firstInstruction]?

/-- Whether a script may be suspended behind the instruction with an opcode. -/
def yieldsAt (t : InstructionTable) (opcode : Nat) : Bool :=
  ((t.nameAt? opcode).bind t.lookup?).any fun e => e.instruction.yields

/-! ### Building the table -/

/-- A declaration with its place among the declarations of the project. -/
structure Declared where
  place : Place
  instruction : Instruction
deriving DecidableEq, Repr

def declared (project : List Instruction) : List Declared :=
  Instruction.base.map (⟨.whole, ·⟩) ++ project.zipIdx.map fun (i, n) => ⟨.item n, i⟩

/-- What is wrong with a declaration that follows declarations with the names `seen`.  Of a repeated
name nothing else is said. -/
def problems (seen : List String) (i : Instruction) : List InstructionProblem :=
  if seen.contains i.name then [.duplicateName] else i.problems

/-- Every declaration with its problems. -/
def review (seen : List String) : List Declared → List (Declared × List InstructionProblem)
  | [] => []
  | d :: ds => (d, problems seen d.instruction) :: review (d.instruction.name :: seen) ds

/-- The instructions without problems. -/
def accepted (project : List Instruction) : List Instruction :=
  (review [] (declared project)).filterMap fun (d, ps) =>
    if ps.isEmpty then some d.instruction else none

def report (project : List Instruction) : Report :=
  (review [] (declared project)).flatMap fun (d, ps) =>
    ps.map fun p => ⟨.error, .instruction, d.instruction.name, d.place, p.message⟩

/-- Instructions with problems are reported and left out; to run out of opcodes is a failure. -/
def build (project : List Instruction) (flags : Nat) : Outcome InstructionTable := do
  let groups := flagGroups flags
  let instructions := accepted project
  let count := required groups instructions
  Noted.tell (report project)
  if count > maxOpcodes then throw (.tooManyOpcodes count maxOpcodes)
  Noted.info s!"instruction table: {instructions.length} instructions, {count} opcodes"
  return ⟨groups, layOut groups (firstOpcode groups) instructions⟩

end InstructionTable

end Cartridge
