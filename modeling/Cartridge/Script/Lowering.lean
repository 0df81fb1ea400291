import Cartridge.Script.Context
import Cartridge.Script.Node
import Cartridge.Text.Numeral

/-!
# Bytecode of single nodes

Every argument of a statement and every operand of a condition stands for a number.  One that cannot
be resolved is a problem and is encoded as zero, so problems never change the size of the code.
-/

namespace Cartridge.Script

inductive Problem where
  | unknownInstruction (name : String)
  | argumentCount (instruction : String) (expected found : Nat)
  | unknownVariable (kind : VariableKind) (name : String)
  | foreignVariable (kind : VariableKind) (name owner : String)
  | unknownRoomScript (name : String)
  | unknownEntityGroup (name : String)
  | unknownRoom (name : String)
  | unknownEntrance (name room : String)
  | invalidNumber (text : String)
  | comparatorKind (comparator : Comparator) (kind : VariableKind)
  | missingValue (variableName : String)
deriving DecidableEq, Repr

def Problem.message : Problem → String
  | unknownInstruction name => s!"unknown instruction: {name}"
  | argumentCount instruction expected found =>
    s!"{instruction} expects {expected} argument(s), found {found}"
  | unknownVariable kind name => s!"unknown {kind.label}: {name}"
  | foreignVariable kind name owner =>
    s!"{kind.label} {name} is only accessible in room {owner}"
  | unknownRoomScript name => s!"unknown room script: {name}"
  | unknownEntityGroup name => s!"unknown entity group: {name}"
  | unknownRoom name => s!"unknown room: {name}"
  | unknownEntrance name room => s!"unknown room entrance: {name} in room {room}"
  | invalidNumber text => s!"invalid u16 value: {text}"
  | comparatorKind comparator kind =>
    s!"comparator '{comparator.label}' cannot be used with a {kind.label}"
  | missingValue variableName => s!"missing value to compare {variableName} with"

/-- A number, or the problem in its place. -/
abbrev Resolved := Except Problem Nat

namespace Resolved

/-- The number that is encoded. -/
def number : Resolved → Nat
  | .ok n => n
  | .error _ => 0

def problems : Resolved → List Problem
  | .ok _ => []
  | .error p => [p]

def ofOption (p : Problem) : Option Nat → Resolved
  | some n => .ok n
  | none => .error p

end Resolved

/-- A number from 0 to 65535. -/
def resolveNumber (text : String) : Resolved :=
  match Text.integer? text with
  | some n => if 0 ≤ n ∧ n ≤ 0xFFFF then .ok n.toNat else .error (.invalidNumber text)
  | none => .error (.invalidNumber text)

namespace Context

variable (ctx : Context)

def resolveVariable (kind : VariableKind) (name : String) : Resolved :=
  match ctx.scope.lookup kind name with
  | .ok n => .ok n
  | .error .unknown => .error (.unknownVariable kind name)
  | .error (.wrongRoom owner) => .error (.foreignVariable kind name owner)

/-- The number that an argument stands for.  Entrances are looked up in the room `target` that the
statement names; without one they stand for zero. -/
def resolve (target : Option String) (p : Parameter) (argument : String) : Resolved :=
  match p with
  | .unused => .ok 0
  | .flag => ctx.resolveVariable .flag argument
  | .word => ctx.resolveVariable .word argument
  | .immediate => resolveNumber argument
  | .roomScript =>
    .ofOption (.unknownRoomScript argument) (ctx.roomScripts.findIdx? (· == argument))
  | .entityGroup =>
    .ofOption (.unknownEntityGroup argument) (ctx.entityGroups.findIdx? (· == argument))
  | .room => .ofOption (.unknownRoom argument) (ctx.rooms.room? argument)
  | .roomEntrance =>
    match target with
    | none => .ok 0
    | some room => .ofOption (.unknownEntrance argument room) (ctx.rooms.entrance? room argument)

/-- A missing argument stands for zero. -/
def resolve? (target : Option String) (p : Parameter) : Option String → Resolved
  | none => .ok 0
  | some argument => ctx.resolve target p argument

/-- The room that the first argument names, if there is such a room. -/
def target (i : Instruction) (s : Statement) : Option String :=
  match i.first with
  | .room => s.arguments[0]?.filter fun room => (ctx.rooms.room? room).isSome
  | _ => none

def firstOperand (i : Instruction) (s : Statement) : Resolved :=
  ctx.resolve? none i.first s.arguments[0]?

def secondOperand (i : Instruction) (s : Statement) : Resolved :=
  ctx.resolve? (ctx.target i s) i.second s.arguments[1]?

end Context

/-- The flag group of an operand, which is added to the opcode. -/
def Parameter.group (p : Parameter) (n : Nat) : Nat :=
  match p with
  | .flag => n / flagGroupSize
  | _ => 0

def Parameter.encode (p : Parameter) (n : Nat) : Bytes :=
  match p with
  | .unused => []
  | .immediate => word16 n
  | _ => [byte n]

namespace Statement

variable (ctx : Context)

/-- An unknown instruction has no code. -/
def code (s : Statement) : Bytes :=
  match ctx.instructions.lookup? s.instruction with
  | none => []
  | some e =>
    let first := (ctx.firstOperand e.instruction s).number
    let second := (ctx.secondOperand e.instruction s).number
    let opcode :=
      e.opcode + Parameter.group e.instruction.first first +
        Parameter.group e.instruction.second second
    byte opcode :: (Parameter.encode e.instruction.first first ++
      Parameter.encode e.instruction.second second)

def problems (s : Statement) : List Problem :=
  match ctx.instructions.lookup? s.instruction with
  | none => [.unknownInstruction s.instruction]
  | some e =>
    let i := e.instruction
    (if s.arguments.length = i.arity then [] else
      [.argumentCount s.instruction i.arity s.arguments.length]) ++
    (ctx.firstOperand i s).problems ++ (ctx.secondOperand i s).problems

/-- Whether the statement runs an instruction that yields. -/
def yields (s : Statement) : Bool :=
  match ctx.instructions.lookup? s.instruction with
  | none => false
  | some e => e.instruction.yields

end Statement

namespace Condition

/-- The opcode of the branch that is taken when a comparison of words holds. -/
def wordBranch : Comparator → Nat
  | .equal => Opcode.wordEqual
  | .notEqual => Opcode.wordNotEqual
  | .less => Opcode.wordLess
  | _ => Opcode.wordGreaterEqual

/-- The first opcode of the branch that is taken when a test of a flag holds. -/
def flagBranch (t : InstructionTable) : Comparator → Nat
  | .isSet => t.branchSet
  | _ => t.branchClear

def valueOperand (c : Condition) : Resolved :=
  match c.value with
  | some text => resolveNumber text
  | none => .error (.missingValue c.variableName)

variable (ctx : Context)

def variableOperand (c : Condition) : Resolved := ctx.resolveVariable c.kind c.variableName

/-- The branch that leaves a block when the condition does not hold, without its target.  A
comparator of the wrong kind leaves a jump. -/
def code (c : Condition) : Bytes :=
  if c.comparator.accepts c.kind then
    let n := (c.variableOperand ctx).number
    match c.kind with
    | .flag =>
      [byte (flagBranch ctx.instructions c.comparator.negate + n / flagGroupSize), byte n]
    | .word => byte (wordBranch c.comparator.negate) :: byte n :: word16 c.valueOperand.number
  else [byte Opcode.jump]

def problems (c : Condition) : List Problem :=
  if c.comparator.accepts c.kind then
    match c.kind with
    | .flag => (c.variableOperand ctx).problems
    | .word => (c.variableOperand ctx).problems ++ c.valueOperand.problems
  else [.comparatorKind c.comparator c.kind]

end Condition

end Cartridge.Script
