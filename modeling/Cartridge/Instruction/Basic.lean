import Cartridge.Bytes
import Cartridge.Diagnostic
import Cartridge.Text.Name

/-!
# Instructions

An instruction has a name, up to two parameters, and may yield: the script that runs it may be
suspended behind it.  `Instruction.problems` holds the rules for a single declaration, and `base` the
instructions that every project has.
-/

namespace Cartridge

inductive Parameter where
  | unused
  | flag
  | word
  | immediate
  | roomScript
  | entityGroup
  | room
  | roomEntrance
deriving DecidableEq, Repr

namespace Parameter

def all : List Parameter :=
  [unused, flag, word, immediate, roomScript, entityGroup, room, roomEntrance]

def label : Parameter → String
  | unused => "unused"
  | flag => "flag"
  | word => "word"
  | immediate => "u16"
  | roomScript => "room script"
  | entityGroup => "entity group"
  | room => "room"
  | roomEntrance => "room entrance"

/-- The name in project files. -/
def key : Parameter → String
  | roomScript => "room_script"
  | entityGroup => "entity_group"
  | roomEntrance => "room_entrance"
  | p => p.label

def ofKey? (key : String) : Option Parameter := all.find? fun p => p.key == key

/-- The size of an operand in bytes. -/
def size : Parameter → Nat
  | unused => 0
  | immediate => 2
  | flag | word | roomScript | entityGroup | room | roomEntrance => 1

def isUsed (p : Parameter) : Bool := p != unused

theorem mem_all (p : Parameter) : p ∈ all := by
  cases p <;> decide

end Parameter

structure Instruction where
  name : String
  first : Parameter
  second : Parameter
  yields : Bool
deriving DecidableEq, Repr

inductive InstructionProblem where
  | duplicateName
  | invalidName
  | twoFlags
  | flagYields
  | gap
  | strayEntrance
deriving DecidableEq, Repr

def InstructionProblem.message : InstructionProblem → String
  | duplicateName => "duplicate instruction name"
  | invalidName => "invalid instruction name"
  | twoFlags => "an instruction can only have one flag argument"
  | flagYields => "an instruction with a flag argument cannot yield"
  | gap => "the first argument is unused but the second is not"
  | strayEntrance => "a room entrance argument must follow a room argument"

namespace Instruction

def parameters (i : Instruction) : List Parameter := [i.first, i.second]

/-- The number of arguments that a statement has to give. -/
def arity (i : Instruction) : Nat := i.parameters.countP Parameter.isUsed

/-- The encoded size in bytes, with the opcode. -/
def size (i : Instruction) : Nat := 1 + (i.first.size + i.second.size)

def flagCount (i : Instruction) : Nat := i.parameters.count .flag

def takesFlag (i : Instruction) : Bool := i.parameters.contains .flag

/-- The rule that the order of the parameters breaks. -/
def orderProblem? (i : Instruction) : Option InstructionProblem :=
  if i.first = .unused ∧ i.second ≠ .unused then some .gap
  else if i.first = .roomEntrance ∨ (i.second = .roomEntrance ∧ i.first ≠ .room) then
    some .strayEntrance
  else none

def problems (i : Instruction) : List InstructionProblem :=
  (if Text.isName i.name then [] else [.invalidName]) ++
  (if i.flagCount > 1 then [.twoFlags] else []) ++
  (if i.flagCount > 0 ∧ i.yields then [.flagYields] else []) ++
  i.orderProblem?.toList

/-- The instructions of every project. -/
def base : List Instruction :=
  [⟨"set_flag", .flag, .unused, false⟩,
    ⟨"clear_flag", .flag, .unused, false⟩,
    ⟨"set_word", .word, .immediate, false⟩,
    ⟨"add_to_word", .word, .immediate, false⟩,
    ⟨"subtract_from_word", .word, .immediate, false⟩,
    ⟨"increment_word", .word, .unused, false⟩,
    ⟨"decrement_word", .word, .unused, false⟩,
    ⟨"start_script", .roomScript, .unused, false⟩,
    ⟨"spawn_entity_group", .entityGroup, .unused, false⟩,
    ⟨"load_room", .room, .roomEntrance, true⟩,
    ⟨"sleep_frames", .immediate, .unused, true⟩]

end Instruction

end Cartridge
