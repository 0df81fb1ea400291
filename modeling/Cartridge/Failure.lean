import Cartridge.Text.Numeral
import Cartridge.Variable.Kind

/-!
# Failures

The causes that stop a compilation.  Problems of single resources are diagnostics and are collected
instead; a run with errors among its diagnostics ends in `Failure.validation`.
-/

namespace Cartridge

/-- Why data cannot be placed in the image. -/
inductive PlacementError where
  | outOfSpace (size : Nat)
  | invalidBank (bank : Nat)
  | fixedPlacement (bank expected actual : Nat)
  | bankOverflow (bank size capacity : Nat)
deriving DecidableEq, Repr

def PlacementError.message : PlacementError → String
  | outOfSpace size =>
    s!"cannot fit {size} bytes of data in ROM, " ++
      "try increasing the number of banks in the memory map"
  | invalidBank bank => s!"bank {bank} is not in the memory map"
  | fixedPlacement bank expected actual =>
    s!"cannot place fixed data at ${Text.hexUpper 6 expected} in bank {bank}: " ++
      s!"next free address is ${Text.hexUpper 6 actual}"
  | bankOverflow bank size capacity =>
    s!"bank {bank} overflow: {size} bytes written, capacity is {capacity}"

/-- Why a memory map is refused. -/
inductive MapError where
  | noBanks
  | addressSpaceExceeded (count first : Nat)
  | other (text : String)
deriving DecidableEq, Repr

def MapError.message : MapError → String
  | noBanks => "bank count must be at least 1"
  | addressSpaceExceeded count first =>
    s!"{count} banks starting at ${Text.hexUpper 2 first} exceed the 24 bit address space"
  | other text => text

inductive Failure where
  | validation (report : Report)
  | memoryMap (cause : MapError)
  | tooManyOpcodes (required max : Nat)
  | tooManyVariables (room : String) (kind : VariableKind) (globals locals max : Nat)
  | tooManyGlobals (kind : VariableKind) (count max : Nat)
  | recordTooLarge (kind : ResourceKind) (name : String) (size max : Nat)
  | placement (cause : PlacementError)
  | io (text : String)
  | config (text : String)
deriving DecidableEq, Repr

def Failure.message : Failure → String
  | validation report => s!"compilation failed with {report.errorCount} error(s)"
  | memoryMap cause => s!"invalid memory map: {cause.message}"
  | tooManyOpcodes required max =>
    s!"too many instructions: {required} opcodes required, maximum is {max}"
  | tooManyVariables room kind globals locals max =>
    s!"too many {kind.label}s in room {room}: {globals} global + {locals} temporary exceeds {max}"
  | tooManyGlobals kind count max =>
    s!"too many global {kind.label}s: {count} declared, maximum is {max}"
  | recordTooLarge kind name size max =>
    s!"{kind.label} {name} is too large: {size} bytes (maximum {max})"
  | placement cause => cause.message
  | io text => s!"io error: {text}"
  | config text => s!"configuration error: {text}"

end Cartridge
