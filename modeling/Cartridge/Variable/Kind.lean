import Cartridge.Diagnostic

/-!
# Kinds of variables

Flags are single bits and words are sixteen bits wide.  Each kind has an index space of its own.
-/

namespace Cartridge

inductive VariableKind where
  | flag
  | word
deriving DecidableEq, Repr

namespace VariableKind

def label : VariableKind → String
  | flag => "flag"
  | word => "word"

def ofLabel? : String → Option VariableKind
  | "flag" => some flag
  | "word" => some word
  | _ => none

/-- How many variables of the kind one room can see. -/
def capacity : VariableKind → Nat
  | flag => 512
  | word => 128

def resourceKind : VariableKind → ResourceKind
  | flag => .flag
  | word => .word

end VariableKind

end Cartridge
