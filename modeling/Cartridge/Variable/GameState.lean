import Cartridge.Noted
import Cartridge.Resource.NameIndex

/-!
# Global variables

The flags and words that a project declares.  A variable may belong to one room.
-/

namespace Cartridge

structure Variable where
  name : String
  /-- The only room that may use the variable. -/
  room : Option String
deriving DecidableEq, Repr

structure GameState where
  flags : List Variable
  words : List Variable
deriving Repr

namespace GameState

def empty : GameState := ⟨[], []⟩

def declared (state : GameState) : VariableKind → List Variable
  | .flag => state.flags
  | .word => state.words

/-- What is wrong with the variable at index `i`. -/
def problems (kind : VariableKind) (rooms names : List String) (i : Nat) (v : Variable) :
    Report :=
  let error (message : String) : Diagnostic :=
    ⟨.error, kind.resourceKind, v.name, .item i, message⟩
  (if Text.isName v.name then [] else [error s!"invalid {kind.label} name"]) ++
  (if isRepeated names i v.name then [error s!"duplicate {kind.label} name"] else []) ++
  match v.room with
  | none => []
  | some room => if rooms.contains room then [] else [error s!"unknown room: {room}"]

def review (kind : VariableKind) (rooms : List String) (vs : List Variable) : Report :=
  vs.zipIdx.flatMap fun (v, i) => problems kind rooms (vs.map Variable.name) i v

def checkKind (state : GameState) (rooms : List String) (kind : VariableKind) : Outcome Unit := do
  let vs := state.declared kind
  if vs.length > kind.capacity then
    throw (.tooManyGlobals kind vs.length kind.capacity)
  Noted.tell (review kind rooms vs)

/-- Reports bad names and owners that are not among `rooms`; to have more variables than a kind has
room for is a failure. -/
def check (state : GameState) (rooms : List String) : Outcome Unit := do
  state.checkKind rooms .flag
  state.checkKind rooms .word

end GameState

end Cartridge
