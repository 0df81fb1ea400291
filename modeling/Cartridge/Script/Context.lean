import Cartridge.Instruction.Table
import Cartridge.Variable.Scope

/-!
# What scripts refer to

The rooms of a project with their entrances, and the tables that a script of one room is compiled
against.
-/

namespace Cartridge

/-- The names of the rooms with the names of their entrances, in the order of declaration.  A name
stands for its first declaration. -/
structure RoomDirectory where
  rooms : List (String × List String)
deriving Repr

namespace RoomDirectory

def room? (d : RoomDirectory) (room : String) : Option Nat :=
  d.rooms.findIdx? fun r => r.1 == room

def entrance? (d : RoomDirectory) (room entrance : String) : Option Nat :=
  (d.rooms.find? fun r => r.1 == room).bind fun r => r.2.findIdx? (· == entrance)

end RoomDirectory

namespace Script

structure Context where
  instructions : InstructionTable
  scope : Scope
  /-- The scripts of the room, in the order of their indexes. -/
  roomScripts : List String
  entityGroups : List String
  rooms : RoomDirectory

end Script

end Cartridge
