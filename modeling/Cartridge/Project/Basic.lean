import Cartridge.Instruction.Basic
import Cartridge.MemoryMap
import Cartridge.Resource.Entity
import Cartridge.Resource.Room

/-!
# Projects

Every resource of a project, in the order of declaration.
-/

namespace Cartridge

/-- Data that has been converted before: a palette or a tileset. -/
structure BinaryResource where
  name : String
  data : Bytes
deriving DecidableEq, Repr

/-- Tiles that start at the first byte of a bank. -/
structure TileData where
  bank : Nat
  data : Bytes
deriving DecidableEq, Repr

structure Project where
  memoryMap : Option MemoryMap
  constants : List (String × Int)
  instructions : List Instruction
  gameState : GameState
  structs : List EntityStruct
  functionTables : List FunctionTable
  exportOrders : List ExportOrder
  frameSets : List FrameSet
  entities : List Entry
  projectiles : List Entry
  players : List Entry
  palettes : List BinaryResource
  tilesets : List BinaryResource
  /-- Scenes are only named. -/
  scenes : List String
  rooms : List Room
  tileData : Option TileData

namespace Project

/-- How many resources of a kind a one-byte index can tell apart. -/
def maxListSize : Nat := 256

def map (p : Project) : MemoryMap := p.memoryMap.getD .standard

def entityNames (p : Project) : NameIndex := ⟨p.entities.map Entry.name⟩

def sceneNames (p : Project) : NameIndex := ⟨p.scenes⟩

def roomNames (p : Project) : List String := p.rooms.map Room.name

def directory (p : Project) : RoomDirectory :=
  ⟨p.rooms.map fun r => (r.name, r.entrances.map Entrance.name)⟩

end Project

end Cartridge
