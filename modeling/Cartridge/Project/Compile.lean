import Cartridge.Image.Writer
import Cartridge.Project.Basic

/-!
# Compiling a project

All resources are checked and encoded first.  Only when that leaves no error is data placed, in a
fixed order: tile data at the start of its bank, palettes, tilesets, frame sets, entities,
projectiles, players, rooms.
-/

namespace Cartridge

/-- The encoded resources of a project, each list in the order of declaration. -/
structure Encoding where
  instructions : InstructionTable
  entities : List Bytes
  projectiles : List Bytes
  players : List Bytes
  rooms : List Bytes
deriving Repr

structure Compiled where
  image : Image
  warnings : Report
deriving Repr

namespace Project

variable (p : Project)

/-- Bad names of the resources whose names are not reported elsewhere. -/
def nameReport : Report :=
  NameIndex.review .palette (p.palettes.map BinaryResource.name) ++
  NameIndex.review .tileset (p.tilesets.map BinaryResource.name) ++
  NameIndex.review .exportOrder (p.exportOrders.map ExportOrder.name) ++
  NameIndex.review .functionTable (p.functionTables.map FunctionTable.name) ++
  NameIndex.review .frameSet (p.frameSets.map FrameSet.name) ++
  NameIndex.review .scene p.scenes ++
  NameIndex.review .room p.roomNames

/-- The lists that are indexed by one byte, with their lengths. -/
def indexedLists : List (ResourceKind × Nat) :=
  [(.functionTable, p.functionTables.length),
    (.frameSet, p.frameSets.length),
    (.entity, p.entities.length),
    (.projectile, p.projectiles.length),
    (.player, p.players.length),
    (.palette, p.palettes.length),
    (.tileset, p.tilesets.length),
    (.scene, p.scenes.length),
    (.room, p.rooms.length)]

def sizeReport : Report :=
  p.indexedLists.filterMap fun (kind, size) =>
    if size > maxListSize then
      some ⟨.error, .project, "project", .whole,
        s!"too many {kind.label} resources: {size} (maximum is {maxListSize})"⟩
    else none

def roomContext (instructions : InstructionTable) : RoomContext :=
  ⟨instructions, p.gameState, p.sceneNames, p.entityNames, p.directory⟩

/-- The first declaration of every room. -/
def firstRooms : List Room :=
  p.rooms.zipIdx.filterMap fun (r, i) => if isRepeated p.roomNames i r.name then none else some r

def encodeRooms (instructions : InstructionTable) : Outcome (List Bytes) :=
  p.firstRooms.mapM (Room.encode (p.roomContext instructions))

/-- Checks and encodes every resource. -/
def encode : Outcome Encoding := do
  let instructions ← InstructionTable.build p.instructions VariableKind.flag.capacity
  Noted.info "validating resources"
  Noted.tell (p.nameReport ++ p.sizeReport)
  p.gameState.check p.roomNames
  let structs ← StructTable.resolve p.structs
  Noted.tell (FunctionTable.review p.functionTables structs p.exportOrders)
  Noted.tell (FrameSet.review p.frameSets p.exportOrders)
  let ctx : EntryContext := ⟨structs, p.functionTables, p.frameSets⟩
  let entities ← encodeEntries ctx .entity p.entities
  let projectiles ← encodeEntries ctx .projectile p.projectiles
  let players ← encodeEntries ctx .player p.players
  Noted.info (s!"encoded {entities.length} entities, {projectiles.length} projectiles, " ++
    s!"{players.length} players")
  let rooms ← p.encodeRooms instructions
  Noted.info s!"encoded {rooms.length} rooms"
  return ⟨instructions, entities, projectiles, players, rooms⟩

/-- What the writer is asked to do for an encoded project. -/
def requests (e : Encoding) : List Writer.Request :=
  p.constants.map (fun (name, value) => .constant name value) ++
  e.instructions.entries.map (fun entry =>
    .constant s!"Project.Bytecode.{entry.instruction.name}" entry.opcode) ++
  [.constant "Project.Bytecode.N_OPCODES" e.instructions.opcodeCount] ++
  (match p.tileData with
  | none => []
  | some tiles => [.fixed "Project.TileData" tiles.bank tiles.data]) ++
  [.table "Project.PaletteList" (p.palettes.map BinaryResource.data),
    .table "Project.MetaTileTilesetList" (p.tilesets.map BinaryResource.data),
    .table "Project.FrameSetList" (p.frameSets.map FrameSet.data),
    .table "Project.EntityList" e.entities,
    .table "Project.ProjectileList" e.projectiles,
    .table "Project.PlayerList" e.players,
    .table "Project.RoomList" e.rooms]

/-- Places an encoded project; `path` is the path of the image as the assembler sees it. -/
def place (e : Encoding) (path : String) : Outcome Image := do
  let (answer, w) := (Writer.new p.map).performAll (p.requests e)
  for event in w.events.reverse do
    Noted.debug event.message
  match answer with
  | .error cause => throw (.placement cause)
  | .ok () =>
    match w.finish path with
    | .error cause => throw (.placement cause)
    | .ok image => return image

/-- The image of a project and the warnings about it, or the failure that stopped it. -/
def compile (path : String) : Outcome Compiled := do
  match p.map.check with
  | .error cause => throw (.memoryMap cause)
  | .ok () => pure ()
  Noted.info (s!"memory map: {p.map.mode.label}, {p.map.bankCount} banks from " ++
    s!"${Text.hexUpper 2 p.map.firstBank.toNat}")
  let encoding := p.encode
  let report := encoding.report
  let encoded ← encoding
  if report.hasErrors then
    Noted.info s!"compilation failed with {report.errorCount} error(s)"
    throw (.validation report)
  Noted.info "placing data"
  let image ← p.place encoded path
  Noted.info s!"rom data: {image.binary.length} bytes"
  for warning in report.warnings do
    Noted.logged .warn warning.text
  return ⟨image, report.warnings⟩

end Project

end Cartridge
