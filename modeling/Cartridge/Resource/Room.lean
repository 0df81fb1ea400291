import Cartridge.Resource.NameIndex
import Cartridge.Script.Compile

/-!
# Rooms

The record of a room:

```text
width, height, scene: one byte each
eight running totals of the entities in the entity groups, one byte each
sixteen script triggers: left, top, right, bottom, script with the top bit set if it runs once
width * height tiles
the number of entrances, then for each entrance x and y in two bytes and the orientation
for each entity its index, x and y in two bytes, and the parameter
the number of scripts, the offset of each script in the script block in two bytes, bytecode
"ENDR"
```

Script 0 is the startup script.  A record always has its full size: what does not fit the limits is
reported, and what cannot be resolved is written as zero.
-/

namespace Cartridge

structure Entrance where
  name : String
  x : UInt16
  y : UInt16
  orientation : UInt8
deriving DecidableEq, Repr

structure PlacedEntity where
  entity : String
  x : UInt16
  y : UInt16
  parameter : UInt8
deriving DecidableEq, Repr

structure EntityGroup where
  name : String
  entities : List PlacedEntity
deriving DecidableEq, Repr

/-- A rectangle of tiles that starts a script; `right` and `bottom` are outside of it. -/
structure ScriptTrigger where
  script : String
  left : UInt8
  top : UInt8
  right : UInt8
  bottom : UInt8
  once : Bool
deriving DecidableEq, Repr

structure RoomScript where
  name : String
  nodes : List Script.Node

structure Room where
  name : String
  scene : String
  width : Nat
  height : Nat
  tiles : Bytes
  entrances : List Entrance
  entityGroups : List EntityGroup
  scriptTriggers : List ScriptTrigger
  temporaryFlags : List String
  temporaryWords : List String
  startupScript : List Script.Node
  scripts : List RoomScript

/-- What rooms refer to. -/
structure RoomContext where
  instructions : InstructionTable
  gameState : GameState
  scenes : NameIndex
  entities : NameIndex
  rooms : RoomDirectory

namespace Room

def maxScripts : Nat := 64

def maxTriggers : Nat := 16

def maxGroups : Nat := 8

def maxEntities : Nat := 64

def maxEntrances : Nat := 32

def maxSide : Nat := 255

/-- The pixels along the side of a tile. -/
def tileSize : Nat := 16

def maxScriptBlock : Nat := 0xFFFF

def startupName : String := "startup"

def endMarker : Bytes := [0x45, 0x4E, 0x44, 0x52]

/-- Why a room is in error. -/
inductive Problem where
  | side (which : String)
  | unknownScene (name : String)
  | invalidName (collection name : String)
  | duplicateName (collection name : String)
  | tooMany (collection : String) (max : Nat)
  | triggerRectangle
  | unknownScript (name : String)
  | tileCount (found expected width height : Nat)
  | entranceOutside (name : String)
  | entityOutside (name : String)
  | unknownEntity (name : String)
deriving DecidableEq, Repr

def Problem.message : Problem → String
  | side which => s!"map {which} must be between 1 and {maxSide}"
  | unknownScene name => s!"unknown scene: {name}"
  | invalidName collection name => s!"invalid {collection} name: {name}"
  | duplicateName collection name => s!"duplicate {collection} name: {name}"
  | tooMany collection max => s!"too many {collection} (maximum is {max})"
  | triggerRectangle => "script trigger must be a non-empty rectangle inside the map"
  | unknownScript name => s!"unknown room script: {name}"
  | tileCount found expected width height =>
    s!"map has {found} tiles, expected {expected} ({width}x{height})"
  | entranceOutside name => s!"entrance {name} is outside the map"
  | entityOutside name => s!"entity {name} is outside the map"
  | unknownEntity name => s!"unknown entity: {name}"

/-- A problem with the place where it was found. -/
abbrev Finding := Place × Problem

def foundAt (place : Place) (problems : List Problem) : List Finding := problems.map (place, ·)

/-- What is wrong with the names of a collection. -/
def nameFindings (collection : String) (names : List String) : List Finding :=
  names.zipIdx.flatMap fun (name, i) =>
    foundAt (.item i)
      ((if Text.isName name then [] else [.invalidName collection name]) ++
        if isRepeated names i name then [.duplicateName collection name] else [])

def countFindings (collection : String) (count max : Nat) : List Finding :=
  if count > max then [(.whole, .tooMany collection max)] else []

variable (ctx : RoomContext) (room : Room)

/-- The scripts with their names, the startup script first. -/
def allScripts : List RoomScript := ⟨startupName, room.startupScript⟩ :: room.scripts

def scriptNames : List String := room.allScripts.map RoomScript.name

def entities : List PlacedEntity := room.entityGroups.flatMap EntityGroup.entities

/-- The sides as they are written. -/
def writtenWidth : Nat := min room.width maxSide

def writtenHeight : Nat := min room.height maxSide

def tileCount : Nat := room.writtenWidth * room.writtenHeight

def containsPixel (x y : UInt16) : Bool :=
  x.toNat < room.width * tileSize && y.toNat < room.height * tileSize

/-! ### Header -/

/-- The entities in the first `i + 1` groups. -/
def runningTotal (i : Nat) : Nat :=
  total ((room.entityGroups.take (i + 1)).map fun g => g.entities.length)

def groupBytes : Bytes :=
  (List.range maxGroups).map fun i => byte (min (room.runningTotal i) 255)

def scriptIndex? (t : ScriptTrigger) : Option Nat :=
  room.scriptNames.findIdx? (· == t.script)

def triggerBytes (t : ScriptTrigger) : Bytes :=
  let script := byte ((room.scriptIndex? t).getD 0)
  [t.left, t.top, t.right, t.bottom, if t.once then script ||| 0x80 else script]

/-- An unused trigger holds no rectangle. -/
def unusedTrigger : Bytes := [0xFF, 0xFF, 0xFF, 0xFF, 0xFF]

def triggersBytes : Bytes :=
  (List.range maxTriggers).flatMap fun i =>
    match room.scriptTriggers[i]? with
    | some t => room.triggerBytes t
    | none => unusedTrigger

def header : Bytes :=
  [byte room.writtenWidth, byte room.writtenHeight, byte ((ctx.scenes.get? room.scene).getD 0)] ++
    room.groupBytes ++ room.triggersBytes

def sideFindings (which : String) (size : Nat) : List Finding :=
  if size = 0 ∨ size > maxSide then [(.whole, .side which)] else []

def triggerProblems (t : ScriptTrigger) : List Problem :=
  (if t.left ≥ t.right ∨ t.top ≥ t.bottom ∨ t.right.toNat > room.width ∨
      t.bottom.toNat > room.height then [.triggerRectangle] else []) ++
  if (room.scriptIndex? t).isSome then [] else [.unknownScript t.script]

def headerFindings : List Finding :=
  sideFindings "width" room.width ++
  sideFindings "height" room.height ++
  (if ctx.scenes.contains room.scene then [] else [(.whole, .unknownScene room.scene)]) ++
  nameFindings "entity group" (room.entityGroups.map EntityGroup.name) ++
  countFindings "entity groups" room.entityGroups.length maxGroups ++
  countFindings "script triggers" room.scriptTriggers.length maxTriggers ++
  (room.scriptTriggers.take maxTriggers).zipIdx.flatMap fun (t, i) =>
    foundAt (.item i) (room.triggerProblems t)

/-! ### Tiles, entrances and entities -/

/-- The tiles, cut or filled with zeros to the size of the map. -/
def mapBytes : Bytes :=
  room.tiles.take room.tileCount ++ List.replicate (room.tileCount - room.tiles.length) 0

def mapFindings : List Finding :=
  if room.tiles.length = room.tileCount then []
  else [(.whole, .tileCount room.tiles.length room.tileCount room.width room.height)]

def entranceBytes (e : Entrance) : Bytes := word16 e.x.toNat ++ word16 e.y.toNat ++ [e.orientation]

def entrancesBytes : Bytes :=
  byte (min room.entrances.length 255) :: room.entrances.flatMap entranceBytes

def entranceFindings : List Finding :=
  nameFindings "entrance" (room.entrances.map Entrance.name) ++
  countFindings "entrances" room.entrances.length maxEntrances ++
  room.entrances.zipIdx.flatMap fun (e, i) =>
    foundAt (.item i) (if room.containsPixel e.x e.y then [] else [.entranceOutside e.name])

def entityBytes (e : PlacedEntity) : Bytes :=
  [byte ((ctx.entities.get? e.entity).getD 0)] ++ word16 e.x.toNat ++ word16 e.y.toNat ++
    [e.parameter]

def entitiesBytes : Bytes := room.entities.flatMap (entityBytes ctx)

def entityProblems (e : PlacedEntity) : List Problem :=
  (if ctx.entities.contains e.entity then [] else [.unknownEntity e.entity]) ++
  if room.containsPixel e.x e.y then [] else [.entityOutside e.entity]

def entityFindings : List Finding :=
  countFindings "entities" room.entities.length maxEntities ++
  room.entities.zipIdx.flatMap fun (e, i) => foundAt (.item i) (room.entityProblems ctx e)

/-! ### Scripts -/

def scriptFindings : List Finding :=
  nameFindings "room script" room.scriptNames ++
  countFindings "room scripts" room.scriptNames.length maxScripts

def scriptContext (scope : Scope) : Script.Context :=
  ⟨ctx.instructions, scope, room.scriptNames, room.entityGroups.map EntityGroup.name,
    ctx.rooms⟩

/-- The offsets of pieces of code that follow each other from `start`. -/
def offsets (start : Nat) : List Bytes → List Nat
  | [] => []
  | code :: rest => start :: offsets (start + code.length) rest

/-- The script block of compiled scripts. -/
def scriptBlock (codes : List Bytes) : Bytes :=
  byte (min codes.length 255) ::
    ((offsets (1 + 2 * codes.length) codes).flatMap word16 ++ codes.flatten)

def compileScripts (scope : Scope) : Outcome (List Bytes) :=
  room.allScripts.mapM fun s =>
    Script.compile (room.scriptContext ctx scope) s!"{room.name}.{s.name}" s.nodes

def report (findings : List Finding) : Report :=
  findings.map fun (place, p) => ⟨.error, .room, room.name, place, p.message⟩

/-- The record of a room.  To run out of variables, and a script or script block that is too large,
is a failure. -/
def encode : Outcome Bytes := do
  let scope ← Scope.build ctx.gameState room.name room.temporaryFlags room.temporaryWords
  Noted.tell (room.report (room.headerFindings ctx ++ room.mapFindings ++ room.entranceFindings ++
    room.entityFindings ctx ++ room.scriptFindings))
  let codes ← room.compileScripts ctx scope
  let block := scriptBlock codes
  if block.length > maxScriptBlock then
    throw (.recordTooLarge .room room.name block.length maxScriptBlock)
  let record := room.header ctx ++ room.mapBytes ++ room.entrancesBytes ++
    room.entitiesBytes ctx ++ block ++ endMarker
  Noted.debug s!"room {room.name}: {record.length} bytes, {room.scriptNames.length} scripts"
  return record

end Room

end Cartridge
