import Cartridge.Document.Decode
import Cartridge.Project.Basic
import Cartridge.Script.Source

/-!
# Reading a project from a document

One decoder for each type of resource.  Only the names of resources and what has no sensible default
are required.
-/

namespace Cartridge

open Document Document.Decode

def MemoryMap.decode : Decoder MemoryMap :=
  record (MemoryMap.mk <$> required "mode" (choice MappingMode.ofKey?) <*>
    required "first_bank" uint8 <*> required "bank_count" size)

/-- A configuration file holds a memory map. -/
def MemoryMap.decodeConfiguration : Decoder MemoryMap :=
  record (required "memory_map" MemoryMap.decode)

/-- An instruction has at most two parameters. -/
def Instruction.ofParameters (name : String) (yields : Bool) :
    List Parameter → Decoded Instruction
  | [] => .ok ⟨name, .unused, .unused, yields⟩
  | [first] => .ok ⟨name, first, .unused, yields⟩
  | [first, second] => .ok ⟨name, first, second, yields⟩
  | parameters =>
    .error (.refused s!"instruction {name} has {parameters.length} arguments, maximum is 2")

def Instruction.decode : Decoder Instruction := fun v => do
  let (name, parameters, yields) ← record ((·, ·, ·) <$> required "name" text <*>
    withDefault "arguments" [] (list (choice Parameter.ofKey?)) <*>
    withDefault "yields" false boolean) v
  Instruction.ofParameters name yields parameters

def Variable.decode : Decoder Variable :=
  record (Variable.mk <$> required "name" text <*> withDefault "room" none (optional text))

def GameState.decode : Decoder GameState :=
  record (GameState.mk <$> withDefault "flags" [] (list Variable.decode) <*>
    withDefault "words" [] (list Variable.decode))

def StructField.decode : Decoder StructField :=
  record (StructField.mk <$> required "name" text <*>
    required "type" (choice FieldType.ofLabel?) <*> withDefault "default" none (optional text))

def EntityStruct.decode : Decoder EntityStruct :=
  record (EntityStruct.mk <$> required "name" text <*>
    withDefault "parent" none (optional text) <*>
    withDefault "fields" [] (list StructField.decode))

def FunctionTable.decode : Decoder FunctionTable :=
  record (FunctionTable.mk <$> required "name" text <*>
    withDefault "entity_struct" none (optional text) <*> required "export_order" text)

def ExportOrder.decode : Decoder ExportOrder :=
  record (ExportOrder.mk <$> required "name" text <*> withDefault "frames" [] (list text))

def FrameSet.decode : Decoder FrameSet :=
  record (FrameSet.mk <$> required "name" text <*> required "export_order" text <*>
    withDefault "frames" [] (list text) <*> withDefault "palette_count" 1 uint8 <*>
    withDefault "data" [] (list uint8))

def FieldValue.decode : Decoder FieldValue
  | .text s => pure (.text s)
  | v => do return .integer (← int64 v)

def Entry.decode : Decoder Entry :=
  record (Entry.mk <$> required "name" text <*> required "function_table" text <*>
    required "frame_set" text <*> withDefault "default_palette" 0 uint8 <*>
    required "display_frame" text <*> withDefault "fields" [] (entries FieldValue.decode))

def BinaryResource.decode : Decoder BinaryResource :=
  record (BinaryResource.mk <$> required "name" text <*> withDefault "data" [] (list uint8))

def TileData.decode : Decoder TileData :=
  record (TileData.mk <$> withDefault "bank" 0 size <*> required "data" (list uint8))

/-- Script text is read into its tree. -/
def decodeScript : Decoder (List Script.Node) := fun v => do
  let source := (← text v).toList
  match Script.ofText? source with
  | .ok nodes => return nodes
  | .error e => throw (.refused (e.message source))

def Entrance.decode : Decoder Entrance :=
  record (Entrance.mk <$> required "name" text <*> required "x" uint16 <*> required "y" uint16 <*>
    withDefault "orientation" 0 uint8)

def PlacedEntity.decode : Decoder PlacedEntity :=
  record (PlacedEntity.mk <$> required "entity" text <*> required "x" uint16 <*>
    required "y" uint16 <*> withDefault "parameter" 0 uint8)

def EntityGroup.decode : Decoder EntityGroup :=
  record (EntityGroup.mk <$> required "name" text <*>
    withDefault "entities" [] (list PlacedEntity.decode))

def ScriptTrigger.decode : Decoder ScriptTrigger :=
  record (ScriptTrigger.mk <$> required "script" text <*> required "left" uint8 <*>
    required "top" uint8 <*> required "right" uint8 <*> required "bottom" uint8 <*>
    withDefault "once" false boolean)

def RoomScript.decode : Decoder RoomScript :=
  record (RoomScript.mk <$> required "name" text <*> required "script" decodeScript)

def Room.decode : Decoder Room :=
  record (Room.mk <$> required "name" text <*> required "scene" text <*> required "width" size <*>
    required "height" size <*> withDefault "tiles" [] (list uint8) <*>
    withDefault "entrances" [] (list Entrance.decode) <*>
    withDefault "entity_groups" [] (list EntityGroup.decode) <*>
    withDefault "script_triggers" [] (list ScriptTrigger.decode) <*>
    withDefault "temp_flags" [] (list text) <*> withDefault "temp_words" [] (list text) <*>
    withDefault "startup_script" [] decodeScript <*>
    withDefault "scripts" [] (list RoomScript.decode))

def decodeScene : Decoder String := record (required "name" text)

def Project.decode : Decoder Project :=
  record (Project.mk <$> withDefault "memory_map" none (optional MemoryMap.decode) <*>
    withDefault "constants" [] (entries int64) <*>
    withDefault "instructions" [] (list Instruction.decode) <*>
    withDefault "game_state" .empty GameState.decode <*>
    withDefault "structs" [] (list EntityStruct.decode) <*>
    withDefault "function_tables" [] (list FunctionTable.decode) <*>
    withDefault "export_orders" [] (list ExportOrder.decode) <*>
    withDefault "frame_sets" [] (list FrameSet.decode) <*>
    withDefault "entities" [] (list Entry.decode) <*>
    withDefault "projectiles" [] (list Entry.decode) <*>
    withDefault "players" [] (list Entry.decode) <*>
    withDefault "palettes" [] (list BinaryResource.decode) <*>
    withDefault "metatile_tilesets" [] (list BinaryResource.decode) <*>
    withDefault "scenes" [] (list decodeScene) <*> withDefault "rooms" [] (list Room.decode) <*>
    withDefault "tile_data" none (optional TileData.decode))

end Cartridge
