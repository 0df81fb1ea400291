import Cartridge.Proofs.Resource.RoomRecord
import Cartridge.Proofs.Script.Listing

/-!
# Rooms read back from their records

`RoomRecord.decode?` reads a record by the documented layout alone.  From the record of a room that
is encoded without an error it recovers the room (`Room.Recovers`): the sides, the scene, the
entities of every group, the triggers, the tiles, the entrances and the code of every script.

Main statement: `encode_roundTrip`, which also says how long every record is and when a room has
none.
-/

namespace Cartridge

/-! ## What a record says -/

namespace RoomRecord

/-- A trigger that is used, with the index of its script. -/
structure TriggerEntry where
  left : UInt8
  top : UInt8
  right : UInt8
  bottom : UInt8
  script : Nat
  once : Bool
deriving DecidableEq, Repr

structure EntranceEntry where
  x : Nat
  y : Nat
  orientation : UInt8
deriving DecidableEq, Repr

structure EntityEntry where
  index : Nat
  x : Nat
  y : Nat
  parameter : UInt8
deriving DecidableEq, Repr

structure Contents where
  width : Nat
  height : Nat
  scene : Nat
  groups : List (List EntityEntry)
  triggers : List TriggerEntry
  tiles : Bytes
  entrances : List EntranceEntry
  /-- Where the scripts start in the script block. -/
  scriptOffsets : List Nat
  scripts : List Bytes
deriving DecidableEq, Repr

/-- An unused trigger is no entry. -/
def readTrigger? : Bytes → Option TriggerEntry
  | [left, top, right, bottom, script] =>
    if [left, top, right, bottom, script] = Room.unusedTrigger then none
    else some ⟨left, top, right, bottom, script.toNat % 128, decide (128 ≤ script.toNat)⟩
  | _ => none

def readEntrance? : Bytes → Option EntranceEntry
  | [x₀, x₁, y₀, y₁, orientation] =>
    some ⟨ofLittleEndian [x₀, x₁], ofLittleEndian [y₀, y₁], orientation⟩
  | _ => none

def readEntity? : Bytes → Option EntityEntry
  | [index, x₀, x₁, y₀, y₁, parameter] =>
    some ⟨index.toNat, ofLittleEndian [x₀, x₁], ofLittleEndian [y₀, y₁], parameter⟩
  | _ => none

variable (record : Bytes)

/-- `count` pieces of equal width that follow each other from a position. -/
def pieces (start width count : Nat) : List Bytes :=
  (List.range count).map fun i => (record.drop (start + width * i)).take width

/-- The entities in the groups before group `i`, by the running totals. -/
def groupStart : Nat → Nat
  | 0 => 0
  | i + 1 => byteAt record (3 + i)

def groupStop (i : Nat) : Nat := byteAt record (3 + i)

/-- What the record says, if it ends with the mark. -/
def decode? : Option Contents := do
  let entrances ← (pieces record (entrancesStart record + 1) 5
    (byteAt record (entrancesStart record))).mapM readEntrance?
  let entities ← (pieces record (entitiesStart record) 6 (byteAt record 10)).mapM readEntity?
  if record.drop (record.length - 4) = Room.endMarker then
    some {
      width := byteAt record 0
      height := byteAt record 1
      scene := byteAt record 2
      groups := (List.range 8).map fun i =>
        (entities.take (groupStop record i)).drop (groupStart record i)
      triggers := (pieces record 11 5 16).filterMap readTrigger?
      tiles := (record.drop 91).take (byteAt record 0 * byteAt record 1)
      entrances := entrances
      scriptOffsets := (List.range (scriptCount record)).map (scriptOffset record)
      scripts := (List.range (scriptCount record)).map (scriptCode record) }
  else none

section Pieces

variable {record} {α β : Type} {f : α → Bytes} {xs : List α}

/-- Pieces that have been written one behind the other are found again. -/
theorem pieces_eq {width : Nat} (hw : ∀ x, (f x).length = width) {front rest : Bytes}
    (h : record = front ++ xs.flatMap f ++ rest) :
    pieces record front.length width xs.length = xs.map f := by
  refine map_range_eq (List.length_map f) fun i piece hi => ?_
  rw [List.getElem?_map] at hi
  obtain ⟨x, hx, rfl⟩ := Option.map_eq_some_iff.mp hi
  obtain ⟨before, after, heq, hlen⟩ := exists_flatMap_eq hw hx
  have hrecord : record = (front ++ before) ++ (f x ++ (after ++ rest)) := by
    rw [h, heq]
    simp only [List.append_assoc]
  have hfront : front.length + width * i = (front ++ before).length := by
    rw [List.length_append, hlen]
  rw [hfront, drop_of_eq_append hrecord, List.take_left' (hw x)]

theorem mapM_map_eq_some {g : Bytes → Option β} {k : α → β} (h : ∀ x, g (f x) = some (k x)) :
    (xs.map f).mapM g = some (xs.map k) := by
  induction xs with
  | nil => rfl
  | cons x xs ih =>
    rw [List.map_cons, List.mapM_cons, h, ih]
    rfl

end Pieces

end RoomRecord

namespace Room

open RoomRecord

/-! ## Rooms that are encoded without an error -/

section Recovery

variable {ctx : RoomContext} {room : Room} {scope : Scope} {codes : List Bytes} {record : Bytes}

/-- The entry of an entity. -/
def entityEntry (ctx : RoomContext) (e : PlacedEntity) : EntityEntry :=
  ⟨(byte ((ctx.entities.get? e.entity).getD 0)).toNat, e.x.toNat, e.y.toNat, e.parameter⟩

def entranceEntry (e : Entrance) : EntranceEntry := ⟨e.x.toNat, e.y.toNat, e.orientation⟩

/-- The entities of group `i`; a group that the room does not have is empty. -/
def groupEntities (room : Room) (i : Nat) : List PlacedEntity :=
  ((room.entityGroups[i]?).map EntityGroup.entities).getD []

/-- The entry names the entity by its index. -/
def PlacedAs (ctx : RoomContext) (e : PlacedEntity) (entry : EntityEntry) : Prop :=
  ctx.entities.get? e.entity = some entry.index ∧ entry.x = e.x.toNat ∧ entry.y = e.y.toNat ∧
    entry.parameter = e.parameter

/-- The entry has the rectangle of the trigger, and names its script by the index. -/
def TriggeredAs (room : Room) (t : ScriptTrigger) (entry : TriggerEntry) : Prop :=
  entry.left = t.left ∧ entry.top = t.top ∧ entry.right = t.right ∧ entry.bottom = t.bottom ∧
    room.scriptIndex? t = some entry.script ∧ entry.once = t.once

/-- The room is what the contents of a record say. -/
structure Recovers (ctx : RoomContext) (room : Room) (scope : Scope) (c : Contents) : Prop where
  width_eq : c.width = room.width
  height_eq : c.height = room.height
  scene : ctx.scenes.get? room.scene = some c.scene
  groupCount_le : room.entityGroups.length ≤ 8
  groups : List.Forall₂ (List.Forall₂ (PlacedAs ctx)) ((List.range 8).map room.groupEntities)
    c.groups
  triggers : List.Forall₂ room.TriggeredAs room.scriptTriggers c.triggers
  triggerBytes_ne : ∀ t ∈ room.scriptTriggers, room.triggerBytes t ≠ unusedTrigger
  tiles_eq : c.tiles = room.tiles
  entrances_eq : c.entrances = room.entrances.map entranceEntry
  /-- Every script has the bytes that it is compiled to. -/
  scripts : List.Forall₂ (fun s code => (Script.compile (room.scriptContext ctx scope)
    s!"{room.name}.{s.name}" s.nodes).result = .ok code) room.allScripts c.scripts
  /-- The scripts follow each other behind the table of their offsets. -/
  scriptOffsets_eq : c.scriptOffsets = offsets (1 + 2 * c.scripts.length) c.scripts

/-- A trigger that is accepted is a rectangle, so its bytes are not those of an unused one. -/
theorem triggerBytes_ne_unusedTrigger {t : ScriptTrigger} (h : room.Triggers t) :
    room.triggerBytes t ≠ unusedTrigger := by
  intro hc
  simp only [triggerBytes, unusedTrigger, List.cons.injEq] at hc
  obtain ⟨hleft, -, hright, -⟩ := hc
  have hcolumns := h.columns.1
  rw [hleft, hright] at hcolumns
  exact absurd hcolumns (Nat.lt_irrefl _)

/-! ### Parts of the room -/

/-- The entities of the first `n` groups. -/
def groupsBefore (room : Room) (n : Nat) : List PlacedEntity :=
  (room.entityGroups.take n).flatMap EntityGroup.entities

theorem isPrefix_groupsBefore (n : Nat) : room.groupsBefore n <+: room.entities := by
  refine ⟨(room.entityGroups.drop n).flatMap EntityGroup.entities, ?_⟩
  rw [groupsBefore, ← List.flatMap_append, List.take_append_drop, entities]

theorem groupsBefore_succ (n : Nat) :
    room.groupsBefore (n + 1) = room.groupsBefore n ++ room.groupEntities n := by
  rw [groupsBefore, groupsBefore, List.take_add_one, List.flatMap_append, groupEntities]
  cases room.entityGroups[n]? with
  | none => rfl
  | some g =>
    show _ ++ (g.entities ++ []) = _
    rw [List.append_nil]
    rfl

theorem mem_entities_of_mem_groupEntities {i : Nat} {e : PlacedEntity}
    (he : e ∈ room.groupEntities i) : e ∈ room.entities := by
  refine (isPrefix_groupsBefore (i + 1)).subset ?_
  rw [groupsBefore_succ]
  exact List.mem_append_right _ he

theorem map_triggerSlot (hle : room.scriptTriggers.length ≤ maxTriggers) :
    (List.range maxTriggers).map room.triggerSlot = room.scriptTriggers.map room.triggerBytes ++
      List.replicate (maxTriggers - room.scriptTriggers.length) unusedTrigger := by
  have hlen : (room.scriptTriggers.map room.triggerBytes ++ List.replicate
      (maxTriggers - room.scriptTriggers.length) unusedTrigger).length = maxTriggers := by
    rw [List.length_append, List.length_map, List.length_replicate]
    omega
  refine map_range_eq hlen fun i slot hi => ?_
  by_cases hused : i < room.scriptTriggers.length
  · have ht := List.getElem?_eq_getElem hused
    rw [List.getElem?_append_left (by rw [List.length_map]; exact hused), List.getElem?_map, ht,
      Option.map_some] at hi
    rw [triggerSlot, ht]
    exact Option.some.inj hi
  · have hnone := List.getElem?_eq_none (Nat.le_of_not_lt hused)
    rw [List.getElem?_append_right (by rw [List.length_map]; omega)] at hi
    rw [triggerSlot, hnone]
    exact (List.eq_of_mem_replicate (List.mem_of_getElem? hi)).symm

/-- The tiles are as many as the sides say. -/
theorem mapBytes_eq_tiles (h : room.tiles.length = room.tileCount) :
    room.mapBytes = room.tiles := by
  rw [mapBytes, ← h, List.take_length, Nat.sub_self]
  exact List.append_nil _

theorem readTrigger?_triggerBytes {t : ScriptTrigger} {k : Nat}
    (hne : room.triggerBytes t ≠ unusedTrigger) (hk : room.scriptIndex? t = some k)
    (hlt : k < 128) : readTrigger? (room.triggerBytes t) =
      some ⟨t.left, t.top, t.right, t.bottom, k, t.once⟩ := by
  obtain ⟨hlow, htop⟩ := triggerScript_eq hlt t.once
  have honce : decide (128 ≤ (if t.once then byte k ||| 0x80 else byte k).toNat) = t.once := by
    rw [Bool.eq_iff_iff, decide_eq_true_iff]
    exact htop
  rw [triggerBytes, hk, Option.getD_some] at hne ⊢
  rw [readTrigger?, if_neg hne, hlow, honce]

theorem readEntrance?_entranceBytes (e : Entrance) :
    readEntrance? (entranceBytes e) = some (entranceEntry e) := by
  have hx := ofLittleEndian_word16 e.x.toNat_lt
  have hy := ofLittleEndian_word16 e.y.toNat_lt
  rw [entranceEntry, ← hx, ← hy]
  rfl

theorem readEntity?_entityBytes (e : PlacedEntity) :
    readEntity? (entityBytes ctx e) = some (entityEntry ctx e) := by
  have hx := ofLittleEndian_word16 e.x.toNat_lt
  have hy := ofLittleEndian_word16 e.y.toNat_lt
  rw [entityEntry, ← hx, ← hy]
  rfl

/-! ### The header -/

variable (h : Encoded ctx room scope codes record)
include h

/-- The sides are not cut. -/
theorem Encoded.sides_eq : byteAt record 0 = room.width ∧ byteAt record 1 = room.height := by
  exact ⟨h.byteAt_width.trans (Nat.min_eq_left h.lawful.width.2),
    h.byteAt_height.trans (Nat.min_eq_left h.lawful.height.2)⟩

/-- The scene is found if its index fits into one byte. -/
theorem Encoded.get?_scene (hscene : ∀ i, ctx.scenes.get? room.scene = some i → i < 256) :
    ctx.scenes.get? room.scene = some (byteAt record 2) := by
  obtain ⟨i, hi⟩ := exists_findIdx?_of_mem h.lawful.scene
  have hget : ctx.scenes.get? room.scene = some i := hi
  have hbyte : byteAt record 2 = (byte ((ctx.scenes.get? room.scene).getD 0)).toNat := by
    rw [h.record_eq]
    rfl
  rw [hbyte, hget, Option.getD_some, toNat_byte_of_lt (hscene i hget)]

theorem Encoded.runningTotal_le (i : Nat) : room.runningTotal i ≤ maxEntities := by
  have hle := h.lawful.entities_le
  have hsplit : (room.groupsBefore (i + 1)).length ≤ room.entities.length :=
    (isPrefix_groupsBefore (i + 1)).length_le
  rw [runningTotal_eq_length]
  exact Nat.le_trans hsplit hle

/-- A group ends where its running total says. -/
theorem Encoded.groupStop_eq {i : Nat} (hi : i < maxGroups) :
    groupStop record i = (room.groupsBefore (i + 1)).length := by
  have hle := h.runningTotal_le i
  have hmax : maxEntities = 64 := rfl
  have hlt : i < room.groupBytes.length := by
    rw [length_groupBytes]
    exact hi
  have hpieces : record = [byte room.writtenWidth, byte room.writtenHeight,
      byte ((ctx.scenes.get? room.scene).getD 0)] ++ room.groupBytes ++
      (room.triggersBytes ++ room.mapBytes ++ room.entrancesBytes ++ room.entitiesBytes ctx ++
        scriptBlock codes ++ endMarker) := by
    rw [h.record_eq, Room.header]
    simp only [List.append_assoc]
  have hget : record[3 + i]? = room.groupBytes[i]? := by
    rw [hpieces]
    exact getElem?_append_piece _ hlt
  have hbyte : groupStop record i = (byte (min (room.runningTotal i) 255)).toNat := by
    rw [groupStop, byteAt, hget, groupBytes, List.getElem?_map, List.getElem?_range hi]
    rfl
  rw [hbyte, toNat_byte_of_lt (by omega), Nat.min_eq_left (by omega), runningTotal_eq_length]
  rfl

theorem Encoded.groupStart_eq {i : Nat} (hi : i < maxGroups) :
    groupStart record i = (room.groupsBefore i).length := by
  cases i with
  | zero => rfl
  | succ i => exact h.groupStop_eq (Nat.lt_of_succ_lt hi)

theorem Encoded.triggerPieces_eq : pieces record 11 5 16 =
    room.scriptTriggers.map room.triggerBytes ++
      List.replicate (16 - room.scriptTriggers.length) unusedTrigger := by
  have hpieces : record = ([byte room.writtenWidth, byte room.writtenHeight,
      byte ((ctx.scenes.get? room.scene).getD 0)] ++ room.groupBytes) ++
      (List.range maxTriggers).flatMap room.triggerSlot ++
      (room.mapBytes ++ room.entrancesBytes ++ room.entitiesBytes ctx ++ scriptBlock codes ++
        endMarker) := by
    rw [h.record_eq, Room.header, triggersBytes_eq]
    simp only [List.append_assoc]
  have hslots := pieces_eq length_triggerSlot hpieces
  rw [List.length_append, length_groupBytes, List.length_range] at hslots
  exact hslots.trans (map_triggerSlot h.lawful.triggers_le)

/-- The triggers that are used stand in front of the unused ones. -/
theorem Encoded.triggers :
    List.Forall₂ room.TriggeredAs room.scriptTriggers
      ((pieces record 11 5 16).filterMap readTrigger?) := by
  have hunused : (List.replicate (16 - room.scriptTriggers.length) unusedTrigger).filterMap
      readTrigger? = [] := by
    refine List.filterMap_eq_nil_iff.mpr fun piece hpiece => ?_
    rw [List.eq_of_mem_replicate hpiece]
    rfl
  rw [h.triggerPieces_eq, List.filterMap_append, hunused, List.append_nil, List.filterMap_map]
  refine forall₂_filterMap fun t ht => ?_
  have htriggers := h.lawful.triggers t ht
  obtain ⟨k, hk⟩ := htriggers.exists_scriptIndex?
  have hlt := lt_of_findIdx? hk
  have hle := h.scriptNames_le
  have hne := triggerBytes_ne_unusedTrigger htriggers
  exact ⟨_, readTrigger?_triggerBytes hne hk (by omega), rfl, rfl, rfl, rfl, hk, rfl⟩

/-! ### Behind the header -/

theorem Encoded.tiles_eq :
    (record.drop 91).take (byteAt record 0 * byteAt record 1) = room.tiles := by
  have hpieces : record = room.header ctx ++ (room.mapBytes ++ (room.entrancesBytes ++
      room.entitiesBytes ctx ++ scriptBlock codes ++ endMarker)) := by
    rw [h.record_eq]
    simp only [List.append_assoc]
  have hdrop := drop_of_eq_append hpieces
  rw [length_header] at hdrop
  have hcount : byteAt record 0 * byteAt record 1 = room.tileCount := by
    rw [h.byteAt_width, h.byteAt_height, tileCount]
  rw [hdrop, hcount, List.take_left' length_mapBytes, mapBytes_eq_tiles h.lawful.length_tiles]

theorem Encoded.entranceEntries_eq :
    (pieces record (entrancesStart record + 1) 5
      (byteAt record (entrancesStart record))).mapM readEntrance? =
      some (room.entrances.map entranceEntry) := by
  obtain ⟨rest, hrecord, hlen⟩ := h.record_eq_entrances
  have hpieces : record = (room.header ctx ++ room.mapBytes ++
      [byte (min room.entrances.length 255)]) ++ room.entrances.flatMap entranceBytes ++ rest := by
    rw [hrecord, entrancesBytes]
    simp only [List.append_assoc, List.cons_append, List.nil_append]
  have hfound := pieces_eq length_entranceBytes hpieces
  have hcount := h.entitiesStart_eq
  rw [entitiesStart] at hcount
  have hcount : byteAt record (entrancesStart record) = room.entrances.length := by omega
  rw [List.length_append, hlen, List.length_singleton] at hfound
  rw [hcount, hfound]
  exact mapM_map_eq_some readEntrance?_entranceBytes

theorem Encoded.entityEntries_eq :
    (pieces record (entitiesStart record) 6 (byteAt record 10)).mapM readEntity? =
      some (room.entities.map (entityEntry ctx)) := by
  have hpieces : record = (room.header ctx ++ room.mapBytes ++ room.entrancesBytes) ++
      room.entities.flatMap (entityBytes ctx) ++ (scriptBlock codes ++ endMarker) := by
    rw [h.record_eq, entitiesBytes]
    simp only [List.append_assoc]
  have hfound := pieces_eq length_entityBytes hpieces
  have hlen : (room.header ctx ++ room.mapBytes ++ room.entrancesBytes).length =
      entitiesStart record := by
    rw [h.entitiesStart_eq, h.entrancesStart_eq, List.length_append, List.length_append,
      length_header, length_mapBytes, length_entrancesBytes]
    omega
  have hcount := h.scriptsStart_eq
  rw [scriptsStart] at hcount
  have hcount : byteAt record 10 = room.entities.length := by omega
  rw [hlen] at hfound
  rw [hcount, hfound]
  exact mapM_map_eq_some readEntity?_entityBytes

/-- The entities of a group stand between two running totals. -/
theorem Encoded.group_eq {i : Nat} (hi : i < maxGroups) :
    ((room.entities.map (entityEntry ctx)).take (groupStop record i)).drop
      (groupStart record i) = (room.groupEntities i).map (entityEntry ctx) := by
  obtain ⟨rest, hrest⟩ : room.groupsBefore (i + 1) <+: room.entities :=
    isPrefix_groupsBefore (i + 1)
  rw [h.groupStop_eq hi, h.groupStart_eq hi, ← List.map_take, ← List.map_drop, ← hrest,
    List.take_left, groupsBefore_succ, List.drop_left]

theorem Encoded.placedAs
    (hindexes : ∀ e ∈ room.entities, ∀ i, ctx.entities.get? e.entity = some i → i < 256)
    {e : PlacedEntity} (he : e ∈ room.entities) : PlacedAs ctx e (entityEntry ctx e) := by
  obtain ⟨i, hi⟩ := exists_findIdx?_of_mem (h.lawful.entities_known e he)
  have hget : ctx.entities.get? e.entity = some i := hi
  refine ⟨?_, rfl, rfl, rfl⟩
  rw [entityEntry, hget, Option.getD_some, toNat_byte_of_lt (hindexes e he i hget)]

/-! ### Scripts -/

theorem Encoded.scriptOffsets_eq :
    (List.range (scriptCount record)).map (scriptOffset record) =
      offsets (1 + 2 * codes.length) codes := by
  rw [h.scriptCount_eq]
  refine map_range_eq (length_offsets _ codes) fun i offset hi => ?_
  have hlt := (List.getElem?_eq_some_iff.mp hi).1
  rw [length_offsets] at hlt
  rw [getElem?_offsets hlt] at hi
  rw [h.scriptOffset_eq hlt]
  exact Option.some.inj hi

theorem Encoded.scripts_eq :
    (List.range (scriptCount record)).map (scriptCode record) = codes := by
  rw [h.scriptCount_eq]
  exact map_range_eq rfl fun i code hi => h.scriptCode_eq hi

theorem Encoded.endMarker_eq : record.drop (record.length - 4) = endMarker := by
  have hlength := congrArg List.length h.record_eq
  rw [List.length_append] at hlength
  rw [hlength]
  exact drop_of_eq_append h.record_eq

/-- **A room that is encoded without an error is read back from its record.** -/
theorem Encoded.exists_recovers
    (hscene : ∀ i, ctx.scenes.get? room.scene = some i → i < 256)
    (hindexes : ∀ e ∈ room.entities, ∀ i, ctx.entities.get? e.entity = some i → i < 256) :
    ∃ c, decode? record = some c ∧ Recovers ctx room scope c := by
  have hgroups : (List.range 8).map (fun i => ((room.entities.map (entityEntry ctx)).take
      (groupStop record i)).drop (groupStart record i)) =
      ((List.range 8).map room.groupEntities).map (List.map (entityEntry ctx)) := by
    rw [List.map_map]
    exact List.map_congr_left fun i hi => h.group_eq (List.mem_range.mp hi)
  refine ⟨⟨byteAt record 0, byteAt record 1, byteAt record 2,
    ((List.range 8).map room.groupEntities).map (List.map (entityEntry ctx)),
    (pieces record 11 5 16).filterMap readTrigger?, room.tiles,
    room.entrances.map entranceEntry, offsets (1 + 2 * codes.length) codes, codes⟩, ?_, ?_⟩
  · rw [decode?, h.entranceEntries_eq, h.entityEntries_eq]
    show (if record.drop (record.length - 4) = endMarker then some _ else none) = _
    rw [if_pos h.endMarker_eq, hgroups, h.tiles_eq, h.scriptOffsets_eq, h.scripts_eq]
  · refine ⟨h.sides_eq.1, h.sides_eq.2, h.get?_scene hscene,
      h.lawful.groups_le, ?_, h.triggers,
      fun t ht => triggerBytes_ne_unusedTrigger (h.lawful.triggers t ht), rfl, rfl,
      h.forall₂_codes.imp fun _ _ haccepts => haccepts.1, rfl⟩
    refine List.forall₂_map_right_iff.mpr (List.forall₂_same.mpr fun group hgroup => ?_)
    refine List.forall₂_map_right_iff.mpr (List.forall₂_same.mpr fun e he => ?_)
    obtain ⟨i, -, rfl⟩ := List.mem_map.mp hgroup
    exact h.placedAs hindexes (mem_entities_of_mem_groupEntities he)

end Recovery

/-! ## Every record -/

section Sizes

variable {ctx : RoomContext} {room : Room} {scope : Scope} {codes : List Bytes} {record : Bytes}

/-- The code of every script, however long it is. -/
def scriptCodes (ctx : RoomContext) (room : Room) (scope : Scope) : List Bytes :=
  room.allScripts.map fun s => Script.bytecode (room.scriptContext ctx scope) s.nodes

/-- The scripts of the room are too large for a record. -/
def TooLarge (ctx : RoomContext) (room : Room) (scope : Scope) : Prop :=
  (∃ code ∈ room.scriptCodes ctx scope, Script.maxScriptSize < code.length) ∨
    maxScriptBlock < (scriptBlock (room.scriptCodes ctx scope)).length

theorem result_compileScripts_eq_ok_iff :
    (room.compileScripts ctx scope).result = .ok codes ↔ codes = room.scriptCodes ctx scope ∧
      ∀ code ∈ room.scriptCodes ctx scope, code.length ≤ Script.maxScriptSize := by
  rw [compileScripts, Outcome.result_mapM_eq_ok_iff, scriptCodes, List.forall_mem_map,
    ← forall₂_eq_and_iff]
  simp only [Script.result_compile_eq_ok_iff]

/-- A script that cannot be compiled is too long. -/
theorem result_compileScripts_eq_error {f : Failure}
    (h : (room.compileScripts ctx scope).result = .error f) :
    (∃ kind name size max, f = .recordTooLarge kind name size max) ∧ room.TooLarge ctx scope := by
  obtain ⟨s, hs, he⟩ := Outcome.exists_of_result_mapM_error h
  rw [Script.result_compile] at he
  by_cases hlong : (Script.bytecode (room.scriptContext ctx scope) s.nodes).length >
      Script.maxScriptSize
  · rw [if_pos hlong, Except.error.injEq] at he
    exact ⟨⟨_, _, _, _, he.symm⟩, Or.inl ⟨_, List.mem_map_of_mem hs, hlong⟩⟩
  · rw [if_neg hlong] at he
    exact absurd he (by simp)

variable (hscope : (Scope.build ctx.gameState room.name room.temporaryFlags
  room.temporaryWords).result = .ok scope)
include hscope

/-- With its variables in place, a room is its scripts and what they have room for. -/
theorem result_encode : (room.encode ctx).result =
    (room.compileScripts ctx scope).result.bind fun codes =>
      if (scriptBlock codes).length > maxScriptBlock then
        .error (.recordTooLarge .room room.name (scriptBlock codes).length maxScriptBlock)
      else .ok (room.header ctx ++ room.mapBytes ++ room.entrancesBytes ++
        room.entitiesBytes ctx ++ scriptBlock codes ++ endMarker) := by
  unfold encode
  simp only [Outcome.result_bind, Outcome.result_lift, hscope, Except.bind]
  cases (room.compileScripts ctx scope).result with
  | error f => rfl
  | ok codes => exact Outcome.result_check

theorem result_encode_eq_ok_iff : (room.encode ctx).result = .ok record ↔
    ¬ room.TooLarge ctx scope ∧ record = room.header ctx ++ room.mapBytes ++
      room.entrancesBytes ++ room.entitiesBytes ctx ++
      scriptBlock (room.scriptCodes ctx scope) ++ endMarker := by
  rw [result_encode hscope]
  cases hcodes : (room.compileScripts ctx scope).result with
  | error f =>
    have hlarge := (result_compileScripts_eq_error hcodes).2
    exact ⟨fun h => absurd h (by simp [Except.bind]), fun h => absurd hlarge h.1⟩
  | ok codes =>
    obtain ⟨rfl, hle⟩ := result_compileScripts_eq_ok_iff.mp hcodes
    have hshort : ¬ ∃ code ∈ room.scriptCodes ctx scope, Script.maxScriptSize < code.length := by
      rintro ⟨code, hmem, hlt⟩
      exact absurd (hle code hmem) (Nat.not_le_of_lt hlt)
    have hlarge : room.TooLarge ctx scope ↔
        maxScriptBlock < (scriptBlock (room.scriptCodes ctx scope)).length :=
      ⟨fun h => h.resolve_left hshort, Or.inr⟩
    show (if _ then _ else _) = _ ↔ _
    by_cases hblock : (scriptBlock (room.scriptCodes ctx scope)).length > maxScriptBlock
    · rw [if_pos hblock]
      exact ⟨fun h => absurd h (by simp), fun h => absurd (hlarge.mpr hblock) h.1⟩
    · rw [if_neg hblock, Except.ok.injEq]
      exact ⟨fun h => ⟨fun hc => hblock (hlarge.mp hc), h.symm⟩, fun h => h.2.symm⟩

/-- A room with its variables in place fails only because it is too large. -/
theorem exists_recordTooLarge_iff :
    (∃ kind name size max, (room.encode ctx).result = .error (.recordTooLarge kind name size max)) ↔
      room.TooLarge ctx scope := by
  constructor
  · rintro ⟨kind, name, size, max, he⟩
    by_contra hc
    have hok := (result_encode_eq_ok_iff hscope).mpr ⟨hc, rfl⟩
    rw [hok] at he
    exact absurd he (by simp)
  · intro hlarge
    rw [result_encode hscope]
    cases hcodes : (room.compileScripts ctx scope).result with
    | error f =>
      obtain ⟨kind, name, size, max, rfl⟩ := (result_compileScripts_eq_error hcodes).1
      exact ⟨kind, name, size, max, rfl⟩
    | ok codes =>
      obtain ⟨rfl, hle⟩ := result_compileScripts_eq_ok_iff.mp hcodes
      have hblock : (scriptBlock (room.scriptCodes ctx scope)).length > maxScriptBlock := by
        refine hlarge.resolve_left ?_
        rintro ⟨code, hmem, hlt⟩
        exact absurd (hle code hmem) (Nat.not_le_of_lt hlt)
      exact ⟨_, _, _, _, if_pos hblock⟩

end Sizes

/-- What the record of a room is: read back it is the room, and it has its full size, with errors
or without. -/
structure RoundTrips (ctx : RoomContext) (room : Room) : Prop where
  recovers : ∀ record, (room.encode ctx).Accepts record →
    (∀ i, ctx.scenes.get? room.scene = some i → i < 256) →
    (∀ e ∈ room.entities, ∀ i, ctx.entities.get? e.entity = some i → i < 256) →
    ∃ scope c, (Scope.build ctx.gameState room.name room.temporaryFlags
      room.temporaryWords).result = .ok scope ∧ decode? record = some c ∧
        room.Recovers ctx scope c
  length_eq : ∀ record, (room.encode ctx).result = .ok record →
    ∃ scope, (Scope.build ctx.gameState room.name room.temporaryFlags
      room.temporaryWords).result = .ok scope ∧
        record.length = 91 + min room.width 255 * min room.height 255 +
          (1 + 5 * room.entrances.length) + 6 * room.entities.length +
          (scriptBlock (room.scriptCodes ctx scope)).length + 4
  tooLarge_iff : ∀ scope, (Scope.build ctx.gameState room.name room.temporaryFlags
    room.temporaryWords).result = .ok scope →
      ((∃ kind name size max,
          (room.encode ctx).result = .error (.recordTooLarge kind name size max)) ↔
        room.TooLarge ctx scope) ∧
      ((∃ record, (room.encode ctx).result = .ok record) ↔ ¬ room.TooLarge ctx scope)

/-- **The record of a room round-trips.** -/
theorem encode_roundTrip (ctx : RoomContext) (room : Room) : room.RoundTrips ctx := by
  refine ⟨fun record h hscene hindexes => ?_, fun record h => ?_, fun scope hscope => ⟨?_, ?_⟩⟩
  · obtain ⟨scope, codes, hencoded⟩ := exists_encoded h
    obtain ⟨c, hdecode, hrecovers⟩ := hencoded.exists_recovers hscene hindexes
    exact ⟨scope, c, hencoded.locals.1, hdecode, hrecovers⟩
  · obtain ⟨scope, hscope, -⟩ := Outcome.result_bind_eq_ok_iff.mp h
    obtain ⟨-, rfl⟩ := (result_encode_eq_ok_iff hscope).mp h
    refine ⟨scope, hscope, ?_⟩
    simp only [List.length_append, length_header, length_mapBytes, length_entrancesBytes,
      length_entitiesBytes]
    rfl
  · exact exists_recordTooLarge_iff hscope
  · constructor
    · rintro ⟨record, hrecord⟩
      exact ((result_encode_eq_ok_iff hscope).mp hrecord).1
    · exact fun hfits => ⟨_, (result_encode_eq_ok_iff hscope).mpr ⟨hfits, rfl⟩⟩

section Sample

/-- The first entity group is empty, and one of the triggers runs once. -/
def sampleHall : Room where
  name := "town"
  scene := "inside"
  width := 2
  height := 1
  tiles := [7, 8]
  entrances := [⟨"gate", 1, 2, 3⟩]
  entityGroups := [⟨"none", []⟩, ⟨"all", [⟨"chest", 16, 4, 9⟩, ⟨"door", 0, 0, 0⟩]⟩]
  scriptTriggers := [⟨"wait", 0, 0, 1, 1, true⟩, ⟨"startup", 1, 0, 2, 1, false⟩]
  temporaryFlags := ["seen"]
  temporaryWords := []
  startupScript := []
  scripts := [⟨"wait",
    [.choice ⟨.flag, "seen", .isSet, none⟩ [.statement ⟨"sleep_frames", ["1"]⟩] []]⟩]

def sampleHallContext : RoomContext :=
  ⟨Script.sampleTable, Script.sampleState, ⟨["outside", "inside"]⟩, ⟨["door", "chest"]⟩,
    ⟨[("town", ["gate"])]⟩⟩

theorem recovers_sampleHall : ∃ record scope c,
    (sampleHall.encode sampleHallContext).Accepts record ∧ decode? record = some c ∧
      sampleHall.Recovers sampleHallContext scope c := by
  have hok : (sampleHall.encode sampleHallContext).result.isOk = true := by decide +kernel
  have herrors : (sampleHall.encode sampleHallContext).report.hasErrors = false := by
    decide +kernel
  have hlt : ∀ {names : List String} {name : String} {i : Nat}, names.length ≤ 256 →
      NameIndex.get? ⟨names⟩ name = some i → i < 256 := fun hlen hi =>
    Nat.lt_of_lt_of_le (lt_of_findIdx? hi) hlen
  obtain ⟨record, h⟩ := Outcome.exists_result_eq_ok hok
  obtain ⟨scope, c, -, hdecode, hrecovers⟩ := (encode_roundTrip sampleHallContext
    sampleHall).recovers record ⟨h, herrors⟩ (fun _ hi => hlt (by decide) hi)
    (fun _ _ _ hi => hlt (by decide) hi)
  exact ⟨record, scope, c, ⟨h, herrors⟩, hdecode, hrecovers⟩

end Sample

end Room

end Cartridge
