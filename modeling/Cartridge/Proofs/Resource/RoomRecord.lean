import Cartridge.Proofs.Bytes
import Cartridge.Proofs.Lists
import Cartridge.Proofs.Outcome
import Cartridge.Proofs.Resource.RoomRules

/-!
# Records of rooms

`RoomRecord` finds the parts of a record by the documented layout alone: the bytes of the header say
how many tiles there are, the byte behind the tiles how many entrances, and the last running total
how many entities.  A room that is encoded without an error (`Room.Encoded`) is within the limits,
so the parts of its record are found there.
-/

namespace Cartridge

/-! ## Finding the parts of a record -/

namespace RoomRecord

variable (record : Bytes)

/-- A byte of a record, or zero behind its end. -/
def byteAt (i : Nat) : Nat := (record[i]?.map UInt8.toNat).getD 0

/-- The scene of the room. -/
def scene? : Option UInt8 := record[2]?

/-- The script of trigger `i`, behind its rectangle. -/
def triggerScript? (i : Nat) : Option UInt8 := record[11 + 5 * i + 4]?

/-- Behind the header and the tiles. -/
def entrancesStart : Nat := 91 + byteAt record 0 * byteAt record 1

def entitiesStart : Nat := entrancesStart record + 1 + 5 * byteAt record (entrancesStart record)

/-- The index of entity `i`. -/
def entity? (i : Nat) : Option UInt8 := record[entitiesStart record + 6 * i]?

/-- Behind the entities; the last running total counts all of them. -/
def scriptsStart : Nat := entitiesStart record + 6 * byteAt record 10

def scriptCount : Nat := byteAt record (scriptsStart record)

/-- Entry `i` of the offset table of the scripts. -/
def scriptOffset (i : Nat) : Nat :=
  ofLittleEndian ((record.drop (scriptsStart record + 1 + 2 * i)).take 2)

/-- The code of script `i` ends where the next one starts, and that of the last before the mark. -/
def scriptCode (i : Nat) : Bytes :=
  let start := scriptsStart record + scriptOffset record i
  let stop :=
    if i + 1 < scriptCount record then scriptsStart record + scriptOffset record (i + 1)
    else record.length - 4
  (record.drop start).take (stop - start)

end RoomRecord

namespace Room

/-! ## Rooms without errors -/

section Encoded

/-- What is known of a room that is encoded without an error. -/
structure Encoded (ctx : RoomContext) (room : Room) (scope : Scope) (codes : List Bytes)
    (record : Bytes) : Prop where
  locals : (Scope.build ctx.gameState room.name room.temporaryFlags
    room.temporaryWords).Accepts scope
  header : room.headerFindings ctx = []
  map : room.mapFindings = []
  entrances : room.entranceFindings = []
  entities : room.entityFindings ctx = []
  scripts : room.scriptFindings = []
  compiled : (room.compileScripts ctx scope).Accepts codes
  block_le : (scriptBlock codes).length ≤ maxScriptBlock
  record_eq : record = room.header ctx ++ room.mapBytes ++ room.entrancesBytes ++
    room.entitiesBytes ctx ++ scriptBlock codes ++ endMarker

variable {ctx : RoomContext} {room : Room} {scope : Scope} {codes : List Bytes} {record : Bytes}

theorem exists_encoded (h : (room.encode ctx).Accepts record) :
    ∃ scope codes, Encoded ctx room scope codes record := by
  unfold encode at h
  simp only [Outcome.accepts_bind_iff, Outcome.accepts_lift_iff] at h
  obtain ⟨scope, hscope, _, ⟨-, hreport⟩, codes, hcodes, h⟩ := h
  have hnone : (room.headerFindings ctx ++ room.mapFindings ++ room.entranceFindings ++
      room.entityFindings ctx ++ room.scriptFindings) = [] :=
    (Report.hasErrors_map_eq_false_iff fun _ => rfl).mp hreport
  by_cases hblock : (scriptBlock codes).length > maxScriptBlock
  · rw [if_pos hblock] at h
    exact absurd h Outcome.not_accepts_throw
  rw [if_neg hblock] at h
  obtain ⟨_, -, h⟩ := Outcome.accepts_bind_iff.mp h
  simp only [List.append_eq_nil_iff] at hnone
  obtain ⟨⟨⟨⟨hheader, hmap⟩, hentrances⟩, hentities⟩, hscripts⟩ := hnone
  exact ⟨scope, codes, hscope, hheader, hmap, hentrances, hentities, hscripts, hcodes,
    Nat.le_of_not_lt hblock, (Outcome.accepts_pure_iff.mp h).symm⟩

theorem Encoded.lawful (h : Encoded ctx room scope codes record) :
    room.Lawful ctx.scenes.names ctx.entities.names := by
  refine findings_eq_nil_iff.mp ?_
  simp only [List.append_eq_nil_iff]
  exact ⟨⟨⟨⟨h.header, h.map⟩, h.entrances⟩, h.entities⟩, h.scripts⟩

theorem Encoded.scriptNames_le (h : Encoded ctx room scope codes record) :
    room.scriptNames.length ≤ 64 := by
  rw [scriptNames_eq, List.length_cons, List.length_map]
  exact h.lawful.scripts_le

theorem Encoded.forall₂_codes (h : Encoded ctx room scope codes record) :
    List.Forall₂ (fun script code => (Script.compile (room.scriptContext ctx scope)
      s!"{room.name}.{script.name}" script.nodes).Accepts code) room.allScripts codes :=
  Outcome.accepts_mapM_iff.mp h.compiled

theorem Encoded.length_codes (h : Encoded ctx room scope codes record) :
    codes.length = room.scriptNames.length := by
  rw [← h.forall₂_codes.length_eq, scriptNames, List.length_map]

end Encoded

/-! ## The layout of a record -/

section Layout

variable {ctx : RoomContext} {room : Room}

theorem length_groupBytes : room.groupBytes.length = 8 := by
  rw [groupBytes, List.length_map, List.length_range]
  rfl

/-- The bytes of trigger `i`, used or not. -/
def triggerSlot (room : Room) (i : Nat) : Bytes :=
  match room.scriptTriggers[i]? with
  | some t => room.triggerBytes t
  | none => unusedTrigger

theorem length_triggerSlot (i : Nat) : (room.triggerSlot i).length = 5 := by
  unfold triggerSlot
  cases room.scriptTriggers[i]? with
  | none => rfl
  | some t => rfl

theorem triggersBytes_eq :
    room.triggersBytes = (List.range maxTriggers).flatMap room.triggerSlot := rfl

theorem length_triggersBytes : room.triggersBytes.length = 80 := by
  rw [triggersBytes_eq, length_flatMap_of_width length_triggerSlot, List.length_range]
  rfl

theorem length_header : (room.header ctx).length = 91 := by
  rw [header, List.length_append, List.length_append, length_groupBytes, length_triggersBytes]
  rfl

theorem length_mapBytes : room.mapBytes.length = room.tileCount := by
  rw [mapBytes, List.length_append, List.length_take, List.length_replicate]
  omega

theorem length_entranceBytes (e : Entrance) : (entranceBytes e).length = 5 := rfl

theorem length_entityBytes (e : PlacedEntity) : (entityBytes ctx e).length = 6 := rfl

theorem length_entrancesBytes : room.entrancesBytes.length = 1 + 5 * room.entrances.length := by
  rw [entrancesBytes, List.length_cons, length_flatMap_of_width length_entranceBytes,
    Nat.add_comm]

theorem length_entitiesBytes :
    (room.entitiesBytes ctx).length = 6 * room.entities.length := by
  rw [entitiesBytes, length_flatMap_of_width length_entityBytes]

/-- A running total counts the entities of the groups so far. -/
theorem runningTotal_eq_length (i : Nat) : room.runningTotal i =
    ((room.entityGroups.take (i + 1)).flatMap EntityGroup.entities).length := by
  have hall : ∀ gs : List EntityGroup,
      total (gs.map fun g => g.entities.length) = (gs.flatMap EntityGroup.entities).length := by
    intro gs
    induction gs with
    | nil => rfl
    | cons g gs ih =>
      rw [List.map_cons, total_cons, List.flatMap_cons, List.length_append, ih]
  rw [runningTotal, hall]

/-- The last running total counts every entity. -/
theorem runningTotal_eq (h : room.entityGroups.length ≤ maxGroups) :
    room.runningTotal 7 = room.entities.length := by
  -- there are no more groups than totals
  have htake : room.entityGroups.take (7 + 1) = room.entityGroups := List.take_of_length_le h
  rw [runningTotal_eq_length, htake, entities]

/-- The script of a trigger is in the low bits, and the top bit says whether it runs once. -/
theorem triggerScript_eq {k : Nat} (hk : k < 128) (once : Bool) :
    (if once then byte k ||| 0x80 else byte k).toNat % 128 = k ∧
      (128 ≤ (if once then byte k ||| 0x80 else byte k).toNat ↔ once = true) := by
  have hbyte : (byte k).toNat = k := toNat_byte_of_lt (by omega)
  cases once with
  | false =>
    show (byte k).toNat % 128 = k ∧ (128 ≤ (byte k).toNat ↔ false = true)
    rw [hbyte]
    exact ⟨Nat.mod_eq_of_lt hk, fun h => absurd h (by omega), fun h => absurd h (by decide)⟩
  | true =>
    have hor : (byte k ||| 0x80).toNat = 128 + k := by
      rw [UInt8.toNat_or, hbyte, Nat.or_comm]
      exact (Nat.two_pow_add_eq_or_of_lt (i := 7) hk 1).symm
    show (byte k ||| 0x80).toNat % 128 = k ∧ (128 ≤ (byte k ||| 0x80).toNat ↔ true = true)
    rw [hor]
    exact ⟨by omega, fun _ => rfl, fun _ => Nat.le_add_right 128 k⟩

variable {scope : Scope} {codes : List Bytes} {record : Bytes}
  (h : Encoded ctx room scope codes record)
include h

open RoomRecord

theorem Encoded.byteAt_width : byteAt record 0 = room.writtenWidth := by
  rw [h.record_eq]
  exact toNat_byte_of_lt (Nat.lt_succ_of_le (Nat.min_le_right _ _))

theorem Encoded.byteAt_height : byteAt record 1 = room.writtenHeight := by
  rw [h.record_eq]
  exact toNat_byte_of_lt (Nat.lt_succ_of_le (Nat.min_le_right _ _))

theorem Encoded.entrancesStart_eq : entrancesStart record = 91 + room.tileCount := by
  rw [entrancesStart, h.byteAt_width, h.byteAt_height, tileCount]

/-- What stands before the entrances, the entities and the scripts. -/
theorem Encoded.record_eq_entrances : ∃ rest, record =
    (room.header ctx ++ room.mapBytes) ++ (room.entrancesBytes ++ rest) ∧
      (room.header ctx ++ room.mapBytes).length = entrancesStart record := by
  refine ⟨room.entitiesBytes ctx ++ scriptBlock codes ++ endMarker, ?_, ?_⟩
  · rw [h.record_eq]
    simp only [List.append_assoc]
  · rw [h.entrancesStart_eq, List.length_append, length_header, length_mapBytes]

theorem Encoded.entitiesStart_eq :
    entitiesStart record = entrancesStart record + 1 + 5 * room.entrances.length := by
  obtain ⟨rest, hrecord, hlen⟩ := h.record_eq_entrances
  have hle := h.lawful.entrances_le
  have hcount : byteAt record (entrancesStart record) = room.entrances.length := by
    have hget := getElem?_append_add (room.header ctx ++ room.mapBytes)
      (room.entrancesBytes ++ rest) 0
    rw [← hrecord, Nat.add_zero, hlen] at hget
    rw [byteAt, hget]
    show (byte (min room.entrances.length 255)).toNat = _
    rw [toNat_byte_of_lt (by omega)]
    omega
  rw [entitiesStart, hcount]

theorem Encoded.scriptsStart_eq :
    scriptsStart record = entitiesStart record + 6 * room.entities.length := by
  have hle := h.lawful.entities_le
  have htotal : byteAt record 10 = room.entities.length := by
    rw [h.record_eq]
    show (byte (min (room.runningTotal 7) 255)).toNat = _
    rw [runningTotal_eq h.lawful.groups_le, toNat_byte_of_lt (by omega)]
    omega
  rw [scriptsStart, htotal]

/-! ### Indexes -/

theorem Encoded.scene?_eq :
    scene? record = some (byte ((ctx.scenes.get? room.scene).getD 0)) := by
  rw [h.record_eq]
  rfl

theorem Encoded.triggerScript?_eq {i : Nat} {t : ScriptTrigger}
    (ht : room.scriptTriggers[i]? = some t) :
    triggerScript? record i = (room.triggerBytes t)[4]? := by
  have hle : room.scriptTriggers.length ≤ maxTriggers := h.lawful.triggers_le
  have hlt := (List.getElem?_eq_some_iff.mp ht).1
  have hi : (List.range maxTriggers)[i]? = some i := List.getElem?_range (by omega)
  obtain ⟨front, rest, heq, hlen⟩ :=
    exists_flatMap_eq (f := room.triggerSlot) length_triggerSlot hi
  have hslot : room.triggerSlot i = room.triggerBytes t := by rw [triggerSlot, ht]
  have hfront : ([byte room.writtenWidth, byte room.writtenHeight,
      byte ((ctx.scenes.get? room.scene).getD 0)] ++ room.groupBytes ++ front).length =
      11 + 5 * i := by
    rw [List.length_append, List.length_append, length_groupBytes, hlen]
    rfl
  have hrecord : record = ([byte room.writtenWidth, byte room.writtenHeight,
      byte ((ctx.scenes.get? room.scene).getD 0)] ++ room.groupBytes ++ front) ++
      room.triggerBytes t ++ (rest ++ room.mapBytes ++ room.entrancesBytes ++
        room.entitiesBytes ctx ++ scriptBlock codes ++ endMarker) := by
    rw [h.record_eq, Room.header, triggersBytes_eq, heq, hslot]
    simp only [List.append_assoc]
  rw [triggerScript?, hrecord, ← hfront]
  exact getElem?_append_piece _ (Nat.lt_succ_self 4)

theorem Encoded.entity?_eq {i : Nat} {e : PlacedEntity} (he : room.entities[i]? = some e) :
    entity? record i = some (byte ((ctx.entities.get? e.entity).getD 0)) := by
  obtain ⟨front, rest, heq, hlen⟩ := exists_flatMap_eq (f := entityBytes ctx) length_entityBytes he
  have hfront : (room.header ctx ++ room.mapBytes ++ room.entrancesBytes ++ front).length =
      entitiesStart record + 6 * i := by
    rw [h.entitiesStart_eq, h.entrancesStart_eq, List.length_append, List.length_append,
      List.length_append, length_header, length_mapBytes, length_entrancesBytes, hlen]
    omega
  have hrecord : record = (room.header ctx ++ room.mapBytes ++ room.entrancesBytes ++ front) ++
      entityBytes ctx e ++ (rest ++ scriptBlock codes ++ endMarker) := by
    rw [h.record_eq, entitiesBytes, heq]
    simp only [List.append_assoc]
  have hget : ((room.header ctx ++ room.mapBytes ++ room.entrancesBytes ++ front) ++
      entityBytes ctx e ++ (rest ++ scriptBlock codes ++ endMarker))[_ + 0]? = _ :=
    getElem?_append_piece _ (Nat.succ_pos 5)
  rw [← hrecord, hfront] at hget
  exact hget

/-! ### Scripts -/

omit h in
theorem length_offsets (start : Nat) (codes : List Bytes) :
    (offsets start codes).length = codes.length := by
  induction codes generalizing start with
  | nil => rfl
  | cons code codes ih => rw [offsets, List.length_cons, ih, List.length_cons]

omit h in
theorem getElem?_offsets {start i : Nat} (hi : i < codes.length) :
    (offsets start codes)[i]? = some (start + (codes.take i).flatten.length) := by
  induction codes generalizing start i with
  | nil => exact absurd hi (Nat.not_lt_zero i)
  | cons code codes ih =>
    rw [offsets]
    cases i with
    | zero => rfl
    | succ i =>
      rw [List.getElem?_cons_succ, ih (Nat.lt_of_succ_lt_succ hi), List.take_succ_cons,
        List.flatten_cons, List.length_append, Nat.add_assoc]

omit h in
theorem length_scriptBlock :
    (scriptBlock codes).length = 1 + 2 * codes.length + codes.flatten.length := by
  rw [scriptBlock, List.length_cons, List.length_append,
    length_flatMap_of_width word16_length, length_offsets]
  omega

/-- What stands before the scripts. -/
theorem Encoded.record_eq_scripts : ∃ front, record = front ++ (scriptBlock codes ++ endMarker) ∧
    front.length = scriptsStart record := by
  refine ⟨room.header ctx ++ room.mapBytes ++ room.entrancesBytes ++ room.entitiesBytes ctx,
    ?_, ?_⟩
  · rw [h.record_eq]
    simp only [List.append_assoc]
  · rw [h.scriptsStart_eq, h.entitiesStart_eq, h.entrancesStart_eq, List.length_append,
      List.length_append, List.length_append, length_header, length_mapBytes,
      length_entrancesBytes, length_entitiesBytes]
    omega

theorem Encoded.scriptCount_eq : scriptCount record = codes.length := by
  obtain ⟨front, hrecord, hlen⟩ := h.record_eq_scripts
  have hle := h.scriptNames_le
  have hcodes := h.length_codes
  have hget := getElem?_append_add front (scriptBlock codes ++ endMarker) 0
  rw [← hrecord, Nat.add_zero, hlen] at hget
  rw [scriptCount, byteAt, hget]
  show (byte (min codes.length 255)).toNat = _
  rw [toNat_byte_of_lt (by omega)]
  omega

/-- The offset table holds where the code of every script starts. -/
theorem Encoded.scriptOffset_eq {i : Nat} (hi : i < codes.length) :
    scriptOffset record i = 1 + 2 * codes.length + (codes.take i).flatten.length := by
  obtain ⟨before, hrecord, hlen⟩ := h.record_eq_scripts
  obtain ⟨front, rest, heq, hfront⟩ :=
    exists_flatMap_eq (f := word16) word16_length (getElem?_offsets hi)
  -- the block has no more bytes than an offset can reach
  have hblock := h.block_le
  have hmax : maxScriptBlock = 0xFFFF := rfl
  have htake : (codes.take i).flatten.length ≤ codes.flatten.length := by
    have hsplit := congrArg (fun cs => cs.flatten.length) (List.take_append_drop i codes)
    simp only [List.flatten_append, List.length_append] at hsplit
    omega
  rw [length_scriptBlock] at hblock
  have hbefore : (before ++ byte (min codes.length 255) :: front).length =
      scriptsStart record + 1 + 2 * i := by
    rw [List.length_append, List.length_cons, hlen, hfront]
    omega
  have hpieces : record = (before ++ byte (min codes.length 255) :: front) ++
      (word16 (1 + 2 * codes.length + (codes.take i).flatten.length) ++
        (rest ++ codes.flatten ++ endMarker)) := by
    rw [hrecord, scriptBlock, heq]
    simp only [List.append_assoc, List.cons_append]
  have hdrop := drop_of_eq_append hpieces
  rw [hbefore] at hdrop
  rw [scriptOffset, hdrop, List.take_left' (word16_length _)]
  exact ofLittleEndian_word16 (by omega)

/-- **The code of every script is found** through the offset table. -/
theorem Encoded.scriptCode_eq {i : Nat} {code : Bytes} (hi : codes[i]? = some code) :
    scriptCode record i = code := by
  obtain ⟨before, hrecord, hlen⟩ := h.record_eq_scripts
  obtain ⟨hlt, hget⟩ := List.getElem?_eq_some_iff.mp hi
  have hsplit : codes.flatten =
      (codes.take i).flatten ++ (code ++ (codes.drop (i + 1)).flatten) := by
    rw [← hget, ← List.flatten_cons, ← List.drop_eq_getElem_cons hlt, ← List.flatten_append,
      List.take_append_drop]
  have hnext : (codes.take (i + 1)).flatten = (codes.take i).flatten ++ code := by
    rw [List.take_succ_eq_append_getElem hlt, List.flatten_append, hget, List.flatten_cons,
      List.flatten_nil, List.append_nil]
  have htable : (before ++ byte (min codes.length 255) ::
      (offsets (1 + 2 * codes.length) codes).flatMap word16).length =
      scriptsStart record + (1 + 2 * codes.length) := by
    rw [List.length_append, List.length_cons, hlen, length_flatMap_of_width word16_length,
      length_offsets]
    omega
  have hpieces : record = (before ++ byte (min codes.length 255) ::
      (offsets (1 + 2 * codes.length) codes).flatMap word16 ++ (codes.take i).flatten) ++
      (code ++ ((codes.drop (i + 1)).flatten ++ endMarker)) := by
    rw [hrecord, scriptBlock, hsplit]
    simp only [List.append_assoc, List.cons_append]
  have hstart : (before ++ byte (min codes.length 255) ::
      (offsets (1 + 2 * codes.length) codes).flatMap word16 ++ (codes.take i).flatten).length =
      scriptsStart record + scriptOffset record i := by
    rw [List.length_append, htable, h.scriptOffset_eq hlt]
    omega
  have hdrop := drop_of_eq_append hpieces
  rw [hstart] at hdrop
  -- the last script ends in front of the four bytes of the mark
  have hstop : (if i + 1 < scriptCount record then
      scriptsStart record + scriptOffset record (i + 1) else record.length - 4) -
      (scriptsStart record + scriptOffset record i) = code.length := by
    rw [h.scriptCount_eq]
    by_cases hlast : i + 1 < codes.length
    · rw [if_pos hlast, h.scriptOffset_eq hlast, h.scriptOffset_eq hlt, hnext,
        List.length_append]
      omega
    · have hlength := congrArg List.length hpieces
      rw [List.length_append, hstart, List.drop_eq_nil_of_le (Nat.le_of_not_lt hlast),
        List.length_append] at hlength
      rw [if_neg hlast, hlength]
      show _ + (code.length + 4) - 4 - _ = _
      omega
  rw [scriptCode, hdrop]
  simp only [hstop, List.take_left]

end Layout

end Room

end Cartridge
