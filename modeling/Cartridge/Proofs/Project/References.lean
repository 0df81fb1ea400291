import Cartridge.Proofs.Project.Decoding
import Cartridge.Proofs.Resource.RoomRecord
import Cartridge.Proofs.Script.Reading

/-!
# References between resources

Every index in the record of a room names the resource that the room names (`compile_references`):
its scene, the entities that are placed in it, the scripts of its triggers, and the rooms and
entrances that instructions of its scripts take.
-/

namespace Cartridge

/-! ## Rooms and entrances in scripts -/

namespace Project

section Directory

variable {p : Project} {name entrance : String} {m n : Nat}

theorem exists_room_of_room? (h : p.directory.room? name = some m) :
    ∃ room, p.rooms[m]? = some room ∧ room.name = name := by
  obtain ⟨found, hget, heq⟩ := exists_of_findIdx? h
  rw [directory, List.getElem?_map] at hget
  obtain ⟨room, hroom, rfl⟩ := Option.map_eq_some_iff.mp hget
  exact ⟨room, hroom, eq_of_beq heq⟩

/-- An entrance is looked up in the room that the name of its room stands for. -/
theorem exists_entrance_of_entrance? (hm : p.directory.room? name = some m)
    (h : p.directory.entrance? name entrance = some n) :
    ∃ room e, p.rooms[m]? = some room ∧ room.name = name ∧ room.entrances[n]? = some e ∧
      e.name = entrance := by
  obtain ⟨room, hroom, hname⟩ := exists_room_of_room? hm
  unfold RoomDirectory.entrance? at h
  unfold RoomDirectory.room? at hm
  rw [List.find?_eq_bind_findIdx?_getElem?, hm, Option.bind_some, directory,
    List.getElem?_map, hroom, Option.map_some, Option.bind_some] at h
  have hget := getElem?_of_findIdx? h
  rw [List.getElem?_map] at hget
  obtain ⟨e, he, rfl⟩ := Option.map_eq_some_iff.mp hget
  exact ⟨room, e, hroom, hname, he, rfl⟩

end Directory

end Project

namespace Script

/-- The operands of an instruction that stand for rooms and entrances are the indexes of those that
the statement names. -/
structure RoomOperands (rooms : List Room) (i : Instruction) (s : Statement) (call : Call) :
    Prop where
  first : i.first = .room → ∃ r room, call.operands[0]? = some r ∧
    rooms[r.toNat]? = some room ∧ s.arguments[0]? = some room.name
  second : i.second = .room → ∃ r room, call.operands[i.first.size]? = some r ∧
    rooms[r.toNat]? = some room ∧ s.arguments[1]? = some room.name
  first_ne : i.first ≠ .roomEntrance
  entrance : i.second = .roomEntrance → ∃ r room e entrance, call.operands[0]? = some r ∧
    rooms[r.toNat]? = some room ∧ s.arguments[0]? = some room.name ∧
    call.operands[1]? = some e ∧ room.entrances[e.toNat]? = some entrance ∧
    s.arguments[1]? = some entrance.name

section Operands

variable {ctx : Context} {p : Project} {i : Instruction} {s : Statement} {m n : Nat}

variable (hrooms : ctx.rooms = p.directory) (harity : s.arguments.length = i.arity)
include hrooms

/-- An argument that stands for a room is the name of that room. -/
theorem Context.exists_room_of_resolve? {target : Option String} {argument : String}
    (h : ctx.resolve? target .room (some argument) = .ok m) :
    ctx.rooms.room? argument = some m ∧
      ∃ room, p.rooms[m]? = some room ∧ room.name = argument := by
  have hroom : ctx.rooms.room? argument = some m := Resolved.ofOption_eq_ok_iff.mp h
  refine ⟨hroom, ?_⟩
  rw [hrooms] at hroom
  exact Project.exists_room_of_room? hroom

include harity

theorem Context.exists_room_of_firstOperand (hm : ctx.firstOperand i s = .ok m)
    (h1 : i.first = .room) : ∃ room, ctx.rooms.room? room.name = some m ∧
      p.rooms[m]? = some room ∧ s.arguments[0]? = some room.name := by
  have hpos : 0 < i.arity := i.arity_pos (by rw [h1]; decide)
  obtain ⟨name, hname⟩ := Statement.exists_argument (harity ▸ hpos)
  rw [firstOperand, h1, hname] at hm
  obtain ⟨hroom, room, hget, rfl⟩ := exists_room_of_resolve? hrooms hm
  exact ⟨room, hroom, hget, hname⟩

theorem Context.exists_room_of_secondOperand (hi : i.Valid) (hn : ctx.secondOperand i s = .ok n)
    (h2 : i.second = .room) :
    ∃ room, p.rooms[n]? = some room ∧ s.arguments[1]? = some room.name := by
  have hlt : 1 < i.arity := hi.one_lt_arity (by rw [h2]; decide)
  obtain ⟨name, hname⟩ := Statement.exists_argument (harity ▸ hlt)
  rw [secondOperand, h2, hname] at hn
  obtain ⟨-, room, hget, rfl⟩ := exists_room_of_resolve? hrooms hn
  exact ⟨room, hget, hname⟩

/-- The entrance is one of the room that the first argument names, whatever other rooms have an
entrance of this name. -/
theorem Context.exists_entrance_of_secondOperand (hi : i.Valid)
    (hm : ctx.firstOperand i s = .ok m) (hn : ctx.secondOperand i s = .ok n)
    (h2 : i.second = .roomEntrance) : ∃ room entrance, p.rooms[m]? = some room ∧
      s.arguments[0]? = some room.name ∧ room.entrances[n]? = some entrance ∧
      s.arguments[1]? = some entrance.name := by
  have h1 := hi.room_of_roomEntrance h2
  obtain ⟨room, hroom, hget, hname⟩ := exists_room_of_firstOperand hrooms harity hm h1
  have hlt : 1 < i.arity := hi.one_lt_arity (by rw [h2]; decide)
  obtain ⟨entrance, hentrance⟩ := Statement.exists_argument (harity ▸ hlt)
  rw [secondOperand, h2, hentrance, target_eq h1 hname hroom] at hn
  have hfound : ctx.rooms.entrance? room.name entrance = some n := Resolved.ofOption_eq_ok_iff.mp hn
  rw [hrooms] at hroom hfound
  obtain ⟨room', found, hget', -, hfound, rfl⟩ :=
    Project.exists_entrance_of_entrance? hroom hfound
  -- both look-ups stop at the first room of the name
  obtain rfl := Option.some.inj (hget.symm.trans hget')
  exact ⟨room, found, hget, hname, hfound, hentrance⟩

omit harity

/-- A statement without problems is emitted with the indexes of the rooms and entrances that it
names. -/
theorem Statement.exists_roomOperands (hs : ctx.Sound) (hlen : p.rooms.length ≤ 256)
    (hentrances : ∀ room ∈ p.rooms, room.entrances.length ≤ 256) (h : s.problems ctx = []) :
    ∃ call, s.emit? ctx = some call ∧ ∃ e,
      ctx.instructions.entryAt? call.opcode.toNat = some e ∧
        e.instruction.name = s.instruction ∧ RoomOperands p.rooms e.instruction s call := by
  obtain ⟨e, m, n, hl, harity, hm, hn⟩ := s.exists_operands_of_problems_eq_nil h
  have hmem := InstructionTable.mem_of_lookup? hl
  have hvalid := hs.laidOut.valid_entry hmem
  have hoperands : (s.emit ctx e).operands =
      Parameter.encode e.instruction.first m ++ Parameter.encode e.instruction.second n := by
    rw [emit, hm, hn]
    rfl
  have hbyte : ∀ {k : Nat} {room : Room}, p.rooms[k]? = some room →
      p.rooms[(byte k).toNat]? = some room := by
    intro k room hk
    have hlt := (List.getElem?_eq_some_iff.mp hk).1
    rw [toNat_byte_of_lt (by omega)]
    exact hk
  refine ⟨s.emit ctx e, by rw [emit?, hl, Option.map_some], e,
    Statement.entryAt?_emit hs hmem, InstructionTable.name_of_lookup? hl,
    ⟨fun h1 => ?_, fun h2 => ?_, hvalid.first_ne_roomEntrance, fun h2 => ?_⟩⟩
  · obtain ⟨room, -, hget, hname⟩ := Context.exists_room_of_firstOperand hrooms harity hm h1
    refine ⟨byte m, room, ?_, hbyte hget, hname⟩
    rw [hoperands, h1]
    rfl
  · obtain ⟨room, hget, hname⟩ :=
      Context.exists_room_of_secondOperand hrooms harity hvalid hn h2
    refine ⟨byte n, room, ?_, hbyte hget, hname⟩
    rw [hoperands, h2, ← Parameter.length_encode _ m, List.getElem?_append_right (Nat.le_refl _),
      Nat.sub_self]
    rfl
  · obtain ⟨room, entrance, hget, hname, hfound, hentrance⟩ :=
      Context.exists_entrance_of_secondOperand hrooms harity hvalid hm hn h2
    have hlt := (List.getElem?_eq_some_iff.mp hfound).1
    have hle := hentrances room (List.mem_of_getElem? hget)
    refine ⟨byte m, room, byte n, entrance, ?_, hbyte hget, hname, ?_, ?_, hentrance⟩
    · rw [hoperands, hvalid.room_of_roomEntrance h2]
      rfl
    · rw [hoperands, hvalid.room_of_roomEntrance h2, h2]
      rfl
    · rw [toNat_byte_of_lt (by omega)]
      exact hfound

end Operands

/-! ## Scripts -/

/-- The calls in a code are the statements of a script in the order of lines, and refer to the rooms
and entrances that the statements name. -/
def CallsRefer (t : InstructionTable) (rooms : List Room) (nodes : List Node) (code : Bytes) :
    Prop :=
  ∃ ls, disassemble t code = some ls ∧
    List.Forall₂ (fun s call => ∃ e, t.entryAt? call.opcode.toNat = some e ∧
      e.instruction.name = s.instruction ∧ RoomOperands rooms e.instruction s call)
    (statementsOf nodes) (ls.filterMap fun l => l.op.call?)

section Compile

variable {ctx : Context} {p : Project} {name : String} {nodes : List Node} {code : Bytes}

theorem callsRefer_of_accepts (hs : ctx.Sound) (hrooms : ctx.rooms = p.directory)
    (hlen : p.rooms.length ≤ 256) (hentrances : ∀ room ∈ p.rooms, room.entrances.length ≤ 256)
    (h : (compile ctx name nodes).Accepts code) :
    CallsRefer ctx.instructions p.rooms nodes code := by
  have hr : ResolvedAll ctx nodes := resolvedAll_of_accepts h
  obtain ⟨rfl, hsize⟩ := result_compile_eq_ok_iff.mp h.1
  refine ⟨_, disassemble_bytecode hs hsize, ?_⟩
  rw [filterMap_call?_listing]
  exact forall₂_filterMap fun s hmem => Statement.exists_roomOperands hrooms hs hlen hentrances
    (problems_eq_nil_of_mem_statementsOf hr hmem)

end Compile

end Script

/-! ## Records of rooms -/

namespace Project

/-- The resources that the record of a room leads to. -/
structure RoomReferences (p : Project) (e : Encoding) (image : Image) (room : Room)
    (record : Bytes) : Prop where
  scene : ∃ b, RoomRecord.scene? record = some b ∧ p.scenes[b.toNat]? = some room.scene
  entity : ∀ (k : Nat) (placed : PlacedEntity), room.entities[k]? = some placed →
    ∃ b entry address, RoomRecord.entity? record k = some b ∧
      p.entities[b.toNat]? = some entry ∧ entry.name = placed.entity ∧
      image.itemAddress? "Project.EntityList" b.toNat = some address ∧
      image.read? address (entry.encode p.entryContext).length =
        some (entry.encode p.entryContext)
  scriptCount_eq : RoomRecord.scriptCount record = room.allScripts.length
  trigger : ∀ (k : Nat) (t : ScriptTrigger), room.scriptTriggers[k]? = some t →
    ∃ b script, RoomRecord.triggerScript? record k = some b ∧
      room.allScripts[b.toNat % 128]? = some script ∧ script.name = t.script ∧
      (128 ≤ b.toNat ↔ t.once = true)
  script : ∀ (k : Nat) (script : RoomScript), room.allScripts[k]? = some script →
    Script.CallsRefer e.instructions p.rooms script.nodes (RoomRecord.scriptCode record k)

section References

variable {p : Project} {e : Encoding}

/-- A name stands for the index of a resource that has it, and the index fits into one byte. -/
theorem getElem?_of_indexed {names : List String} {name : String} (hlen : names.length ≤ 256)
    (h : name ∈ names) :
    names[(byte ((NameIndex.get? ⟨names⟩ name).getD 0)).toNat]? = some name := by
  obtain ⟨i, hi⟩ := exists_findIdx?_of_mem h
  have hget := getElem?_of_findIdx? hi
  have hlt := (List.getElem?_eq_some_iff.mp hget).1
  rw [NameIndex.get?, hi, Option.getD_some, toNat_byte_of_lt (by omega)]
  exact hget

theorem Accepted.exists_encoded (h : p.Accepted e) {i : Nat} {room : Room}
    (hi : p.rooms[i]? = some room) : ∃ record scope codes, e.rooms[i]? = some record ∧
      Room.Encoded (p.roomContext e.instructions) room scope codes record := by
  obtain ⟨record, hrecord, haccepts⟩ := exists_getElem?_of_forall₂ h.rooms hi
  obtain ⟨scope, codes, hencoded⟩ := Room.exists_encoded haccepts
  exact ⟨record, scope, codes, hrecord, hencoded⟩

theorem Accepted.entrances_le (h : p.Accepted e) {room : Room} (hmem : room ∈ p.rooms) :
    room.entrances.length ≤ 256 := by
  obtain ⟨i, hi⟩ := List.mem_iff_getElem?.mp hmem
  obtain ⟨record, scope, codes, -, hencoded⟩ := h.exists_encoded hi
  have hle := hencoded.lawful.entrances_le
  omega

theorem Decodes.entity {image : Image} (hd : p.Decodes e image) (h : p.Accepted e) {i : Nat}
    {entry : Entry} (hi : p.entities[i]? = some entry) :
    ∃ address, image.itemAddress? "Project.EntityList" i = some address ∧
      image.read? address (entry.encode p.entryContext).length =
        some (entry.encode p.entryContext) := by
  have hmem : ("Project.EntityList", e.entities) ∈ p.tables e := by simp [tables]
  have hitem : e.entities[i]? = some (entry.encode p.entryContext) := by
    rw [h.entities.1, List.getElem?_map, hi, Option.map_some]
  obtain ⟨address, hentry, hread⟩ := hd.entry _ hmem i _ hitem
  exact ⟨address, hentry, hread (by simp [Entry.encode])⟩

variable {room : Room} {scope : Scope} {codes : List Bytes} {record : Bytes} {image : Image}

theorem Accepted.callsRefer (h : p.Accepted e)
    (hr : Room.Encoded (p.roomContext e.instructions) room scope codes record) {k : Nat}
    {script : RoomScript} (hk : room.allScripts[k]? = some script) :
    Script.CallsRefer e.instructions p.rooms script.nodes (RoomRecord.scriptCode record k) := by
  obtain ⟨code, hcode, haccepts⟩ := exists_getElem?_of_forall₂ hr.forall₂_codes hk
  obtain ⟨flags, words, hflags, -, rfl⟩ := Scope.result_build_eq_ok_iff.mp hr.locals.1
  have hsound : (room.scriptContext (p.roomContext e.instructions)
      ⟨room.name, flags, words⟩).Sound := Script.Context.sound_of_build h.instructions.1 hflags
  rw [hr.scriptCode_eq hcode]
  exact Script.callsRefer_of_accepts hsound rfl
    (h.size_le (.room, p.rooms.length) (by simp [indexedLists]))
    (fun room hmem => h.entrances_le hmem) haccepts

theorem Accepted.roomReferences (h : p.Accepted e) (hd : p.Decodes e image)
    (hr : Room.Encoded (p.roomContext e.instructions) room scope codes record) :
    p.RoomReferences e image room record := by
  have hlawful := hr.lawful
  refine ⟨⟨_, hr.scene?_eq, ?_⟩, fun k placed hk => ?_, ?_, fun k t hk => ?_,
    fun k script hk => h.callsRefer hr hk⟩
  · have hlen := h.size_le (.scene, p.scenes.length) (by simp [indexedLists])
    exact getElem?_of_indexed hlen hlawful.scene
  · have hlen : (p.entities.map Entry.name).length ≤ 256 := by
      rw [List.length_map]
      exact h.size_le (.entity, p.entities.length) (by simp [indexedLists])
    have hget := getElem?_of_indexed hlen
      (hlawful.entities_known placed (List.mem_of_getElem? hk))
    rw [List.getElem?_map] at hget
    obtain ⟨entry, hentry, hname⟩ := Option.map_eq_some_iff.mp hget
    obtain ⟨address, haddress, hread⟩ := hd.entity h hentry
    exact ⟨_, entry, address, hr.entity?_eq hk, hentry, hname, haddress, hread⟩
  · rw [hr.scriptCount_eq, hr.length_codes, Room.scriptNames, List.length_map]
  · obtain ⟨i, hi⟩ := (hlawful.triggers t (List.mem_of_getElem? hk)).exists_scriptIndex?
    have hget := getElem?_of_findIdx? hi
    rw [Room.scriptNames, List.getElem?_map] at hget
    obtain ⟨script, hscript, hname⟩ := Option.map_eq_some_iff.mp hget
    have hlt := lt_of_findIdx? hi
    have hle := hr.scriptNames_le
    obtain ⟨hlow, htop⟩ := Room.triggerScript_eq (k := i) (by omega) t.once
    refine ⟨_, script, ?_, ?_, hname, htop⟩
    · rw [hr.triggerScript?_eq hk, Room.triggerBytes, hi]
      rfl
    · rw [hlow]
      exact hscript

/-- **Every index in the record of a room names the resource that the room names.** -/
theorem compile_references {path : String} {c : Compiled}
    (h : (p.compile path).result = .ok c) :
    ∃ e, p.encode.result = .ok e ∧ ∀ (i : Nat) (room : Room), p.rooms[i]? = some room →
      ∃ address record, c.image.itemAddress? "Project.RoomList" i = some address ∧
        c.image.read? address record.length = some record ∧
        p.RoomReferences e c.image room record := by
  obtain ⟨e, he, hd⟩ := exists_decodes h
  have haccepted := accepted_of_encode he
  refine ⟨e, he.1, fun i room hi => ?_⟩
  obtain ⟨record, scope, codes, hrecord, hr⟩ := haccepted.exists_encoded hi
  have hmem : ("Project.RoomList", e.rooms) ∈ p.tables e := by simp [tables]
  obtain ⟨address, hentry, hread⟩ := hd.entry _ hmem i record hrecord
  have hne : record ≠ [] := by
    rw [hr.record_eq]
    simp [Room.header]
  exact ⟨address, record, hentry, hread hne, haccepted.roomReferences hd hr⟩

theorem references_sampleProject : ∃ c e, (sampleProject.compile "town.bin").result = .ok c ∧
    ∃ address record, c.image.itemAddress? "Project.RoomList" 0 = some address ∧
      c.image.read? address record.length = some record ∧
      sampleProject.RoomReferences e c.image sampleRoom record := by
  obtain ⟨c, hc⟩ := exists_compile_sampleProject
  obtain ⟨e, -, hall⟩ := compile_references hc
  exact ⟨c, e, hc, hall 0 sampleRoom rfl⟩

end References

end Project

end Cartridge
