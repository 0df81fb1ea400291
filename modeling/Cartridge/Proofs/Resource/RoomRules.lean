import Cartridge.Proofs.Resource.Names
import Cartridge.Resource.Room

/-!
# Rules for rooms

What has to hold of the map of a room and of what is placed in it (`Room.Lawful`).  Nothing is found
in a room if and only if it keeps these rules (`findings_eq_nil_iff`).
-/

namespace Cartridge

namespace Room

/-! ## The rules -/

section Rules

variable (room : Room)

/-- The pixel is in the map. -/
def Inside (x y : UInt16) : Prop := x.toNat < 16 * room.width ∧ y.toNat < 16 * room.height

/-- The rectangle is not empty and lies in the map, and the script is one of the room. -/
structure Triggers (t : ScriptTrigger) : Prop where
  columns : t.left.toNat < t.right.toNat ∧ t.right.toNat ≤ room.width
  rows : t.top.toNat < t.bottom.toNat ∧ t.bottom.toNat ≤ room.height
  script : t.script ∈ "startup" :: room.scripts.map RoomScript.name

/-- The rules for the map and for what is placed in it, among the names of a project. -/
structure Lawful (scenes entities : List String) (room : Room) : Prop where
  width : 1 ≤ room.width ∧ room.width ≤ 255
  height : 1 ≤ room.height ∧ room.height ≤ 255
  scene : room.scene ∈ scenes
  groups : ProperNames (room.entityGroups.map EntityGroup.name)
  groups_le : room.entityGroups.length ≤ 8
  triggers_le : room.scriptTriggers.length ≤ 16
  triggers : ∀ t ∈ room.scriptTriggers, room.Triggers t
  tiles : room.tiles.length = room.width * room.height
  entrances : ProperNames (room.entrances.map Entrance.name)
  entrances_le : room.entrances.length ≤ 32
  entrances_inside : ∀ e ∈ room.entrances, room.Inside e.x e.y
  entities_le : room.entities.length ≤ 64
  entities_known : ∀ e ∈ room.entities, e.entity ∈ entities
  entities_inside : ∀ e ∈ room.entities, room.Inside e.x e.y
  /-- No script is called like the startup script. -/
  scripts : ProperNames ("startup" :: room.scripts.map RoomScript.name)
  scripts_le : room.scripts.length + 1 ≤ 64

end Rules

/-! ## Findings -/

section Findings

variable {ctx : RoomContext} {room : Room}

theorem countFindings_eq_nil_iff {collection : String} {count max : Nat} :
    countFindings collection count max = [] ↔ count ≤ max := by
  unfold countFindings
  split
  · exact ⟨fun h => absurd h (by simp), fun h => absurd h (by omega)⟩
  · exact ⟨fun _ => by omega, fun _ => rfl⟩

theorem foundAt_eq_nil_iff {place : Place} {problems : List Problem} :
    foundAt place problems = [] ↔ problems = [] := List.map_eq_nil_iff

theorem sideFindings_eq_nil_iff {which : String} {size : Nat} :
    sideFindings which size = [] ↔ 0 < size ∧ size ≤ maxSide := by
  unfold sideFindings
  split
  · exact ⟨fun h => absurd h (by simp), fun h => by omega⟩
  · exact ⟨fun _ => by omega, fun _ => rfl⟩

theorem nameFindings_eq_nil_iff {collection : String} {names : List String} :
    nameFindings collection names = [] ↔ ProperNames names := by
  have hall := @forall_zipIdx_isRepeated_iff String id names (Text.isName · = true)
  rw [List.map_id] at hall
  rw [nameFindings, List.flatMap_eq_nil_iff]
  have hproblems : ∀ (i : Nat) (name : String),
      foundAt (.item i) ((if Text.isName name then [] else [.invalidName collection name]) ++
        if isRepeated names i name then [.duplicateName collection name] else []) = [] ↔
      Text.isName name = true ∧ isRepeated names i name = false := by
    intro i name
    rw [foundAt_eq_nil_iff, List.append_eq_nil_iff]
    simp
  constructor
  · intro h
    obtain ⟨hvalid, hnodup⟩ := hall.mp fun x hx => (hproblems x.2 x.1).mp (h x hx)
    exact ⟨hvalid, hnodup⟩
  · intro h x hx
    exact (hproblems x.2 x.1).mpr (hall.mpr ⟨h.valid, h.nodup⟩ x hx)

/-- What is found at the items of a list. -/
theorem zipIdx_foundAt_eq_nil_iff {α : Type} {xs : List α} {problems : α → List Problem} :
    (xs.zipIdx.flatMap fun x => foundAt (.item x.2) (problems x.1)) = [] ↔
      ∀ x ∈ xs, problems x = [] := by
  rw [List.flatMap_eq_nil_iff]
  constructor
  · intro h x hx
    obtain ⟨i, hi⟩ := List.mem_iff_getElem?.mp hx
    exact foundAt_eq_nil_iff.mp (h (x, i) (List.mem_zipIdx_iff_getElem?.mpr hi))
  · rintro h ⟨x, i⟩ hmem
    exact foundAt_eq_nil_iff.mpr (h x (List.mem_of_getElem? (List.mem_zipIdx_iff_getElem?.mp hmem)))

theorem containsPixel_iff {x y : UInt16} : room.containsPixel x y = true ↔ room.Inside x y := by
  have htile : tileSize = 16 := rfl
  simp only [containsPixel, Inside, htile, Bool.and_eq_true, decide_eq_true_eq,
    Nat.mul_comm 16]

theorem scriptNames_eq : room.scriptNames = "startup" :: room.scripts.map RoomScript.name := rfl

theorem Triggers.exists_scriptIndex? {t : ScriptTrigger} (h : room.Triggers t) :
    ∃ k, room.scriptIndex? t = some k :=
  exists_findIdx?_of_mem h.script

theorem triggerProblems_eq_nil_iff {t : ScriptTrigger} :
    room.triggerProblems t = [] ↔ room.Triggers t := by
  have hscript : (room.scriptIndex? t).isSome = true ↔
      t.script ∈ "startup" :: room.scripts.map RoomScript.name := by
    rw [Option.isSome_iff_exists, ← scriptNames_eq]
    constructor
    · rintro ⟨i, hi⟩
      exact List.mem_of_getElem? (getElem?_of_findIdx? hi)
    · exact exists_findIdx?_of_mem
  rw [triggerProblems, List.append_eq_nil_iff, ite_eq_right_iff, ite_eq_left_iff]
  simp only [List.cons_ne_nil, imp_false, not_not, hscript, not_or, ge_iff_le, UInt8.not_le,
    UInt8.lt_iff_toNat_lt, gt_iff_lt, Nat.not_lt]
  constructor
  · rintro ⟨⟨hleft, htop, hright, hbottom⟩, hscript⟩
    exact ⟨⟨hleft, hright⟩, ⟨htop, hbottom⟩, hscript⟩
  · intro h
    exact ⟨⟨h.columns.1, h.rows.1, h.columns.2, h.rows.2⟩, h.script⟩

theorem headerFindings_eq_nil_iff : room.headerFindings ctx = [] ↔
    (1 ≤ room.width ∧ room.width ≤ 255) ∧ (1 ≤ room.height ∧ room.height ≤ 255) ∧
      room.scene ∈ ctx.scenes.names ∧ ProperNames (room.entityGroups.map EntityGroup.name) ∧
      room.entityGroups.length ≤ 8 ∧ room.scriptTriggers.length ≤ 16 ∧
      ∀ t ∈ room.scriptTriggers, room.Triggers t := by
  have hscene : (if ctx.scenes.contains room.scene then []
      else [((.whole, .unknownScene room.scene) : Finding)]) = [] ↔
      room.scene ∈ ctx.scenes.names := by
    rw [ite_eq_left_iff, NameIndex.contains, ← List.contains_iff_mem]
    simp
  have htriggers : room.scriptTriggers.length ≤ 16 →
      (((room.scriptTriggers.take maxTriggers).zipIdx.flatMap fun x =>
        foundAt (.item x.2) (room.triggerProblems x.1)) = [] ↔
      ∀ t ∈ room.scriptTriggers, room.Triggers t) := by
    intro hle
    have htake : room.scriptTriggers.take maxTriggers = room.scriptTriggers :=
      List.take_of_length_le hle
    rw [htake]
    have hall := @zipIdx_foundAt_eq_nil_iff ScriptTrigger room.scriptTriggers room.triggerProblems
    simp only [triggerProblems_eq_nil_iff] at hall
    exact hall
  rw [headerFindings]
  simp only [List.append_eq_nil_iff, sideFindings_eq_nil_iff, hscene, nameFindings_eq_nil_iff,
    countFindings_eq_nil_iff]
  constructor
  · rintro ⟨⟨⟨⟨⟨⟨hwidth, hheight⟩, hscene⟩, hgroups⟩, hgroupsLe⟩, htriggersLe⟩, hrules⟩
    exact ⟨hwidth, hheight, hscene, hgroups, hgroupsLe, htriggersLe,
      (htriggers htriggersLe).mp hrules⟩
  · rintro ⟨hwidth, hheight, hscene, hgroups, hgroupsLe, htriggersLe, hrules⟩
    exact ⟨⟨⟨⟨⟨⟨hwidth, hheight⟩, hscene⟩, hgroups⟩, hgroupsLe⟩, htriggersLe⟩,
      (htriggers htriggersLe).mpr hrules⟩

/-- A map within the limits is written with all of its tiles. -/
theorem tileCount_eq (hwidth : room.width ≤ 255) (hheight : room.height ≤ 255) :
    room.tileCount = room.width * room.height := by
  have hside : maxSide = 255 := rfl
  rw [tileCount, writtenWidth, writtenHeight, hside, Nat.min_eq_left hwidth,
    Nat.min_eq_left hheight]

theorem mapFindings_eq_nil_iff (hwidth : room.width ≤ 255) (hheight : room.height ≤ 255) :
    room.mapFindings = [] ↔ room.tiles.length = room.width * room.height := by
  rw [mapFindings, ite_eq_left_iff, tileCount_eq hwidth hheight]
  simp

theorem Lawful.length_tiles {scenes entities : List String} (h : room.Lawful scenes entities) :
    room.tiles.length = room.tileCount := by
  rw [tileCount_eq h.width.2 h.height.2]
  exact h.tiles

theorem entranceFindings_eq_nil_iff : room.entranceFindings = [] ↔
    ProperNames (room.entrances.map Entrance.name) ∧ room.entrances.length ≤ 32 ∧
      ∀ e ∈ room.entrances, room.Inside e.x e.y := by
  have hall := @zipIdx_foundAt_eq_nil_iff Entrance room.entrances
    fun e => if room.containsPixel e.x e.y then [] else [.entranceOutside e.name]
  simp only [ite_eq_left_iff, List.cons_ne_nil, imp_false, not_not, containsPixel_iff] at hall
  rw [entranceFindings, List.append_eq_nil_iff, List.append_eq_nil_iff, nameFindings_eq_nil_iff,
    countFindings_eq_nil_iff, and_assoc, ← hall]
  rfl

theorem entityFindings_eq_nil_iff : room.entityFindings ctx = [] ↔
    room.entities.length ≤ 64 ∧
      ∀ e ∈ room.entities, e.entity ∈ ctx.entities.names ∧ room.Inside e.x e.y := by
  have hall := @zipIdx_foundAt_eq_nil_iff PlacedEntity room.entities (room.entityProblems ctx)
  have hproblems : ∀ e : PlacedEntity, room.entityProblems ctx e = [] ↔
      e.entity ∈ ctx.entities.names ∧ room.Inside e.x e.y := by
    intro e
    rw [entityProblems, List.append_eq_nil_iff, ite_eq_left_iff, ite_eq_left_iff,
      NameIndex.contains, List.contains_iff_mem]
    simp only [List.cons_ne_nil, imp_false, not_not, containsPixel_iff]
  simp only [hproblems] at hall
  rw [entityFindings, List.append_eq_nil_iff, countFindings_eq_nil_iff, ← hall]
  rfl

theorem scriptFindings_eq_nil_iff : room.scriptFindings = [] ↔
    ProperNames ("startup" :: room.scripts.map RoomScript.name) ∧
      room.scripts.length + 1 ≤ 64 := by
  rw [scriptFindings, List.append_eq_nil_iff, nameFindings_eq_nil_iff, countFindings_eq_nil_iff,
    scriptNames_eq, List.length_cons, List.length_map]
  rfl

/-- Nothing is found in a room if and only if it keeps the rules. -/
theorem findings_eq_nil_iff :
    room.headerFindings ctx ++ room.mapFindings ++ room.entranceFindings ++
      room.entityFindings ctx ++ room.scriptFindings = [] ↔
    room.Lawful ctx.scenes.names ctx.entities.names := by
  simp only [List.append_eq_nil_iff, headerFindings_eq_nil_iff, entranceFindings_eq_nil_iff,
    entityFindings_eq_nil_iff, scriptFindings_eq_nil_iff]
  constructor
  · rintro ⟨⟨⟨⟨⟨hwidth, hheight, hscene, hgroups, hgroupsLe, htriggersLe, htriggers⟩, hmap⟩,
      hentrances, hentrancesLe, hinside⟩, hentitiesLe, hentities⟩, hscripts, hscriptsLe⟩
    exact ⟨hwidth, hheight, hscene, hgroups, hgroupsLe, htriggersLe, htriggers,
      (mapFindings_eq_nil_iff hwidth.2 hheight.2).mp hmap, hentrances, hentrancesLe, hinside,
      hentitiesLe, fun e he => (hentities e he).1, fun e he => (hentities e he).2, hscripts,
      hscriptsLe⟩
  · intro h
    have hmap := (mapFindings_eq_nil_iff h.width.2 h.height.2).mpr h.tiles
    exact ⟨⟨⟨⟨⟨h.width, h.height, h.scene, h.groups, h.groups_le, h.triggers_le, h.triggers⟩,
      hmap⟩, h.entrances, h.entrances_le, h.entrances_inside⟩, h.entities_le,
      fun e he => ⟨h.entities_known e he, h.entities_inside e he⟩⟩, h.scripts, h.scripts_le⟩

end Findings

end Room

end Cartridge
