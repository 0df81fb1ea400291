import Cartridge.Project.Compile
import Cartridge.Proofs.Outcome
import Cartridge.Proofs.Resource.Names

/-!
# Projects that are compiled

A project is compiled only if nothing in it is in error (`compile_eq_ok`).  `Project.Accepted` holds
what has been checked then, resource by resource, and what each list was encoded to.
-/

namespace Cartridge

namespace Project

/-- What the entries of a project refer to. -/
def entryContext (p : Project) : EntryContext :=
  ⟨(StructTable.resolve p.structs).value, p.functionTables, p.frameSets⟩

/-- The records of entries, which are encoded without an error. -/
def EntriesAccepted (p : Project) (kind : ResourceKind) (entries : List Entry)
    (records : List Bytes) : Prop :=
  records = entries.map (Entry.encode p.entryContext) ∧
    (encodeEntries p.entryContext kind entries).report.hasErrors = false

/-- What is known of a project that is encoded without an error. -/
structure Accepted (p : Project) (e : Encoding) : Prop where
  instructions : (InstructionTable.build p.instructions VariableKind.flag.capacity).Accepts
    e.instructions
  names : p.nameReport.hasErrors = false
  sizes : p.sizeReport.hasErrors = false
  gameState : (p.gameState.check p.roomNames).Accepts ()
  structs : (StructTable.resolve p.structs).report.hasErrors = false
  functionTables : (FunctionTable.review p.functionTables p.entryContext.structs
    p.exportOrders).hasErrors = false
  frameSets : (FrameSet.review p.frameSets p.exportOrders).hasErrors = false
  entities : p.EntriesAccepted .entity p.entities e.entities
  projectiles : p.EntriesAccepted .projectile p.projectiles e.projectiles
  players : p.EntriesAccepted .player p.players e.players
  firstRooms : List.Forall₂
    (fun room record => (room.encode (p.roomContext e.instructions)).Accepts record)
    p.firstRooms e.rooms

variable {p : Project} {e : Encoding}

/-- A project is encoded without an error if and only if all of its resources are. -/
theorem accepts_encode_iff : p.encode.Accepts e ↔ p.Accepted e := by
  unfold encode
  simp only [Outcome.accepts_bind_iff, Outcome.accepts_lift_iff, Outcome.accepts_pure_iff]
  constructor
  · rintro ⟨instructions, hinstructions, -, -, -, ⟨-, hnames⟩, _, hstate, structs,
      ⟨rfl, hstructs⟩, -, ⟨-, hfunctions⟩, -, ⟨-, hframes⟩, entities, ⟨hentities, hentitiesOk⟩,
      projectiles, ⟨hprojectiles, hprojectilesOk⟩, players, ⟨hplayers, hplayersOk⟩, -, -, rooms,
      hrooms, -, -, rfl⟩
    obtain ⟨hnames, hsizes⟩ := Report.hasErrors_append_eq_false_iff.mp hnames
    exact ⟨hinstructions, hnames, hsizes, hstate, hstructs, hfunctions, hframes,
      ⟨hentities.symm, hentitiesOk⟩, ⟨hprojectiles.symm, hprojectilesOk⟩,
      ⟨hplayers.symm, hplayersOk⟩, Outcome.accepts_mapM_iff.mp hrooms⟩
  · intro h
    have hnames := Report.hasErrors_append_eq_false_iff.mpr ⟨h.names, h.sizes⟩
    refine ⟨e.instructions, h.instructions, (), ⟨trivial, rfl⟩, (), ⟨trivial, hnames⟩, (),
      h.gameState, _, ⟨rfl, h.structs⟩, (), ⟨trivial, h.functionTables⟩, (),
      ⟨trivial, h.frameSets⟩, e.entities, ?_, e.projectiles, ?_, e.players, ?_, (),
      ⟨trivial, rfl⟩, e.rooms, Outcome.accepts_mapM_iff.mpr h.firstRooms, (), ⟨trivial, rfl⟩, rfl⟩
    · exact ⟨h.entities.1.symm, h.entities.2⟩
    · exact ⟨h.projectiles.1.symm, h.projectiles.2⟩
    · exact ⟨h.players.1.symm, h.players.2⟩

theorem accepted_of_encode (h : p.encode.Accepts e) : p.Accepted e := accepts_encode_iff.mp h

theorem place_eq_ok {path : String} {image : Image} (h : (p.place e path).result = .ok image) :
    ∃ w, (Writer.new p.map).performAll (p.requests e) = (.ok (), w) ∧
      w.finish path = .ok image := by
  unfold place at h
  rcases hw : (Writer.new p.map).performAll (p.requests e) with ⟨answer, w⟩
  rw [hw] at h
  obtain ⟨-, -, h⟩ := Outcome.result_bind_eq_ok_iff.mp h
  cases answer with
  | error cause => exact absurd h (by simp)
  | ok answer =>
    refine ⟨w, rfl, ?_⟩
    simp only at h
    cases hf : w.finish path with
    | error cause =>
      rw [hf] at h
      exact absurd h (by simp)
    | ok found =>
      rw [hf] at h
      rw [Except.ok.inj h]

/-- A project that is compiled was encoded without an error, and its encoding was placed. -/
theorem compile_eq_ok {path : String} {c : Compiled} (h : (p.compile path).result = .ok c) :
    p.map.Valid ∧ ∃ e, p.encode.Accepts e ∧ (p.place e path).result = .ok c.image := by
  unfold compile at h
  cases hmap : p.map.check with
  | error cause =>
    rw [hmap] at h
    simp at h
  | ok answer =>
    refine ⟨MemoryMap.check_eq_ok_iff.mp hmap, ?_⟩
    rw [hmap] at h
    obtain ⟨-, -, h⟩ := Outcome.result_bind_eq_ok_iff.mp h
    obtain ⟨-, -, h⟩ := Outcome.result_bind_eq_ok_iff.mp h
    obtain ⟨e, he, h⟩ := Outcome.result_bind_eq_ok_iff.mp h
    split at h
    · obtain ⟨-, -, h⟩ := Outcome.result_bind_eq_ok_iff.mp h
      simp at h
    next herrors =>
      rw [Bool.not_eq_true] at herrors
      obtain ⟨-, -, h⟩ := Outcome.result_bind_eq_ok_iff.mp h
      obtain ⟨image, himage, h⟩ := Outcome.result_bind_eq_ok_iff.mp h
      obtain ⟨-, -, h⟩ := Outcome.result_bind_eq_ok_iff.mp h
      obtain ⟨-, -, h⟩ := Outcome.result_bind_eq_ok_iff.mp h
      obtain rfl := Except.ok.inj h
      exact ⟨e, ⟨he, herrors⟩, himage⟩

/-- No room name is repeated, so every room is encoded. -/
theorem firstRooms_eq (h : p.roomNames.Nodup) : p.firstRooms = p.rooms := by
  have hfirsts : p.firstRooms = firsts Room.name [] p.rooms := filterMap_isRepeated_eq_firsts
  rw [hfirsts]
  exact firsts_eq_self h fun _ _ => List.not_mem_nil

theorem hasErrors_sizeReport_eq_false_iff : p.sizeReport.hasErrors = false ↔
    ∀ l ∈ p.indexedLists, l.2 ≤ 256 := by
  have hmax : maxListSize = 256 := rfl
  rw [sizeReport, Report.hasErrors, List.any_eq_false]
  constructor
  · rintro h ⟨kind, size⟩ hmem
    by_contra hc
    have hlarge : size > maxListSize := by
      simp only at hc
      omega
    exact h _ (List.mem_filterMap.mpr ⟨(kind, size), hmem, if_pos hlarge⟩) rfl
  · intro h d hd
    obtain ⟨⟨kind, size⟩, hmem, hsome⟩ := List.mem_filterMap.mp hd
    have hle := h _ hmem
    have hsmall : ¬ size > maxListSize := by
      simp only at hle
      omega
    dsimp only at hsome
    rw [if_neg hsmall] at hsome
    exact absurd hsome (by simp)

theorem Accepted.size_le (h : p.Accepted e) : ∀ l ∈ p.indexedLists, l.2 ≤ 256 :=
  hasErrors_sizeReport_eq_false_iff.mp h.sizes

theorem Accepted.roomNames_nodup (h : p.Accepted e) : p.roomNames.Nodup := by
  have hnames := h.names
  rw [nameReport, Report.hasErrors_append_eq_false_iff] at hnames
  exact (NameIndex.hasErrors_review_eq_false_iff.mp hnames.2).2

/-- The rooms of an accepted project are encoded one by one. -/
theorem Accepted.rooms (h : p.Accepted e) : List.Forall₂
    (fun room record => (room.encode (p.roomContext e.instructions)).Accepts record)
    p.rooms e.rooms := by
  have hrooms := h.firstRooms
  rw [firstRooms_eq h.roomNames_nodup] at hrooms
  exact hrooms

/-! ## A small project -/

section Sample

def sampleRoom : Room where
  name := "town"
  scene := "outside"
  width := 2
  height := 1
  tiles := [7, 8]
  entrances := [⟨"gate", 1, 2, 3⟩]
  entityGroups := [⟨"all", [⟨"door", 16, 4, 0⟩]⟩]
  scriptTriggers := [⟨"leave", 0, 0, 1, 1, true⟩]
  temporaryFlags := []
  temporaryWords := []
  startupScript := []
  scripts := [⟨"leave", [.statement ⟨"load_room", ["town", "gate"]⟩]⟩]

/-- Two palettes share their data. -/
def sampleProject : Project where
  memoryMap := some ⟨.low, 0x80, 1⟩
  constants := []
  instructions := []
  gameState := .empty
  structs := []
  functionTables := [⟨"doors", none, "still"⟩]
  exportOrders := [⟨"still", ["front"]⟩]
  frameSets := [⟨"props", "still", ["front"], 1, [1, 2]⟩]
  entities := [⟨"door", "doors", "props", 0, "front", []⟩]
  projectiles := []
  players := []
  palettes := [⟨"day", [1, 2]⟩, ⟨"night", [1, 2]⟩]
  tilesets := []
  scenes := ["outside"]
  rooms := [sampleRoom]
  tileData := some ⟨0, [5, 5]⟩

theorem exists_compile_sampleProject :
    ∃ c, (sampleProject.compile "town.bin").result = .ok c := by
  have hok : (sampleProject.compile "town.bin").result.isOk = true := by decide +kernel
  exact Outcome.exists_result_eq_ok hok

end Sample

end Project

end Cartridge
