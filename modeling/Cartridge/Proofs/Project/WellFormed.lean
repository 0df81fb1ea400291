import Cartridge.Proofs.Instruction.Catalogue
import Cartridge.Proofs.Project.Acceptance
import Cartridge.Proofs.Resource.RoomAcceptance
import Cartridge.Proofs.Resource.Rules

/-!
# Well-formed projects

All rules for a project, in the terms of its declarations alone (`Project.WellFormed`).  A project
that keeps them is encoded without an error, and no other one is (`accepted_iff_wellFormed`).  What
else can stop a compilation is a failure of its own (`Failure.Immediate`).

Main statement: `compile_ok_iff_wellFormed`.
-/

namespace Cartridge

/-! ## Failures without a report -/

/-- The failure is not the summary of the errors that were reported. -/
def Failure.Immediate (f : Failure) : Prop := ∀ report, f ≠ .validation report

section Failures

open Failure

theorem InstructionTable.raises_build {project : List Instruction} {flags : Nat} :
    (build project flags).Raises Immediate := by
  refine (Outcome.raises_lift _).bind fun _ _ => Outcome.raises_check (fun _ => nofun) ?_
  exact (Outcome.raises_lift _).bind fun _ _ => Outcome.raises_pure _

theorem GameState.raises_check {state : GameState} {rooms : List String} :
    (state.check rooms).Raises Immediate := by
  have hkind : ∀ kind, (state.checkKind rooms kind).Raises Immediate := by
    intro kind
    exact Outcome.raises_check (fun _ => nofun) (Outcome.raises_lift _)
  exact (hkind .flag).bind fun _ _ => hkind .word

theorem Scope.raises_build {state : GameState} {room : String} {flags words : List String} :
    (build state room flags words).Raises Immediate := by
  have hkind : ∀ kind vs temporaries,
      (SlotTable.build kind vs room temporaries).Raises Immediate := by
    intro kind vs temporaries
    refine Outcome.raises_check (fun _ => nofun) ?_
    exact (Outcome.raises_lift _).bind fun _ _ => Outcome.raises_pure _
  exact (hkind .flag _ _).bind fun _ _ => (hkind .word _ _).bind fun _ _ => Outcome.raises_pure _

theorem Script.raises_compile {ctx : Context} {name : String} {nodes : List Node} :
    (compile ctx name nodes).Raises Immediate := by
  refine (Outcome.raises_lift _).bind fun _ _ => ?_
  exact Outcome.raises_check (fun _ => nofun) (Outcome.raises_pure _)

theorem Room.raises_encode {ctx : RoomContext} {room : Room} :
    (room.encode ctx).Raises Immediate := by
  refine Scope.raises_build.bind fun scope _ => (Outcome.raises_lift _).bind fun _ _ => ?_
  refine (Outcome.raises_mapM fun _ => Script.raises_compile).bind fun codes _ => ?_
  refine Outcome.raises_check (fun _ => nofun) ?_
  exact (Outcome.raises_lift _).bind fun _ _ => Outcome.raises_pure _

namespace Project

variable {p : Project} {e : Encoding} {path : String}

theorem raises_encode : p.encode.Raises Immediate := by
  unfold encode
  refine InstructionTable.raises_build.bind fun _ _ => (Outcome.raises_lift _).bind fun _ _ =>
    (Outcome.raises_lift _).bind fun _ _ => GameState.raises_check.bind fun _ _ => ?_
  -- everything up to the rooms is reported and does not fail
  iterate 7 refine (Outcome.raises_lift _).bind fun _ _ => ?_
  refine (Outcome.raises_mapM fun _ => Room.raises_encode).bind fun _ _ => ?_
  exact (Outcome.raises_lift _).bind fun _ _ => Outcome.raises_pure _

theorem raises_place : (p.place e path).Raises Immediate := by
  unfold place
  rcases (Writer.new p.map).performAll (p.requests e) with ⟨answer, w⟩
  refine (Outcome.raises_forIn fun event _ => ?_).bind fun _ _ => ?_
  · exact (Outcome.raises_lift _).bind fun _ _ => Outcome.raises_pure _
  · cases answer with
    | error cause => exact Outcome.raises_throw fun _ => nofun
    | ok answer =>
      dsimp only
      cases w.finish path with
      | error cause => exact Outcome.raises_throw fun _ => nofun
      | ok image => exact Outcome.raises_pure _

/-- Without errors in its encoding, a compilation does not end in the summary of a report. -/
theorem raises_compile
    (h : ∀ e, p.encode.result = .ok e → p.encode.report.hasErrors = false) :
    (p.compile path).Raises Immediate := by
  unfold compile
  dsimp only
  cases p.map.check with
  | error cause =>
    dsimp only
    rw [Outcome.throw_bind]
    exact Outcome.raises_throw fun _ => nofun
  | ok answer =>
    refine (Outcome.raises_lift _).bind fun _ _ => raises_encode.bind fun e he => ?_
    rw [h e he, if_neg Bool.false_ne_true]
    refine (Outcome.raises_lift _).bind fun _ _ => raises_place.bind fun image _ =>
      (Outcome.raises_lift _).bind fun _ _ => (Outcome.raises_forIn fun warning _ => ?_).bind
        fun _ _ => Outcome.raises_pure _
    exact (Outcome.raises_lift _).bind fun _ _ => Outcome.raises_pure _

theorem exists_encode_of_validation {report : Report}
    (h : (p.compile path).result = .error (.validation report)) :
    ∃ e, p.encode.result = .ok e ∧ p.encode.report.hasErrors = true := by
  by_contra hc
  have hquiet : ∀ e, p.encode.result = .ok e → p.encode.report.hasErrors = false := by
    intro e he
    by_contra herrors
    rw [Bool.not_eq_false] at herrors
    exact hc ⟨e, he, herrors⟩
  exact raises_compile hquiet _ h report rfl

end Project

end Failures

/-! ## The rules -/

namespace Project

/-- The rules for one room of a project. -/
structure RoomWellFormed (p : Project) (room : Room) : Prop where
  lawful : room.Lawful p.scenes (p.entities.map Entry.name)
  temporaries : room.NewTemporaries p.gameState
  scripts : ∀ s ∈ room.allScripts, ¬ Script.IllFormed (room.vocabulary
    (InstructionTable.declarations p.instructions) p.gameState p.directory.rooms) s.nodes

/-- The rules for a list of entries. -/
structure EntriesWellFormed (p : Project) (entries : List Entry) : Prop where
  names : ProperNames (entries.map Entry.name)
  lawful : ∀ e ∈ entries, e.Lawful p.structs p.functionTables p.frameSets

/-- The names of the resources are well formed and different. -/
structure Named (p : Project) : Prop where
  palettes : ProperNames (p.palettes.map BinaryResource.name)
  tilesets : ProperNames (p.tilesets.map BinaryResource.name)
  exportOrders : ProperNames (p.exportOrders.map ExportOrder.name)
  functionTables : ProperNames (p.functionTables.map FunctionTable.name)
  frameSets : ProperNames (p.frameSets.map FrameSet.name)
  scenes : ProperNames p.scenes
  rooms : ProperNames p.roomNames

/-- All rules for a project. -/
structure WellFormed (p : Project) : Prop where
  /-- A project does not declare an instruction that there is in every project. -/
  instructionNames : ((InstructionTable.declarations p.instructions).map Instruction.name).Nodup
  instructions : ∀ i ∈ p.instructions, i.Conforms
  gameState : p.gameState.WellFormed p.roomNames
  named : p.Named
  /-- Every resource of these lists has an index of one byte. -/
  sizes : ∀ l ∈ p.indexedLists, l.2 ≤ 256
  structs : StructTable.WellFormed p.structs
  functionTables : ∀ ft ∈ p.functionTables, ft.Lawful p.structs p.exportOrders
  frameSets : ∀ fs ∈ p.frameSets, fs.Lawful p.exportOrders
  entities : p.EntriesWellFormed p.entities
  projectiles : p.EntriesWellFormed p.projectiles
  players : p.EntriesWellFormed p.players
  rooms : ∀ room ∈ p.rooms, p.RoomWellFormed room

/-! ## Projects that are accepted -/

section Acceptance

variable {p : Project} {e : Encoding}

theorem hasErrors_nameReport_eq_false_iff : p.nameReport.hasErrors = false ↔ p.Named := by
  simp only [nameReport, Report.hasErrors_append_eq_false_iff,
    NameIndex.hasErrors_review_iff_properNames]
  constructor
  · rintro ⟨⟨⟨⟨⟨⟨hpalettes, htilesets⟩, horders⟩, htables⟩, hframes⟩, hscenes⟩, hrooms⟩
    exact ⟨hpalettes, htilesets, horders, htables, hframes, hscenes, hrooms⟩
  · intro h
    exact ⟨⟨⟨⟨⟨⟨h.palettes, h.tilesets⟩, h.exportOrders⟩, h.functionTables⟩, h.frameSets⟩,
      h.scenes⟩, h.rooms⟩

/-- What is known of a project that is encoded, with errors or without. -/
structure Encoded (p : Project) (e : Encoding) : Prop where
  instructions : (InstructionTable.build p.instructions VariableKind.flag.capacity).result =
    .ok e.instructions
  gameState : (p.gameState.check p.roomNames).result = .ok ()
  entities : e.entities = p.entities.map (Entry.encode p.entryContext)
  projectiles : e.projectiles = p.projectiles.map (Entry.encode p.entryContext)
  players : e.players = p.players.map (Entry.encode p.entryContext)
  firstRooms : List.Forall₂
    (fun room record => (room.encode (p.roomContext e.instructions)).result = .ok record)
    p.firstRooms e.rooms

theorem encoded_of_encode (h : p.encode.result = .ok e) : p.Encoded e := by
  unfold encode at h
  simp only [Outcome.result_bind_eq_ok_iff, Outcome.result_lift, Outcome.result_pure,
    Except.ok.injEq] at h
  obtain ⟨instructions, hinstructions, -, -, -, -, _, hstate, structs, rfl, -, -, -, -, entities,
    hentities, projectiles, hprojectiles, players, hplayers, -, -, rooms, hrooms, -, -, rfl⟩ := h
  exact ⟨hinstructions, hstate, hentities.symm, hprojectiles.symm, hplayers.symm,
    Outcome.result_mapM_eq_ok_iff.mp hrooms⟩

theorem resolved_entryContext (hstructs : StructTable.WellFormed p.structs) (hnamed : p.Named)
    (htables : ∀ ft ∈ p.functionTables, ft.Lawful p.structs p.exportOrders) :
    p.entryContext.Resolved p.structs p.exportOrders :=
  ⟨hstructs, rfl, hnamed.functionTables.nodup, htables, hnamed.frameSets.nodup⟩

theorem entriesAccepted_iff {kind : ResourceKind} {entries : List Entry} {records : List Bytes}
    (hctx : p.entryContext.Resolved p.structs p.exportOrders)
    (hrecords : records = entries.map (Entry.encode p.entryContext)) :
    p.EntriesAccepted kind entries records ↔ p.EntriesWellFormed entries := by
  rw [EntriesAccepted, and_iff_right hrecords, Entry.hasErrors_encodeEntries_eq_false_iff hctx]
  constructor
  · rintro ⟨hnames, hlawful⟩
    exact ⟨hnames, hlawful⟩
  · intro hw
    exact ⟨hw.names, hw.lawful⟩

variable (h : p.Encoded e)
include h

theorem Encoded.instructions_accepts_iff :
    (InstructionTable.build p.instructions VariableKind.flag.capacity).Accepts e.instructions ↔
      ((InstructionTable.declarations p.instructions).map Instruction.name).Nodup ∧
        ∀ i ∈ p.instructions, i.Conforms := by
  rw [Outcome.accepts_iff_of_result h.instructions, InstructionTable.report_build,
    InstructionTable.hasErrors_report_eq_false_iff]

theorem Encoded.gameState_accepts_iff :
    (p.gameState.check p.roomNames).Accepts () ↔ p.gameState.WellFormed p.roomNames := by
  rw [GameState.accepts_check_iff]
  exact and_iff_right (GameState.result_check_eq_ok_iff.mp h.gameState)

/-- The instructions of a project without errors are its declarations. -/
theorem Encoded.instructions_eq
    (hnames : ((InstructionTable.declarations p.instructions).map Instruction.name).Nodup)
    (hinstructions : ∀ i ∈ p.instructions, i.Conforms) :
    e.instructions.instructions = InstructionTable.declarations p.instructions := by
  obtain ⟨-, heq⟩ := InstructionTable.result_build_eq_ok_iff.mp h.instructions
  rw [heq, InstructionTable.instructions, InstructionTable.map_instruction_layOut,
    InstructionTable.accepted_eq_declarations hnames hinstructions]

/-- A room is encoded without an error if and only if it keeps the rules for rooms. -/
theorem Encoded.room_accepts_iff {room : Room} {record : Bytes}
    (hnames : ((InstructionTable.declarations p.instructions).map Instruction.name).Nodup)
    (hinstructions : ∀ i ∈ p.instructions, i.Conforms)
    (hstate : p.gameState.WellFormed p.roomNames)
    (hrecord : (room.encode (p.roomContext e.instructions)).result = .ok record) :
    (room.encode (p.roomContext e.instructions)).Accepts record ↔ p.RoomWellFormed room := by
  have htable := h.instructions_eq hnames hinstructions
  have hlaidOut := InstructionTable.laidOut_of_build h.instructions
  have hglobals : ∀ kind, ((p.gameState.declared kind).map Variable.name).Nodup :=
    fun kind => (hstate.names kind).nodup
  have hiff := @Room.accepts_encode_iff (p.roomContext e.instructions) room record hlaidOut
    hglobals hrecord
  rw [hiff]
  show room.Lawful p.scenes (p.entities.map Entry.name) ∧ room.NewTemporaries p.gameState ∧
    (∀ s ∈ room.allScripts, ¬ Script.IllFormed (room.vocabulary e.instructions.instructions
      p.gameState p.directory.rooms) s.nodes) ↔ _
  rw [htable]
  constructor
  · rintro ⟨hlawful, htemporaries, hscripts⟩
    exact ⟨hlawful, htemporaries, hscripts⟩
  · intro hroom
    exact ⟨hroom.lawful, hroom.temporaries, hroom.scripts⟩

theorem Encoded.firstRooms_accept_iff
    (hnames : ((InstructionTable.declarations p.instructions).map Instruction.name).Nodup)
    (hinstructions : ∀ i ∈ p.instructions, i.Conforms)
    (hstate : p.gameState.WellFormed p.roomNames) (hrooms : p.roomNames.Nodup) :
    List.Forall₂ (fun room record =>
        (room.encode (p.roomContext e.instructions)).Accepts record) p.firstRooms e.rooms ↔
      ∀ room ∈ p.rooms, p.RoomWellFormed room := by
  rw [← firstRooms_eq hrooms]
  refine forall₂_iff_forall h.firstRooms fun room record hrecord => ?_
  exact h.room_accepts_iff hnames hinstructions hstate hrecord

/-- **A project that is encoded is encoded without an error if and only if it keeps all rules.** -/
theorem Encoded.accepted_iff : p.Accepted e ↔ p.WellFormed := by
  constructor
  · intro ha
    obtain ⟨hnames, hinstructions⟩ := h.instructions_accepts_iff.mp ha.instructions
    have hstate := h.gameState_accepts_iff.mp ha.gameState
    have hnamed := hasErrors_nameReport_eq_false_iff.mp ha.names
    have hstructs := StructTable.hasErrors_resolve_eq_false_iff.mp ha.structs
    have htables := (FunctionTable.hasErrors_review_eq_false_iff hstructs).mp ha.functionTables
    have hframes :=
      (FrameSet.hasErrors_review_eq_false_iff hnamed.exportOrders.nodup).mp ha.frameSets
    have hctx := resolved_entryContext hstructs hnamed htables
    have hentities := (entriesAccepted_iff hctx h.entities).mp ha.entities
    have hprojectiles := (entriesAccepted_iff hctx h.projectiles).mp ha.projectiles
    have hplayers := (entriesAccepted_iff hctx h.players).mp ha.players
    have hrooms := (h.firstRooms_accept_iff hnames hinstructions hstate hnamed.rooms.nodup).mp
      ha.firstRooms
    exact ⟨hnames, hinstructions, hstate, hnamed,
      hasErrors_sizeReport_eq_false_iff.mp ha.sizes, hstructs, htables, hframes, hentities,
      hprojectiles, hplayers, hrooms⟩
  · intro hw
    have hctx := resolved_entryContext hw.structs hw.named hw.functionTables
    have hrooms := (h.firstRooms_accept_iff hw.instructionNames hw.instructions hw.gameState
      hw.named.rooms.nodup).mpr hw.rooms
    exact {
      instructions := h.instructions_accepts_iff.mpr ⟨hw.instructionNames, hw.instructions⟩
      names := hasErrors_nameReport_eq_false_iff.mpr hw.named
      sizes := hasErrors_sizeReport_eq_false_iff.mpr hw.sizes
      gameState := h.gameState_accepts_iff.mpr hw.gameState
      structs := StructTable.hasErrors_resolve_eq_false_iff.mpr hw.structs
      functionTables := (FunctionTable.hasErrors_review_eq_false_iff hw.structs).mpr
        hw.functionTables
      frameSets := (FrameSet.hasErrors_review_eq_false_iff hw.named.exportOrders.nodup).mpr
        hw.frameSets
      entities := (entriesAccepted_iff hctx h.entities).mpr hw.entities
      projectiles := (entriesAccepted_iff hctx h.projectiles).mpr hw.projectiles
      players := (entriesAccepted_iff hctx h.players).mpr hw.players
      firstRooms := hrooms }

end Acceptance

/-- **A project is compiled if and only if it is well formed, unless something else than its errors
stops the compilation.** -/
theorem compile_ok_iff_wellFormed (p : Project) (path : String)
    (h : ∀ f, (p.compile path).result = .error f → ∃ report, f = .validation report) :
    (∃ c, (p.compile path).result = .ok c) ↔ p.WellFormed := by
  constructor
  · rintro ⟨c, hc⟩
    obtain ⟨-, e, he, -⟩ := compile_eq_ok hc
    exact (encoded_of_encode he.1).accepted_iff.mp (accepts_encode_iff.mp he)
  · intro hw
    cases hresult : (p.compile path).result with
    | ok c => exact ⟨c, rfl⟩
    | error f =>
      obtain ⟨report, rfl⟩ := h f hresult
      obtain ⟨e, he, herrors⟩ := exists_encode_of_validation hresult
      have haccepts := accepts_encode_iff.mpr ((encoded_of_encode he).accepted_iff.mpr hw)
      rw [haccepts.2] at herrors
      exact absurd herrors Bool.false_ne_true

theorem wellFormed_sampleProject :
    (∀ f, (sampleProject.compile "town.bin").result = .error f →
      ∃ report, f = .validation report) ∧ sampleProject.WellFormed := by
  obtain ⟨c, hc⟩ := exists_compile_sampleProject
  have h : ∀ f, (sampleProject.compile "town.bin").result = .error f →
      ∃ report, f = .validation report := by
    intro f hf
    rw [hc] at hf
    exact absurd hf (by simp)
  exact ⟨h, (compile_ok_iff_wellFormed sampleProject "town.bin" h).mp ⟨c, hc⟩⟩

end Project

end Cartridge
