import Cartridge.Proofs.Resource.RoomRecord
import Cartridge.Proofs.Script.Meaning

/-!
# Rooms that are accepted

A room is encoded without an error if it keeps the rules for rooms, if its temporary variables have
new names (`Room.NewTemporaries`) and if no script of it is ill-formed in the vocabulary of the room
(`Room.vocabulary`).

Main statement: `accepts_encode_iff`.
-/

namespace Cartridge

namespace Room

/-! ## What the scripts of a room may use -/

section Vocabulary

variable (room : Room)

def temporaries : VariableKind → List String :=
  Scope.temporaries room.temporaryFlags room.temporaryWords

/-- No temporary variable has the name of a global variable or of another temporary variable. -/
def NewTemporaries (state : GameState) : Prop :=
  ∀ kind, (room.temporaries kind).Nodup ∧
    ∀ name ∈ room.temporaries kind, name ∉ (state.declared kind).map Variable.name

/-- The names that the scripts of a room may use. -/
def vocabulary (instructions : List Instruction) (state : GameState)
    (rooms : List (String × List String)) : Script.Vocabulary where
  instructions := instructions
  Visible kind name := name ∈ room.temporaries kind ∨
    ∃ v ∈ state.declared kind, v.name = name ∧ (v.room = none ∨ v.room = some room.name)
  roomScripts := "startup" :: room.scripts.map RoomScript.name
  entityGroups := room.entityGroups.map EntityGroup.name
  rooms := rooms

end Vocabulary

/-! ## Scripts -/

section Scripts

variable {ctx : RoomContext} {room : Room} {scope : Scope} {codes : List Bytes} {record : Bytes}

/-- The scripts of a room are compiled in the vocabulary of the room. -/
theorem vocabulary_scriptContext
    (hscope : (Scope.build ctx.gameState room.name room.temporaryFlags
      room.temporaryWords).Accepts scope)
    (hglobals : ∀ kind, ((ctx.gameState.declared kind).map Variable.name).Nodup) :
    (room.scriptContext ctx scope).vocabulary =
      room.vocabulary ctx.instructions.instructions ctx.gameState ctx.rooms.rooms := by
  have hvisible : (fun kind name => ∃ n, scope.Sees kind name n) = fun kind name =>
      name ∈ room.temporaries kind ∨ ∃ v ∈ ctx.gameState.declared kind,
        v.name = name ∧ (v.room = none ∨ v.room = some room.name) := by
    funext kind name
    exact propext (Scope.exists_sees_iff hscope (hglobals kind))
  unfold Script.Context.vocabulary vocabulary scriptContext
  rw [← hvisible]
  rfl

/-- The scripts of a room are compiled without an error if and only if none is ill-formed. -/
theorem accepts_compileScripts_iff (ht : ctx.instructions.LaidOut)
    (hcodes : (room.compileScripts ctx scope).result = .ok codes) :
    (room.compileScripts ctx scope).Accepts codes ↔
      ∀ s ∈ room.allScripts,
        ¬ Script.IllFormed (room.scriptContext ctx scope).vocabulary s.nodes := by
  unfold compileScripts at hcodes ⊢
  rw [Outcome.accepts_mapM_iff_of_result hcodes]
  refine forall_congr' fun s => imp_congr_right fun _ => ?_
  rw [← Script.hasErrors_compile_iff ht, Bool.not_eq_true]

/-- A room that has a record is accepted if and only if it keeps all rules. -/
theorem accepts_encode_iff (ht : ctx.instructions.LaidOut)
    (hglobals : ∀ kind, ((ctx.gameState.declared kind).map Variable.name).Nodup)
    (hrecord : (room.encode ctx).result = .ok record) :
    (room.encode ctx).Accepts record ↔
      room.Lawful ctx.scenes.names ctx.entities.names ∧ room.NewTemporaries ctx.gameState ∧
        ∀ s ∈ room.allScripts, ¬ Script.IllFormed (room.vocabulary ctx.instructions.instructions
          ctx.gameState ctx.rooms.rooms) s.nodes := by
  constructor
  · intro h
    obtain ⟨scope, codes, hencoded⟩ := exists_encoded h
    have hscripts := (accepts_compileScripts_iff ht hencoded.compiled.1).mp hencoded.compiled
    rw [vocabulary_scriptContext hencoded.locals hglobals] at hscripts
    exact ⟨hencoded.lawful, (Scope.accepts_build_iff.mp hencoded.locals).2, hscripts⟩
  · rintro ⟨hlawful, hnew, hscripts⟩
    unfold encode at hrecord ⊢
    obtain ⟨scope, hscope, hrecord⟩ := Outcome.result_bind_eq_ok_iff.mp hrecord
    have hscope := Scope.accepts_build_iff.mpr ⟨hscope, hnew⟩
    refine Outcome.accepts_bind_iff.mpr ⟨scope, hscope, ?_⟩
    rw [← vocabulary_scriptContext hscope hglobals] at hscripts
    obtain ⟨_, -, hrecord⟩ := Outcome.result_bind_eq_ok_iff.mp hrecord
    have hfindings := findings_eq_nil_iff.mpr hlawful
    have hreport : (room.report (room.headerFindings ctx ++ room.mapFindings ++
        room.entranceFindings ++ room.entityFindings ctx ++ room.scriptFindings)).hasErrors =
        false := by
      rw [hfindings]
      rfl
    refine Outcome.accepts_bind_iff.mpr ⟨(), Outcome.accepts_lift_iff.mpr ⟨rfl, hreport⟩, ?_⟩
    obtain ⟨codes, hcodes, hrecord⟩ := Outcome.result_bind_eq_ok_iff.mp hrecord
    have hcodes := (accepts_compileScripts_iff ht hcodes).mpr hscripts
    refine Outcome.accepts_bind_iff.mpr ⟨codes, hcodes, ?_⟩
    by_cases hblock : (scriptBlock codes).length > maxScriptBlock
    · rw [if_pos hblock] at hrecord
      exact absurd hrecord (by simp)
    · rw [if_neg hblock] at hrecord ⊢
      exact ⟨hrecord, rfl⟩

end Scripts

end Room

end Cartridge
