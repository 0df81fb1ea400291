import Cartridge.Proofs.Project.Decoding
import Cartridge.Proofs.Project.WellFormed

/-!
# Names in the include file

The include file defines the constants of the project, one name for every opcode and one for the
number of opcodes, and names for tile data, tables and their lengths.  All but the constants of the
project are generated, and generated names differ from each other unless an instruction has the name
that is used for the number of opcodes.  Nothing keeps a constant of the project from having a
generated name.

Main statement: `compile_definedNames`, the names that an include file defines, and when they are
different.
-/

namespace Cartridge

def Directive.definedName? : Directive → Option String
  | constant name _ => some name
  | address name _ => some name
  | _ => none

/-- The names that the include file defines, in the order of its lines. -/
def Image.definedNames (image : Image) : List String :=
  image.directives.filterMap Directive.definedName?

theorem Writer.definedNames_directives {w : Writer} {path : String} (binary : Bytes) :
    (Image.mk binary (w.directives path)).definedNames =
      w.constants.map Prod.fst ++ w.tables.map (fun t => s!"{t.1}.count") ++
        w.symbols.map Prod.fst := by
  have hbanks : (bankDirectives path 0 0 w.allocator.banks).filterMap Directive.definedName? =
      [] := filterMap_bankDirectives (fun _ => rfl) (fun _ => rfl) (fun _ _ _ => rfl) rfl
  have hblank : (if w.constants.isEmpty then [] else [Directive.blank]).filterMap
      Directive.definedName? = [] := by
    split
    · rfl
    · rfl
  unfold Image.definedNames directives
  simp only [List.filterMap_append, hbanks, hblank, List.filterMap_map]
  simp [Function.comp_def, Directive.definedName?]

namespace Project

/-! ## Generated names -/

section Generated

/-- The name under which the opcode of an instruction is exported. -/
def opcodeName (instruction : String) : String := s!"Project.Bytecode.{instruction}"

/-- The number of opcodes is exported as if it were the opcode of an instruction. -/
def counterName : String := "N_OPCODES"

/-- The names for the lengths of tables, for tile data and for tables. -/
def dataNames (p : Project) : List String :=
  p.listLengths.map (fun l => s!"{l.1}.count") ++
    (p.tileSymbols.map Prod.fst ++ p.listLengths.map Prod.fst)

def generatedNames (p : Project) : List String :=
  ((InstructionTable.declarations p.instructions).map Instruction.name ++ [counterName]).map
      opcodeName ++
    p.dataNames

/-- What keeps the exported names of a project apart. -/
structure ExportsApart (p : Project) : Prop where
  constants : (p.constants.map Prod.fst).Nodup
  generated : ∀ name ∈ p.constants.map Prod.fst, name ∉ p.generatedNames
  counter : counterName ∉ p.instructions.map Instruction.name

variable {p : Project}

theorem opcodeName_injective : Function.Injective opcodeName := by
  intro a b h
  exact (String.append_right_inj "Project.Bytecode.").mp h

/-- The names of data are fixed, and that of tile data is left out if there is none. -/
theorem dataNames_sublist : p.dataNames.Sublist ["Project.PaletteList.count",
    "Project.MetaTileTilesetList.count", "Project.FrameSetList.count", "Project.EntityList.count",
    "Project.ProjectileList.count", "Project.PlayerList.count", "Project.RoomList.count",
    "Project.TileData", "Project.PaletteList", "Project.MetaTileTilesetList",
    "Project.FrameSetList", "Project.EntityList", "Project.ProjectileList", "Project.PlayerList",
    "Project.RoomList"] := by
  unfold dataNames tileSymbols
  cases p.tileData with
  | none => exact (List.sublist_cons_self _ _).append_left _
  | some tiles => exact List.Sublist.refl _

theorem nodup_dataNames : p.dataNames.Nodup := p.dataNames_sublist.nodup (by decide)

/-- No other name begins like those of opcodes. -/
theorem opcodeName_notMem_dataNames (instruction : String) :
    opcodeName instruction ∉ p.dataNames := by
  have hfront : (opcodeName instruction).toList.take 17 = "Project.Bytecode.".toList := by
    show ("Project.Bytecode." ++ instruction).toList.take 17 = _
    rw [String.toList_append]
    rfl
  have hdata : ∀ name ∈ p.dataNames, name.toList.take 17 ≠ "Project.Bytecode.".toList := by
    intro name hname
    have hmem := p.dataNames_sublist.subset hname
    clear hname
    revert name
    decide
  intro h
  exact hdata _ h hfront

theorem nodup_generatedNames_iff
    (hnames : ((InstructionTable.declarations p.instructions).map Instruction.name).Nodup) :
    p.generatedNames.Nodup ↔ counterName ∉ p.instructions.map Instruction.name := by
  have hdisjoint : List.Disjoint
      (((InstructionTable.declarations p.instructions).map Instruction.name ++
        [counterName]).map opcodeName) p.dataNames := by
    intro name hname
    obtain ⟨instruction, -, rfl⟩ := List.mem_map.mp hname
    exact opcodeName_notMem_dataNames instruction
  have hbase : counterName ∉ Instruction.base.map Instruction.name := by decide
  rw [generatedNames, List.nodup_append', List.nodup_map_iff opcodeName_injective,
    List.nodup_append', and_iff_left hdisjoint, and_iff_left nodup_dataNames,
    List.disjoint_singleton, and_iff_right (List.nodup_singleton _), and_iff_right hnames,
    InstructionTable.declarations, List.map_append, List.mem_append, or_iff_right hbase]

theorem nodup_names_iff
    (hnames : ((InstructionTable.declarations p.instructions).map Instruction.name).Nodup) :
    (p.constants.map Prod.fst ++ p.generatedNames).Nodup ↔ p.ExportsApart := by
  rw [List.nodup_append', nodup_generatedNames_iff hnames]
  constructor
  · rintro ⟨hconstants, hcounter, hgenerated⟩
    exact ⟨hconstants, fun name hname => hgenerated hname, hcounter⟩
  · intro h
    exact ⟨h.constants, h.counter, fun name hname => h.generated name hname⟩

end Generated

/-! ## Names of compiled projects -/

section Compiled

variable {p : Project} {e : Encoding} {w : Writer} {path : String}

theorem map_fst_ownConstants : (p.ownConstants e).map Prod.fst =
    p.constants.map Prod.fst ++
      (e.instructions.instructions.map Instruction.name ++ [counterName]).map opcodeName := by
  unfold ownConstants
  simp only [List.map_append, List.map_map, InstructionTable.instructions, List.append_assoc]
  rfl

theorem Placed.definedNames (hw : p.Placed e w) (hr : p.Records e)
    (htable : e.instructions.instructions = InstructionTable.declarations p.instructions) :
    (Image.mk w.binary (w.directives path)).definedNames =
      p.constants.map Prod.fst ++ p.generatedNames := by
  obtain ⟨addresses, hall, hsymbols⟩ := hw.symbols_eq
  have hlength : ((p.tables e).map Prod.fst).length ≤ addresses.length := by
    rw [List.length_map, hall.length_eq]
  have htables : (p.tables e).map Prod.fst = p.listLengths.map Prod.fst := rfl
  rw [Writer.definedNames_directives, hw.constants_eq, hw.tables_eq, hr.listLengths_eq, hsymbols,
    List.map_append, List.map_fst_zip hlength, htables, map_fst_ownConstants, htable,
    generatedNames, dataNames, List.append_assoc, List.append_assoc]

theorem wellFormed_of_compile {c : Compiled} (h : (p.compile path).result = .ok c) :
    p.WellFormed ∧ c.image.definedNames = p.constants.map Prod.fst ++ p.generatedNames := by
  obtain ⟨-, e, w, he, hw, himage⟩ := exists_placed h
  have hencoded := encoded_of_encode he.1
  have hwell : p.WellFormed := hencoded.accepted_iff.mp (accepts_encode_iff.mp he)
  have htable := hencoded.instructions_eq hwell.instructionNames hwell.instructions
  refine ⟨hwell, ?_⟩
  rw [himage]
  exact hw.definedNames (accepted_of_encode he).records htable

theorem nodup_definedNames_iff {c : Compiled} (h : (p.compile path).result = .ok c) :
    c.image.definedNames.Nodup ↔ p.ExportsApart := by
  obtain ⟨hwell, hnames⟩ := wellFormed_of_compile h
  rw [hnames]
  exact nodup_names_iff hwell.instructionNames

/-- **The names of an include file** are those of the constants of the project and the generated
ones.  They are different if and only if the constants have different names, which are not
generated, and no instruction is named like the number of opcodes. -/
theorem compile_definedNames {c : Compiled} (h : (p.compile path).result = .ok c) :
    c.image.definedNames = p.constants.map Prod.fst ++ p.generatedNames ∧
      (c.image.definedNames.Nodup ↔ p.ExportsApart) :=
  ⟨(wellFormed_of_compile h).2, nodup_definedNames_iff h⟩

/-- The sample with a constant and an instruction. -/
def songProject : Project :=
  { sampleProject with
    constants := [("Project.Version", 3)]
    instructions := [⟨"play_song", .immediate, .unused, false⟩] }

theorem definedNames_songProject : ∃ c, (songProject.compile "town.bin").result = .ok c ∧
    c.image.definedNames = "Project.Version" :: songProject.generatedNames ∧
    c.image.definedNames.Nodup := by
  have hok : (songProject.compile "town.bin").result.isOk = true := by decide +kernel
  obtain ⟨c, hc⟩ := Outcome.exists_result_eq_ok hok
  obtain ⟨hnames, hnodup⟩ := compile_definedNames hc
  exact ⟨c, hc, hnames, hnodup.mpr ⟨by decide, by decide, by decide⟩⟩

/-- The sample with an instruction that is named like the number of opcodes. -/
def counterProject : Project :=
  { sampleProject with instructions := [⟨"N_OPCODES", .unused, .unused, false⟩] }

/-- The sample with a constant that is named like a table. -/
def shadowProject : Project := { sampleProject with constants := [("Project.RoomList", 1)] }

/-- Both projects are compiled, and their include files define a name twice. -/
theorem not_nodup_definedNames :
    (∃ c, (counterProject.compile "town.bin").result = .ok c ∧ ¬ c.image.definedNames.Nodup) ∧
      ∃ c, (shadowProject.compile "town.bin").result = .ok c ∧ ¬ c.image.definedNames.Nodup := by
  have hcounter : (counterProject.compile "town.bin").result.isOk = true := by decide +kernel
  have hshadow : (shadowProject.compile "town.bin").result.isOk = true := by decide +kernel
  obtain ⟨c, hc⟩ := Outcome.exists_result_eq_ok hcounter
  obtain ⟨c', hc'⟩ := Outcome.exists_result_eq_ok hshadow
  refine ⟨⟨c, hc, fun h => ?_⟩, c', hc', fun h => ?_⟩
  · have hapart := (nodup_definedNames_iff hc).mp h
    exact hapart.counter List.mem_cons_self
  · have hapart := (nodup_definedNames_iff hc').mp h
    exact hapart.generated "Project.RoomList" List.mem_cons_self (by decide)

end Compiled

end Project

end Cartridge
