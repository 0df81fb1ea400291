import Cartridge.Instruction.Table
import Cartridge.Proofs.Outcome
import Cartridge.Proofs.Resource.Names

/-!
# The layout of instruction tables

A table that is built (`laidOut_of_build`) gives every instruction a range of opcodes of its own:
ranges follow each other behind the branches (`Tiles`) and end before `maxOpcodes`.  So an opcode
leads back to the entry that it was taken from (`entryAt?_eq_some`), and fits into one byte.

The table itself goes from an opcode to its name, and from the name to the entry.  As names differ,
this is the way back, too (`bind_lookup?_nameAt?`).
-/

namespace Cartridge

namespace Instruction

variable {i : Instruction}

/-- The rules for one declaration. -/
structure Conforms (i : Instruction) : Prop where
  name : Text.isName i.name = true
  flagCount_le : i.flagCount ≤ 1
  yields_eq_false : i.takesFlag = true → i.yields = false
  noGap : i.first = .unused → i.second = .unused
  first_ne_roomEntrance : i.first ≠ .roomEntrance
  room_of_roomEntrance : i.second = .roomEntrance → i.first = .room

theorem flagCount_pos_iff : 0 < i.flagCount ↔ i.takesFlag = true := by
  rw [flagCount, takesFlag, List.count_pos_iff, List.contains_iff_mem]

theorem orderProblem?_eq_none_iff : i.orderProblem? = none ↔
    (i.first = .unused → i.second = .unused) ∧ i.first ≠ .roomEntrance ∧
      (i.second = .roomEntrance → i.first = .room) := by
  unfold orderProblem?
  by_cases hgap : i.first = .unused ∧ i.second ≠ .unused
  · rw [if_pos hgap]
    simp [hgap.1, hgap.2]
  · rw [if_neg hgap]
    have hnoGap : i.first = .unused → i.second = .unused := by
      intro h1
      by_contra h2
      exact hgap ⟨h1, h2⟩
    by_cases hstray : i.first = .roomEntrance ∨ (i.second = .roomEntrance ∧ i.first ≠ .room)
    · rw [if_pos hstray]
      constructor
      · intro h
        exact absurd h (by simp)
      · rintro ⟨-, h1, h2⟩
        rcases hstray with h | ⟨h, hne⟩
        · exact absurd h h1
        · exact absurd (h2 h) hne
    · rw [if_neg hstray]
      refine ⟨fun _ => ⟨hnoGap, fun h => hstray (Or.inl h), fun h => ?_⟩, fun _ => rfl⟩
      by_contra hne
      exact hstray (Or.inr ⟨h, hne⟩)

/-- A declaration keeps the rules if and only if nothing is wrong with it. -/
theorem problems_eq_nil_iff : i.problems = [] ↔ i.Conforms := by
  have hyields : (i.flagCount > 0 ∧ i.yields = true) ↔
      ¬ (i.takesFlag = true → i.yields = false) := by
    rw [gt_iff_lt, flagCount_pos_iff]
    simp
  simp only [problems, List.append_eq_nil_iff, Option.toList_eq_nil_iff, hyields, ite_eq_left_iff,
    ite_eq_right_iff, List.cons_ne_nil, imp_false, not_not, Nat.not_lt, orderProblem?_eq_none_iff]
  constructor
  · rintro ⟨⟨⟨hname, hflags⟩, hyields⟩, hgap, hfirst, hroom⟩
    exact ⟨hname, hflags, hyields, hgap, hfirst, hroom⟩
  · intro h
    exact ⟨⟨⟨h.name, h.flagCount_le⟩, h.yields_eq_false⟩, h.noGap, h.first_ne_roomEntrance,
      h.room_of_roomEntrance⟩

/-- The rules for the parameters of an accepted declaration. -/
structure Valid (i : Instruction) : Prop where
  flagCount_le : i.flagCount ≤ 1
  noGap : i.first = .unused → i.second = .unused
  first_ne_roomEntrance : i.first ≠ .roomEntrance
  room_of_roomEntrance : i.second = .roomEntrance → i.first = .room

theorem Conforms.valid (h : i.Conforms) : i.Valid :=
  ⟨h.flagCount_le, h.noGap, h.first_ne_roomEntrance, h.room_of_roomEntrance⟩

theorem arity_pos (h : i.first ≠ .unused) : 0 < i.arity := by
  simp [arity, parameters, Parameter.isUsed, List.countP_cons, h]

/-- A statement that gives a second argument gives a first one, too. -/
theorem Valid.one_lt_arity (hi : i.Valid) (h : i.second ≠ .unused) : 1 < i.arity := by
  have h1 : i.first ≠ .unused := fun hfirst => h (hi.noGap hfirst)
  simp [arity, parameters, Parameter.isUsed, List.countP_cons, h, h1]

theorem width_pos {groups : Nat} (hg : 0 < groups) : 0 < i.width groups := by
  unfold width
  split
  · exact hg
  · exact Nat.one_pos

theorem width_of_flag {groups : Nat} {p : Parameter} (hp : p ∈ i.parameters) (h : p = .flag) :
    i.width groups = groups := by
  subst h
  rw [width, takesFlag, if_pos (List.contains_iff_mem.mpr hp)]

end Instruction

namespace InstructionTable

/-- Whether an opcode is one of those of an entry. -/
def owns (t : InstructionTable) (e : TableEntry) (opcode : Nat) : Bool :=
  e.opcode ≤ opcode && opcode < e.opcode + e.instruction.width t.groups

/-- The entry that an opcode belongs to. -/
def entryAt? (t : InstructionTable) (opcode : Nat) : Option TableEntry :=
  t.entries.find? fun e => t.owns e opcode

theorem branchClear_eq (t : InstructionTable) : t.branchClear = t.branchSet + t.groups := rfl

theorem firstInstruction_eq (t : InstructionTable) :
    t.firstInstruction = t.branchClear + t.groups := by
  simp only [firstInstruction, firstOpcode, branchClear]
  omega

@[simp] theorem map_instruction_layOut (groups opcode : Nat) (is : List Instruction) :
    (layOut groups opcode is).map TableEntry.instruction = is := by
  induction is generalizing opcode with
  | nil => rfl
  | cons i is ih => rw [layOut, List.map_cons, ih]

/-! ## Ranges of opcodes -/

section Ranges

variable {groups lo hi : Nat} {is : List Instruction} {es : List TableEntry} {e e' : TableEntry}
  {op : Nat}

/-- The ranges of the entries follow each other from `lo` to `hi`. -/
def Tiles (groups : Nat) : Nat → List TableEntry → Nat → Prop
  | lo, [], hi => lo = hi
  | lo, e :: es, hi => e.opcode = lo ∧ Tiles groups (lo + e.instruction.width groups) es hi

theorem tiles_layOut : Tiles groups lo (layOut groups lo is)
    (lo + total (is.map (Instruction.width groups))) := by
  induction is generalizing lo with
  | nil => rfl
  | cons i is ih =>
    rw [layOut, List.map_cons, total_cons, ← Nat.add_assoc]
    exact ⟨rfl, ih⟩

theorem Tiles.le (h : Tiles groups lo es hi) : lo ≤ hi := by
  induction es generalizing lo with
  | nil => exact Nat.le_of_eq h
  | cons e es ih =>
    have := ih h.2
    omega

theorem Tiles.bounds (h : Tiles groups lo es hi) (he : e ∈ es) :
    lo ≤ e.opcode ∧ e.opcode + e.instruction.width groups ≤ hi := by
  induction es generalizing lo with
  | nil => exact absurd he List.not_mem_nil
  | cons e' es ih =>
    obtain ⟨hopcode, htail⟩ := h
    rcases List.mem_cons.mp he with rfl | he
    · have := htail.le
      omega
    · have := ih htail he
      omega

/-- Ranges do not overlap. -/
theorem Tiles.pairwise (h : Tiles groups lo es hi) :
    es.Pairwise fun e e' => e.opcode + e.instruction.width groups ≤ e'.opcode := by
  induction es generalizing lo with
  | nil => exact List.Pairwise.nil
  | cons e es ih =>
    obtain ⟨hopcode, htail⟩ := h
    refine List.Pairwise.cons (fun e' he' => ?_) (ih htail)
    have := (htail.bounds he').1
    omega

/-- There is no gap between ranges. -/
theorem Tiles.exists_owner (h : Tiles groups lo es hi) (hlo : lo ≤ op) (hhi : op < hi) :
    ∃ e ∈ es, e.opcode ≤ op ∧ op < e.opcode + e.instruction.width groups := by
  induction es generalizing lo with
  | nil =>
    have : lo = hi := h
    omega
  | cons e es ih =>
    obtain ⟨hopcode, htail⟩ := h
    by_cases hop : op < lo + e.instruction.width groups
    · exact ⟨e, List.mem_cons_self, by omega, by omega⟩
    · obtain ⟨e', he', hrange⟩ := ih htail (by omega)
      exact ⟨e', List.mem_cons_of_mem e he', hrange⟩

/-- The first entry whose range holds an opcode is the only one. -/
theorem Tiles.find?_eq_some (h : Tiles groups lo es hi) (he : e ∈ es) (hlo : e.opcode ≤ op)
    (hhi : op < e.opcode + e.instruction.width groups) :
    es.find? (fun e => decide (e.opcode ≤ op) &&
      decide (op < e.opcode + e.instruction.width groups)) = some e := by
  induction es generalizing lo with
  | nil => exact absurd he List.not_mem_nil
  | cons e' es ih =>
    obtain ⟨hopcode, htail⟩ := h
    rw [List.find?_cons]
    rcases List.mem_cons.mp he with rfl | he
    · simp [hlo, hhi]
    -- the ranges of the tail start behind that of the head
    · have hbounds := htail.bounds he
      have hout : ¬ op < e'.opcode + e'.instruction.width groups := by omega
      simp only [hout, decide_false, Bool.and_false]
      exact ih htail he

/-- In a row of entries that tile the opcodes from `lo` on, a name stands for the owner. -/
theorem Tiles.getElem?_names {k : Nat} (h : Tiles groups lo es hi) :
    (es.flatMap fun e => List.replicate (e.instruction.width groups) e.instruction.name)[k]? =
      (es.find? fun e => decide (e.opcode ≤ lo + k) &&
        decide (lo + k < e.opcode + e.instruction.width groups)).map
          fun e => e.instruction.name := by
  induction es generalizing lo k with
  | nil => rfl
  | cons e es ih =>
    obtain ⟨hopcode, htail⟩ := h
    rw [List.flatMap_cons, List.find?_cons]
    by_cases hk : k < e.instruction.width groups
    · have hin : (decide (e.opcode ≤ lo + k) &&
          decide (lo + k < e.opcode + e.instruction.width groups)) = true := by
        simp only [Bool.and_eq_true, decide_eq_true_eq]
        omega
      rw [hin, List.getElem?_append_left (by rw [List.length_replicate]; exact hk),
        List.getElem?_replicate, if_pos hk]
      rfl
    · have hout : (decide (e.opcode ≤ lo + k) &&
          decide (lo + k < e.opcode + e.instruction.width groups)) = false := by
        simp only [Bool.and_eq_false_iff, decide_eq_false_iff_not]
        omega
      have hshift : lo + k =
          lo + e.instruction.width groups + (k - e.instruction.width groups) := by omega
      rw [hout, List.getElem?_append_right (by rw [List.length_replicate]; omega),
        List.length_replicate, ih htail, ← hshift]

end Ranges

/-! ## From opcodes to names to entries -/

section Names

variable {t : InstructionTable} {e : TableEntry} {name : String} {opcode hi : Nat}

theorem mem_of_lookup? (h : t.lookup? name = some e) : e ∈ t.entries :=
  List.mem_of_find?_eq_some h

theorem name_of_lookup? (h : t.lookup? name = some e) : e.instruction.name = name := by
  unfold lookup? at h
  have hfound := List.find?_some h
  exact eq_of_beq hfound

/-- A name leads to the entry that has it. -/
theorem lookup?_eq_some (hnodup : (t.instructions.map Instruction.name).Nodup)
    (he : e ∈ t.entries) : t.lookup? e.instruction.name = some e := by
  rw [instructions, List.map_map] at hnodup
  exact (find?_eq_some_iff_of_nodup (fun e : TableEntry => e.instruction.name) hnodup).mpr
    ⟨he, rfl⟩

/-- An opcode belongs to the entry whose range holds it. -/
theorem entryAt?_eq_some_iff (h : Tiles t.groups t.firstInstruction t.entries hi) :
    t.entryAt? opcode = some e ↔ e ∈ t.entries ∧ e.opcode ≤ opcode ∧
      opcode < e.opcode + e.instruction.width t.groups := by
  constructor
  · intro he
    have howns : t.owns e opcode = true := List.find?_some (p := fun e => t.owns e opcode) he
    simp only [owns, Bool.and_eq_true, decide_eq_true_eq] at howns
    exact ⟨List.mem_of_find?_eq_some he, howns⟩
  · rintro ⟨he, hlo, hhi⟩
    exact h.find?_eq_some he hlo hhi

/-- An opcode has the name of the entry that it belongs to. -/
theorem nameAt?_eq (h : Tiles t.groups t.firstInstruction t.entries hi) :
    t.nameAt? opcode = (t.entryAt? opcode).map fun e => e.instruction.name := by
  unfold nameAt?
  by_cases hlt : opcode < t.firstInstruction
  · rw [if_pos hlt]
    cases he : t.entryAt? opcode with
    | none => rfl
    | some e =>
      obtain ⟨hmem, hle, -⟩ := (entryAt?_eq_some_iff h).mp he
      have := (h.bounds hmem).1
      omega
  · rw [if_neg hlt, opcodeNames, h.getElem?_names, Nat.add_sub_cancel' (Nat.le_of_not_lt hlt)]
    rfl

/-- The name of an opcode leads to the entry that the opcode belongs to. -/
theorem bind_lookup?_nameAt? (hnodup : (t.instructions.map Instruction.name).Nodup)
    (h : Tiles t.groups t.firstInstruction t.entries hi) :
    (t.nameAt? opcode).bind t.lookup? = t.entryAt? opcode := by
  rw [nameAt?_eq h]
  cases he : t.entryAt? opcode with
  | none => rfl
  | some e => exact lookup?_eq_some hnodup ((entryAt?_eq_some_iff h).mp he).1

/-- A script may be suspended behind the opcodes of instructions that yield, and no others. -/
theorem yieldsAt_eq_true_iff (hnodup : (t.instructions.map Instruction.name).Nodup)
    (h : Tiles t.groups t.firstInstruction t.entries hi) :
    t.yieldsAt opcode = true ↔ ∃ e ∈ t.entries, e.instruction.yields = true ∧
      e.opcode ≤ opcode ∧ opcode < e.opcode + e.instruction.width t.groups := by
  rw [yieldsAt, bind_lookup?_nameAt? hnodup h, Option.any_eq_true]
  constructor
  · rintro ⟨e, he, hyields⟩
    obtain ⟨hmem, hrange⟩ := (entryAt?_eq_some_iff h).mp he
    exact ⟨e, hmem, hyields, hrange⟩
  · rintro ⟨e, hmem, hyields, hrange⟩
    exact ⟨e, (entryAt?_eq_some_iff h).mpr ⟨hmem, hrange⟩, hyields⟩

/-- No branch yields. -/
theorem yieldsAt_of_lt (h : opcode < t.firstInstruction) : t.yieldsAt opcode = false := by
  rw [yieldsAt, nameAt?, if_pos h]
  rfl

end Names

/-! ## Tables -/

/-- What holds of every table that is built. -/
structure LaidOut (t : InstructionTable) : Prop where
  groups_pos : 0 < t.groups
  entries_eq : t.entries = layOut t.groups t.firstInstruction t.instructions
  opcodeCount_le : t.opcodeCount ≤ maxOpcodes
  nodup : (t.instructions.map Instruction.name).Nodup
  valid : ∀ i ∈ t.instructions, i.Valid

section LaidOut

variable {t : InstructionTable} (ht : t.LaidOut) {e : TableEntry}
include ht

theorem LaidOut.tiles : Tiles t.groups t.firstInstruction t.entries t.opcodeCount := by
  rw [ht.entries_eq]
  exact tiles_layOut

theorem LaidOut.bounds (he : e ∈ t.entries) :
    t.firstInstruction ≤ e.opcode ∧ e.opcode + e.instruction.width t.groups ≤ maxOpcodes := by
  obtain ⟨hlo, hhi⟩ := ht.tiles.bounds he
  exact ⟨hlo, Nat.le_trans hhi ht.opcodeCount_le⟩

/-- The opcodes of an instruction lie behind the branches and below `maxOpcodes`. -/
theorem LaidOut.opcode_bounds (he : e ∈ t.entries) {n : Nat}
    (hn : n < e.instruction.width t.groups) :
    t.firstInstruction ≤ e.opcode + n ∧ e.opcode + n < maxOpcodes := by
  have hb := ht.bounds he
  omega

theorem LaidOut.entryAt?_eq_some (he : e ∈ t.entries) {n : Nat}
    (hn : n < e.instruction.width t.groups) : t.entryAt? (e.opcode + n) = some e :=
  (entryAt?_eq_some_iff ht.tiles).mpr ⟨he, Nat.le_add_right e.opcode n, by omega⟩

/-- The owner of an opcode tells whether a script may be suspended behind it. -/
theorem LaidOut.yieldsAt_eq {opcode : Nat} (he : t.entryAt? opcode = some e) :
    t.yieldsAt opcode = e.instruction.yields := by
  rw [yieldsAt, bind_lookup?_nameAt? ht.nodup ht.tiles, he]
  rfl

theorem LaidOut.firstInstruction_le : t.firstInstruction ≤ maxOpcodes :=
  Nat.le_trans ht.tiles.le ht.opcodeCount_le

theorem LaidOut.valid_entry (he : e ∈ t.entries) : e.instruction.Valid :=
  ht.valid _ (List.mem_map_of_mem he)

end LaidOut

/-! ### Tables that are built -/

section Built

variable {t : InstructionTable} {project : List Instruction} {flags : Nat} {i : Instruction}
  {seen : List String} {ds : List Declared}

theorem problems_eq_nil_iff : problems seen i = [] ↔ i.name ∉ seen ∧ i.Conforms := by
  unfold problems
  by_cases h : seen.contains i.name = true
  · rw [if_pos h]
    rw [List.contains_iff_mem] at h
    simp [h]
  · rw [if_neg h, Instruction.problems_eq_nil_iff]
    rw [List.contains_iff_mem] at h
    simp [h]

/-- What is accepted of declarations that stand behind others with the names `seen`. -/
def acceptedBehind (seen : List String) (ds : List Declared) : List Instruction :=
  (review seen ds).filterMap fun (d, ps) => if ps.isEmpty then some d.instruction else none

theorem acceptedBehind_cons {d : Declared} : acceptedBehind seen (d :: ds) =
    if problems seen d.instruction = [] then
      d.instruction :: acceptedBehind (d.instruction.name :: seen) ds
    else acceptedBehind (d.instruction.name :: seen) ds := by
  rw [acceptedBehind, review, List.filterMap_cons]
  by_cases hnil : problems seen d.instruction = []
  · rw [if_pos hnil]
    simp only [hnil, List.isEmpty_nil, if_true, acceptedBehind]
  · have hempty : (problems seen d.instruction).isEmpty = false := by
      rw [Bool.eq_false_iff, ne_eq, List.isEmpty_iff]
      exact hnil
    rw [if_neg hnil]
    simp only [hempty, Bool.false_eq_true, if_false, acceptedBehind]

/-- What is accepted has a new name and keeps the rules. -/
theorem admissible_of_mem_acceptedBehind (h : i ∈ acceptedBehind seen ds) :
    i.name ∉ seen ∧ i.Conforms := by
  induction ds generalizing seen with
  | nil => exact absurd h List.not_mem_nil
  | cons d ds ih =>
    rw [acceptedBehind_cons] at h
    have hrest : i ∈ acceptedBehind (d.instruction.name :: seen) ds →
        i.name ∉ seen ∧ i.Conforms := by
      intro hmem
      obtain ⟨hnew, hrules⟩ := ih hmem
      exact ⟨fun hseen => hnew (List.mem_cons_of_mem _ hseen), hrules⟩
    by_cases hnil : problems seen d.instruction = []
    · rw [if_pos hnil] at h
      rcases List.mem_cons.mp h with rfl | hmem
      · exact problems_eq_nil_iff.mp hnil
      · exact hrest hmem
    · rw [if_neg hnil] at h
      exact hrest h

theorem nodup_names_acceptedBehind : ((acceptedBehind seen ds).map Instruction.name).Nodup := by
  induction ds generalizing seen with
  | nil => exact List.nodup_nil
  | cons d ds ih =>
    rw [acceptedBehind_cons]
    by_cases hnil : problems seen d.instruction = []
    · rw [if_pos hnil, List.map_cons, List.nodup_cons]
      refine ⟨fun hmem => ?_, ih⟩
      obtain ⟨i, hi, hname⟩ := List.mem_map.mp hmem
      exact (admissible_of_mem_acceptedBehind hi).1 (hname ▸ List.mem_cons_self)
    · rw [if_neg hnil]
      exact ih

/-- No two accepted instructions have the same name. -/
theorem nodup_names_accepted : ((accepted project).map Instruction.name).Nodup :=
  nodup_names_acceptedBehind

theorem valid_of_mem_accepted (h : i ∈ accepted project) : i.Valid := by
  have hmem : i ∈ acceptedBehind [] (declared project) := h
  exact (admissible_of_mem_acceptedBehind hmem).2.valid

theorem result_build_eq_ok_iff :
    (build project flags).result = .ok t ↔
      required (flagGroups flags) (accepted project) ≤ maxOpcodes ∧
        t = ⟨flagGroups flags,
          layOut (flagGroups flags) (firstOpcode (flagGroups flags)) (accepted project)⟩ := by
  unfold build
  simp only [Outcome.result_bind, Outcome.result_lift, Except.bind, Outcome.result_check,
    Outcome.result_pure]
  by_cases hc : required (flagGroups flags) (accepted project) > maxOpcodes
  · rw [if_pos hc]
    exact ⟨fun h => absurd h (by simp), fun h => absurd h.1 (by omega)⟩
  · rw [if_neg hc]
    simp only [Except.ok.injEq]
    exact ⟨fun h => ⟨by omega, h.symm⟩, fun h => h.2.symm⟩

theorem laidOut_of_build (h : (build project flags).result = .ok t) : t.LaidOut := by
  obtain ⟨hc, rfl⟩ := result_build_eq_ok_iff.mp h
  refine ⟨Nat.le_max_left _ _, ?_, ?_, ?_, fun i hi => ?_⟩
  · simp only [instructions, map_instruction_layOut, firstInstruction]
  · simpa only [opcodeCount, instructions, map_instruction_layOut] using hc
  · simp only [instructions, map_instruction_layOut]
    exact nodup_names_accepted
  · simp only [instructions, map_instruction_layOut] at hi
    exact valid_of_mem_accepted hi

theorem groups_of_build (h : (build project flags).result = .ok t) :
    t.groups = flagGroups flags := by
  obtain ⟨-, rfl⟩ := result_build_eq_ok_iff.mp h
  rfl

end Built

end InstructionTable

end Cartridge
