import Mathlib.Data.List.Destutter
import Mathlib.Data.List.Perm.Subperm
import Mathlib.Data.String.Basic
import Cartridge.Proofs.Instruction.Layout

/-!
# The catalogue of instructions

Which declarations get into the instruction table, and where.  A declaration is admitted if it is
the first of its name and keeps the rules (`Admits`).  The admitted ones get ranges of opcodes that
tile the opcodes behind the branches (`Tiles`), in the order of declaration; all others are
reported.

The names of the opcodes, without their repetitions, lead to the same entries (`byOpcode_eq`).

Main statement: `build_catalogue`.
-/

namespace Cartridge

namespace InstructionTable

/-! ## Admitted declarations -/

section Admission

variable {project : List Instruction} {i : Instruction} {n : Nat} {seen : List String}
  {ds : List Declared}

/-- The declarations that every project has, and those of the project behind them. -/
def declarations (project : List Instruction) : List Instruction := Instruction.base ++ project

/-- The declaration at position `n` is the first of its name, and keeps the rules. -/
def Admits (project : List Instruction) (n : Nat) (i : Instruction) : Prop :=
  (declarations project)[n]? = some i ∧
    (∀ m j, m < n → (declarations project)[m]? = some j → j.name ≠ i.name) ∧ i.Conforms

theorem map_instruction_declared :
    (declared project).map Declared.instruction = declarations project := by
  have hproject : (project.zipIdx.map fun x => (⟨.item x.2, x.1⟩ : Declared)).map
      Declared.instruction = project := by
    rw [List.map_map]
    exact List.zipIdx_map_fst 0 project
  have hbase : (Instruction.base.map (⟨.whole, ·⟩ : Instruction → Declared)).map
      Declared.instruction = Instruction.base := by
    rw [List.map_map]
    exact List.map_id _
  rw [declared, List.map_append, hbase]
  exact congrArg (Instruction.base ++ ·) hproject

/-- A declaration is reviewed with the names of all that stand before it. -/
theorem getElem?_review : (review seen ds)[n]? = ds[n]?.map fun d =>
    (d, problems (((ds.take n).map fun d => d.instruction.name).reverse ++ seen)
      d.instruction) := by
  induction ds generalizing seen n with
  | nil => rfl
  | cons d ds ih =>
    cases n with
    | zero => rfl
    | succ n =>
      rw [review, List.getElem?_cons_succ, List.getElem?_cons_succ, ih, List.take_succ_cons,
        List.map_cons, List.reverse_cons, List.append_assoc]
      rfl

/-- Nothing is wrong with a declaration in its place if and only if it is admitted. -/
theorem problems_eq_nil_iff_admits {d : Declared} (hd : (declared project)[n]? = some d) :
    problems ((((declared project).take n).map fun d => d.instruction.name).reverse ++ [])
      d.instruction = [] ↔ Admits project n d.instruction := by
  have hn : (declarations project)[n]? = some d.instruction := by
    rw [← map_instruction_declared, List.getElem?_map, hd, Option.map_some]
  have hbefore : ((declared project).take n).map (fun d => d.instruction.name) =
      ((declarations project).take n).map Instruction.name := by
    rw [← map_instruction_declared, ← List.map_take, List.map_map]
    rfl
  rw [problems_eq_nil_iff, List.append_nil, List.mem_reverse, hbefore, Admits]
  constructor
  · rintro ⟨hnew, hrules⟩
    refine ⟨hn, fun m j hm hj hname => hnew ?_, hrules⟩
    rw [← hname]
    exact List.mem_map_of_mem (mem_take_iff.mpr ⟨m, hm, hj⟩)
  · rintro ⟨-, hfirst, hrules⟩
    refine ⟨fun hmem => ?_, hrules⟩
    obtain ⟨j, hj, hname⟩ := List.mem_map.mp hmem
    obtain ⟨m, hm, hj⟩ := mem_take_iff.mp hj
    exact hfirst m j hm hj hname

/-- An instruction is accepted if and only if a declaration of it is admitted. -/
theorem mem_accepted_iff : i ∈ accepted project ↔ ∃ n, Admits project n i := by
  unfold accepted
  rw [List.mem_filterMap]
  constructor
  · rintro ⟨⟨d, ps⟩, hmem, hi⟩
    obtain ⟨n, hn⟩ := List.mem_iff_getElem?.mp hmem
    rw [getElem?_review] at hn
    obtain ⟨d', hd, heq⟩ := Option.map_eq_some_iff.mp hn
    obtain ⟨rfl, rfl⟩ := Prod.mk.inj heq
    simp only at hi
    split at hi
    next hnil =>
      rw [← Option.some.inj hi]
      exact ⟨n, (problems_eq_nil_iff_admits hd).mp (List.isEmpty_iff.mp hnil)⟩
    next => exact absurd hi (by simp)
  · rintro ⟨n, hadmits⟩
    have hn := hadmits.1
    rw [← map_instruction_declared, List.getElem?_map] at hn
    obtain ⟨d, hd, rfl⟩ := Option.map_eq_some_iff.mp hn
    refine ⟨_, List.mem_of_getElem? (i := n) (by rw [getElem?_review, hd, Option.map_some]), ?_⟩
    have hnil := (problems_eq_nil_iff_admits hd).mpr hadmits
    simp only [hnil, List.isEmpty_nil, if_true]

theorem sublist_filterMap_of_eq {α β : Type} {f : α → Option β} {g : α → β} {xs : List α}
    (h : ∀ x y, f x = some y → y = g x) : (xs.filterMap f).Sublist (xs.map g) := by
  induction xs with
  | nil => exact List.Sublist.slnil
  | cons x xs ih =>
    rw [List.map_cons]
    cases hx : f x with
    | none =>
      rw [List.filterMap_cons_none hx]
      exact ih.cons _
    | some y =>
      rw [List.filterMap_cons_some hx, h x y hx]
      exact ih.cons_cons _

/-- Accepted instructions stand in the order of declaration. -/
theorem accepted_sublist : (accepted project).Sublist (declarations project) := by
  have hfst : ∀ (ds : List Declared) (seen : List String), (review seen ds).map Prod.fst = ds := by
    intro ds
    induction ds with
    | nil => intro seen; rfl
    | cons d ds ih => intro seen; rw [review, List.map_cons, ih]
  have hmap : (review [] (declared project)).map (fun x => x.1.instruction) =
      declarations project := by
    rw [← map_instruction_declared, ← hfst (declared project) [], List.map_map]
    rw [hfst]
    rfl
  rw [accepted, ← hmap]
  refine sublist_filterMap_of_eq ?_
  rintro ⟨d, ps⟩ j hj
  simp only at hj
  split at hj
  · exact (Option.some.inj hj).symm
  · exact absurd hj (by simp)

end Admission

/-! ## Names of opcodes -/

section Names

variable {t : InstructionTable} {e : TableEntry}

/-- The entries in the order of opcodes, as the names of the opcodes give them: a name that is
repeated in a row stands for one entry. -/
def byOpcode (t : InstructionTable) : List TableEntry :=
  (t.opcodeNames.destutter (· ≠ ·)).filterMap t.lookup?

theorem length_opcodeNames :
    t.opcodeNames.length = total (t.instructions.map (Instruction.width t.groups)) := by
  have hall : ∀ es : List TableEntry, (es.flatMap fun e =>
      List.replicate (e.instruction.width t.groups) e.instruction.name).length =
        total ((es.map TableEntry.instruction).map (Instruction.width t.groups)) := by
    intro es
    induction es with
    | nil => rfl
    | cons e es ih =>
      rw [List.flatMap_cons, List.length_append, List.length_replicate, ih, List.map_cons,
        List.map_cons, total_cons]
  exact hall t.entries

theorem destutter'_replicate_append {α : Type} [DecidableEq α] (a : α) (n : Nat) (xs : List α) :
    (List.replicate n a ++ xs).destutter' (· ≠ ·) a = xs.destutter' (· ≠ ·) a := by
  induction n with
  | zero => rfl
  | succ n ih =>
    rw [List.replicate_succ, List.cons_append, List.destutter'_cons_neg _ (by simp), ih]

/-- Rows of equal items shrink to one item each, if the items of different rows differ. -/
theorem destutter_flatMap_replicate {α β : Type} [DecidableEq β] {f : α → β} {width : α → Nat}
    {xs : List α} (hpos : ∀ x ∈ xs, 0 < width x) (hnodup : (xs.map f).Nodup) :
    (xs.flatMap fun x => List.replicate (width x) (f x)).destutter (· ≠ ·) = xs.map f := by
  -- behind an item that does not come again
  have hbehind : ∀ (xs : List α) (b : β), (∀ x ∈ xs, 0 < width x) → (xs.map f).Nodup →
      b ∉ xs.map f → (xs.flatMap fun x => List.replicate (width x) (f x)).destutter' (· ≠ ·) b =
        b :: xs.map f := by
    intro xs
    induction xs with
    | nil => intro b _ _ _; rfl
    | cons x xs ih =>
      intro b hpos hnodup hb
      obtain ⟨n, hn⟩ : ∃ n, width x = n + 1 :=
        Nat.exists_eq_succ_of_ne_zero (Nat.ne_of_gt (hpos x List.mem_cons_self))
      rw [List.map_cons, List.nodup_cons] at hnodup
      rw [List.map_cons, List.mem_cons, not_or] at hb
      rw [List.flatMap_cons, hn, List.replicate_succ, List.cons_append,
        List.destutter'_cons_pos _ hb.1, destutter'_replicate_append,
        ih (f x) (fun y hy => hpos y (List.mem_cons_of_mem x hy)) hnodup.2 hnodup.1,
        List.map_cons]
  cases xs with
  | nil => rfl
  | cons x xs =>
    obtain ⟨n, hn⟩ : ∃ n, width x = n + 1 :=
      Nat.exists_eq_succ_of_ne_zero (Nat.ne_of_gt (hpos x List.mem_cons_self))
    rw [List.map_cons, List.nodup_cons] at hnodup
    rw [List.flatMap_cons, hn, List.replicate_succ, List.cons_append, List.destutter_cons',
      destutter'_replicate_append,
      hbehind xs (f x) (fun y hy => hpos y (List.mem_cons_of_mem x hy)) hnodup.2 hnodup.1,
      List.map_cons]

variable (hnodup : (t.instructions.map Instruction.name).Nodup)
include hnodup

/-- The names of the opcodes lead to every entry once, in order. -/
theorem byOpcode_eq (hgroups : 0 < t.groups) : t.byOpcode = t.entries := by
  have hnodup' : (t.entries.map fun e => e.instruction.name).Nodup := by
    rw [instructions, List.map_map] at hnodup
    exact hnodup
  have hshrink : t.opcodeNames.destutter (· ≠ ·) = t.entries.map fun e => e.instruction.name :=
    destutter_flatMap_replicate (fun e _ => Instruction.width_pos hgroups) hnodup'
  rw [byOpcode, hshrink, List.filterMap_map]
  have hall : ∀ e ∈ t.entries, (t.lookup? ∘ fun e => e.instruction.name) e = some e :=
    fun e he => lookup?_eq_some hnodup he
  rw [List.filterMap_congr hall, List.filterMap_some]

end Names

/-! ## Names in alphabetical order -/

section Sorted

variable {t : InstructionTable}

theorem mem_names_iff {name : String} :
    name ∈ t.names ↔ ∃ e ∈ t.entries, e.instruction.name = name := by
  rw [names, (List.mergeSort_perm _ _).mem_iff, instructions, List.map_map, List.mem_map]
  rfl

/-- Names are sorted, and none is repeated. -/
theorem pairwise_names (hnodup : (t.instructions.map Instruction.name).Nodup) :
    t.names.Pairwise (· < ·) := by
  have hsorted : t.names.Pairwise fun a b => decide (a ≤ b) = true := by
    refine List.pairwise_mergeSort (fun a b c hab hbc => ?_) (fun a b => ?_) _
    · rw [decide_eq_true_eq] at *
      exact String.le_trans hab hbc
    · rw [Bool.or_eq_true, decide_eq_true_eq, decide_eq_true_eq]
      exact String.le_total a b
  have hne : t.names.Nodup := ((List.mergeSort_perm _ _).nodup_iff).mpr hnodup
  refine hsorted.imp₂ (fun a b hle hab => ?_) hne
  rw [decide_eq_true_eq] at hle
  exact lt_of_le_of_ne hle hab

end Sorted

/-! ## What is reported -/

section Reporting

variable {project : List Instruction} {i : Instruction} {n k : Nat}

theorem getElem?_declared_project : (declared project)[Instruction.base.length + k]? =
    project[k]?.map fun i => ⟨.item k, i⟩ := by
  have hlen : (Instruction.base.map (⟨.whole, ·⟩ : Instruction → Declared)).length =
      Instruction.base.length := List.length_map _
  rw [declared, ← hlen, getElem?_append_add, List.getElem?_map, List.getElem?_zipIdx]
  cases project[k]? with
  | none => rfl
  | some i => simp

/-- The instructions that every project has are admitted in every project. -/
theorem admits_base (h : Instruction.base[n]? = some i) : Admits project n i := by
  have hrules : ∀ i ∈ Instruction.base, i.problems = [] := by decide
  have hnames : (Instruction.base.map Instruction.name).Nodup := by decide
  obtain ⟨hlt, hget⟩ := List.getElem?_eq_some_iff.mp h
  refine ⟨?_, fun m j hm hj hname => ?_, ?_⟩
  · rw [declarations, List.getElem?_append_left hlt]
    exact h
  · rw [declarations, List.getElem?_append_left (by omega)] at hj
    have hm' : (Instruction.base.map Instruction.name)[m]? = some i.name := by
      rw [List.getElem?_map, hj, Option.map_some, hname]
    have hn' : (Instruction.base.map Instruction.name)[n]? = some i.name := by
      rw [List.getElem?_map, h, Option.map_some]
    have hlt' : n < (Instruction.base.map Instruction.name).length := by
      rw [List.length_map]
      exact hlt
    exact List.nodup_iff_getElem?_ne_getElem?.mp hnames m n hm hlt' (hm'.trans hn'.symm)
  · exact Instruction.problems_eq_nil_iff.mp (hrules i (List.mem_of_getElem? h))

/-- What is reported of the declaration at a position. -/
theorem mem_report_iff {d : Diagnostic} : d ∈ report project ↔
    ∃ n declared', (declared project)[n]? = some declared' ∧
      ∃ p ∈ problems ((((declared project).take n).map fun d => d.instruction.name).reverse ++ [])
          declared'.instruction,
        d = ⟨.error, .instruction, declared'.instruction.name, declared'.place, p.message⟩ := by
  unfold report
  rw [List.mem_flatMap]
  constructor
  · rintro ⟨⟨d', ps⟩, hmem, hd⟩
    obtain ⟨n, hn⟩ := List.mem_iff_getElem?.mp hmem
    rw [getElem?_review] at hn
    obtain ⟨d'', hd'', heq⟩ := Option.map_eq_some_iff.mp hn
    obtain ⟨rfl, rfl⟩ := Prod.mk.inj heq
    obtain ⟨p, hp, rfl⟩ := List.mem_map.mp hd
    exact ⟨n, d'', hd'', p, hp, rfl⟩
  · rintro ⟨n, d', hd', p, hp, rfl⟩
    refine ⟨_, List.mem_of_getElem? (i := n) (by rw [getElem?_review, hd', Option.map_some]), ?_⟩
    exact List.mem_map_of_mem hp

/-- A report on the declarations of a project: every diagnostic is an error about a declaration that
is not admitted, and there is one about each of these. -/
structure Reports (project : List Instruction) (r : Report) : Prop where
  sound : ∀ d ∈ r, d.severity = .error ∧ d.kind = .instruction ∧ ∃ k i, project[k]? = some i ∧
    ¬ Admits project (Instruction.base.length + k) i ∧ d.place = .item k ∧ d.name = i.name
  complete : ∀ k i, project[k]? = some i → ¬ Admits project (Instruction.base.length + k) i →
    ∃ d ∈ r, d.place = .item k

theorem reports_report (project : List Instruction) : Reports project (report project) := by
  constructor
  · intro d hd
    obtain ⟨n, d', hd', p, hp, rfl⟩ := mem_report_iff.mp hd
    have hrejected : ¬ Admits project n d'.instruction := by
      intro h
      rw [(problems_eq_nil_iff_admits hd').mpr h] at hp
      exact absurd hp List.not_mem_nil
    refine ⟨rfl, rfl, ?_⟩
    by_cases hbase : n < Instruction.base.length
    · have hn := List.getElem?_eq_getElem hbase
      have hsame : d'.instruction = Instruction.base[n] := by
        have hget : (declarations project)[n]? = some d'.instruction := by
          rw [← map_instruction_declared, List.getElem?_map, hd', Option.map_some]
        rw [declarations, List.getElem?_append_left hbase, hn] at hget
        exact (Option.some.inj hget).symm
      exact absurd (admits_base (by rw [hsame]; exact hn)) hrejected
    · obtain ⟨k, rfl⟩ : ∃ k, n = Instruction.base.length + k :=
        Nat.exists_eq_add_of_le (Nat.le_of_not_lt hbase)
      rw [getElem?_declared_project] at hd'
      obtain ⟨i, hi, rfl⟩ := Option.map_eq_some_iff.mp hd'
      exact ⟨k, i, hi, hrejected, rfl, rfl⟩
  · intro k i hi hrejected
    have hd : (declared project)[Instruction.base.length + k]? = some ⟨.item k, i⟩ := by
      rw [getElem?_declared_project, hi, Option.map_some]
    obtain ⟨p, hp⟩ := List.exists_mem_of_ne_nil _ fun hnil =>
      hrejected ((problems_eq_nil_iff_admits hd).mp hnil)
    exact ⟨_, mem_report_iff.mpr ⟨_, _, hd, p, hp, rfl⟩, rfl⟩

/-! ### Declarations without errors -/

/-- In a project without errors every declaration is admitted. -/
theorem admits_of_conforms (hnodup : ((declarations project).map Instruction.name).Nodup)
    (hrules : ∀ i ∈ project, i.Conforms) (hn : (declarations project)[n]? = some i) :
    Admits project n i := by
  refine ⟨hn, fun m j hm hj hname => ?_, ?_⟩
  · have hlt : n < ((declarations project).map Instruction.name).length := by
      rw [List.length_map]
      exact (List.getElem?_eq_some_iff.mp hn).1
    refine List.nodup_iff_getElem?_ne_getElem?.mp hnodup m n hm hlt ?_
    rw [List.getElem?_map, List.getElem?_map, hj, hn, Option.map_some, Option.map_some, hname]
  · rcases List.mem_append.mp (List.mem_of_getElem? hn) with hi | hi
    · obtain ⟨k, hk⟩ := List.mem_iff_getElem?.mp hi
      exact (admits_base hk : Admits project k i).2.2
    · exact hrules i hi

/-- No error is reported of the declarations if and only if their names are different and each one
keeps the rules. -/
theorem hasErrors_report_eq_false_iff : (report project).hasErrors = false ↔
    ((declarations project).map Instruction.name).Nodup ∧ ∀ i ∈ project, i.Conforms := by
  have hreports := reports_report project
  constructor
  · intro h
    have hadmits : ∀ n i, (declarations project)[n]? = some i → Admits project n i := by
      intro n i hn
      by_cases hbase : n < Instruction.base.length
      · rw [declarations, List.getElem?_append_left hbase] at hn
        exact admits_base hn
      · obtain ⟨k, rfl⟩ := Nat.exists_eq_add_of_le (Nat.le_of_not_lt hbase)
        rw [declarations, getElem?_append_add] at hn
        by_contra hrejected
        obtain ⟨d, hd, -⟩ := hreports.complete k i hn hrejected
        have herror := (hreports.sound d hd).1
        exact List.any_eq_false.mp h d hd (by rw [Diagnostic.isError, herror]; rfl)
    constructor
    · rw [List.nodup_iff_getElem?_ne_getElem?]
      intro m n hm hn hname
      rw [List.length_map] at hn
      have hj := List.getElem?_eq_getElem (Nat.lt_trans hm hn)
      have hi := List.getElem?_eq_getElem hn
      rw [List.getElem?_map, List.getElem?_map, hj, hi] at hname
      exact (hadmits n _ hi).2.1 m _ hm hj (Option.some.inj hname)
    · intro i hi
      obtain ⟨n, hn⟩ := List.mem_iff_getElem?.mp (List.mem_append_right Instruction.base hi)
      exact (hadmits n i hn).2.2
  · rintro ⟨hnodup, hrules⟩
    rw [Report.hasErrors, List.any_eq_false]
    intro d hd
    obtain ⟨-, -, k, i, hi, hrejected, -⟩ := hreports.sound d hd
    refine absurd (admits_of_conforms hnodup hrules ?_) hrejected
    rw [declarations, getElem?_append_add]
    exact hi

theorem accepted_eq_declarations (hnodup : ((declarations project).map Instruction.name).Nodup)
    (hrules : ∀ i ∈ project, i.Conforms) : accepted project = declarations project := by
  have hsubset : declarations project ⊆ accepted project := by
    intro i hi
    obtain ⟨n, hn⟩ := List.mem_iff_getElem?.mp hi
    exact mem_accepted_iff.mpr ⟨n, admits_of_conforms hnodup hrules hn⟩
  have hlength := (List.subperm_of_subset hnodup.of_map hsubset).length_le
  exact accepted_sublist.eq_of_length_le hlength

end Reporting

/-! ## The whole catalogue -/

section Catalogue

variable {project : List Instruction} {flags groups : Nat} {is : List Instruction}
  {t : InstructionTable}

/-- The opcodes that instructions need together with the branches. -/
def opcodesFor (groups : Nat) (is : List Instruction) : Nat :=
  6 + 2 * groups + total (is.map fun i => if i.takesFlag then groups else 1)

/-- A table with `groups` flag groups that holds the instructions `is`. -/
structure Arranges (groups : Nat) (is : List Instruction) (t : InstructionTable) : Prop where
  groups_eq : t.groups = groups
  instructions_eq : t.entries.map TableEntry.instruction = is
  opcodeCount_eq : t.opcodeCount = opcodesFor groups is
  tiles : Tiles groups (6 + 2 * groups) t.entries t.opcodeCount
  increasing : t.entries.Pairwise fun e e' => e.opcode < e'.opcode
  /-- Every opcode behind the branches has one owner. -/
  owner : ∀ op, 6 + 2 * groups ≤ op → op < t.opcodeCount →
    ∃! e, e ∈ t.entries ∧ e.opcode ≤ op ∧ op < e.opcode + e.instruction.width groups
  /-- No opcode is cut when it is written as one byte. -/
  narrow : (∀ e ∈ t.entries, ∀ n < e.instruction.width groups, e.opcode + n < 256) ∧
    t.branchClear + groups < 256 ∧ t.firstInstruction < 256
  yieldsAt_iff : ∀ op, t.yieldsAt op = true ↔ ∃ e ∈ t.entries, e.instruction.yields = true ∧
    e.opcode ≤ op ∧ op < e.opcode + e.instruction.width groups
  /-- The names of the opcodes say the same as the ranges. -/
  opcodeNames_eq : ∀ op, t.opcodeNames[op]? =
    (t.entryAt? (t.firstInstruction + op)).map fun e => e.instruction.name
  length_opcodeNames : t.firstInstruction + t.opcodeNames.length = t.opcodeCount
  byOpcode_eq : t.byOpcode = t.entries
  lookup?_eq : ∀ e ∈ t.entries, t.lookup? e.instruction.name = some e
  mem_names_iff : ∀ name, name ∈ t.names ↔ ∃ i ∈ is, i.name = name
  pairwise_names : t.names.Pairwise (· < ·)

theorem arranges_layOut (hgroups : 0 < groups) (hnodup : (is.map Instruction.name).Nodup)
    (hcount : required groups is ≤ maxOpcodes) :
    Arranges groups is ⟨groups, layOut groups (firstOpcode groups) is⟩ := by
  have hmax : maxOpcodes = 128 := rfl
  have hinstructions : (layOut groups (firstOpcode groups) is).map TableEntry.instruction = is :=
    map_instruction_layOut groups (firstOpcode groups) is
  have htiles : Tiles groups (firstOpcode groups) (layOut groups (firstOpcode groups) is)
      (required groups is) := tiles_layOut
  have hnodup' : ((InstructionTable.instructions
      ⟨groups, layOut groups (firstOpcode groups) is⟩).map Instruction.name).Nodup := by
    rw [instructions, hinstructions]
    exact hnodup
  have hopcodeCount : opcodeCount ⟨groups, layOut groups (firstOpcode groups) is⟩ =
      required groups is := by
    rw [opcodeCount, instructions, hinstructions]
  have hpos : ∀ e : TableEntry, 0 < e.instruction.width groups :=
    fun e => Instruction.width_pos hgroups
  have hfirst : firstOpcode groups = 6 + 2 * groups := rfl
  refine ⟨rfl, hinstructions, hopcodeCount, ?_, ?_, ?_, ?_, ?_, ?_, ?_, ?_, ?_, ?_, ?_⟩
  · rw [hopcodeCount]
    exact htiles
  · refine htiles.pairwise.imp fun {e e'} h => ?_
    have := hpos e
    omega
  · rw [hopcodeCount]
    intro op hlo hhi
    obtain ⟨e, he, hrange⟩ := htiles.exists_owner hlo hhi
    refine ⟨e, ⟨he, hrange⟩, ?_⟩
    rintro e' ⟨he', hrange'⟩
    -- both are the first entry whose range holds the opcode
    have hfound := htiles.find?_eq_some he hrange.1 hrange.2
    rw [htiles.find?_eq_some he' hrange'.1 hrange'.2] at hfound
    exact Option.some.inj hfound
  · refine ⟨fun e he n hn => ?_, ?_, ?_⟩
    · have := (htiles.bounds he).2
      omega
    · have := htiles.le
      show 6 + groups + groups < 256
      omega
    · have := htiles.le
      show firstOpcode groups < 256
      omega
  · intro op
    exact yieldsAt_eq_true_iff hnodup' htiles
  · intro op
    exact htiles.getElem?_names
  · rw [length_opcodeNames, instructions, hinstructions, hopcodeCount]
    rfl
  · exact byOpcode_eq hnodup' hgroups
  · intro e he
    exact lookup?_eq_some hnodup' he
  · intro name
    rw [mem_names_iff]
    constructor
    · rintro ⟨e, he, hname⟩
      exact ⟨e.instruction, hinstructions ▸ List.mem_map_of_mem he, hname⟩
    · rintro ⟨i, hi, hname⟩
      rw [← hinstructions] at hi
      obtain ⟨e, he, rfl⟩ := List.mem_map.mp hi
      exact ⟨e, he, hname⟩
  · exact pairwise_names hnodup'

/-- What becomes of the declarations of a project, with room for a number of flags. -/
structure Catalogued (project : List Instruction) (flags : Nat) (is : List Instruction) :
    Prop where
  sublist : is.Sublist (declarations project)
  mem_iff : ∀ i, i ∈ is ↔ ∃ n, Admits project n i
  nodup : (is.map Instruction.name).Nodup
  fails_iff : ∀ f, (build project flags).result = .error f ↔
    128 < opcodesFor (max 1 ((flags + 255) / 256)) is ∧
      f = .tooManyOpcodes (opcodesFor (max 1 ((flags + 255) / 256)) is) 128
  arranges : ∀ t, (build project flags).result = .ok t →
    Arranges (max 1 ((flags + 255) / 256)) is t
  reports : Reports project (build project flags).report

theorem report_build : (build project flags).report = report project := by
  unfold build
  rw [Outcome.report_bind_of_ok (Outcome.result_lift _), Outcome.report_lift]
  dsimp only
  split
  · rw [Outcome.throw_bind, Outcome.report_throw, List.append_nil]
    rfl
  · rw [Outcome.report_bind_of_ok (Outcome.result_lift _), Outcome.report_lift,
      Outcome.report_pure]
    exact List.append_nil _

/-- **The instruction table holds the admitted declarations, and no opcode is wasted.** -/
theorem build_catalogue (project : List Instruction) (flags : Nat) :
    ∃ is, Catalogued project flags is := by
  have hcount : required (flagGroups flags) (accepted project) =
      opcodesFor (max 1 ((flags + 255) / 256)) (accepted project) := rfl
  have hmax : maxOpcodes = 128 := rfl
  refine ⟨accepted project, accepted_sublist, fun i => mem_accepted_iff, nodup_names_accepted,
    fun f => ?_, fun t ht => ?_, ?_⟩
  · rw [← hcount]
    unfold build
    simp only [Outcome.result_bind, Outcome.result_lift, Except.bind, Outcome.result_check,
      Outcome.result_pure, hmax]
    by_cases hc : required (flagGroups flags) (accepted project) > 128
    · rw [if_pos hc, Except.error.injEq]
      exact ⟨fun h => ⟨hc, h.symm⟩, fun h => h.2.symm⟩
    · rw [if_neg hc]
      exact ⟨fun h => absurd h (by simp), fun h => absurd h.1 hc⟩
  · obtain ⟨hle, rfl⟩ := result_build_eq_ok_iff.mp ht
    exact arranges_layOut (Nat.le_max_left _ _) nodup_names_accepted hle
  · rw [report_build]
    exact reports_report project

end Catalogue

end InstructionTable

end Cartridge
