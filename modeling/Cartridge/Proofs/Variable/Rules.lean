import Cartridge.Proofs.Resource.Names
import Cartridge.Proofs.Variable.Bounds

/-!
# Rules for variables

Nothing is reported of the global variables of a project if they are well formed
(`GameState.accepts_check_iff`), and nothing of the temporary variables of a room if their
names are new (`SlotTable.hasErrors_review_eq_false_iff`).  Then the room sees its temporary
variables and every global one that does not belong to another room
(`SlotTable.exists_visible_iff`).
-/

namespace Cartridge

theorem VariableKind.forall_iff {P : VariableKind → Prop} :
    (∀ kind, P kind) ↔ P .flag ∧ P .word := by
  constructor
  · intro h
    exact ⟨h .flag, h .word⟩
  · rintro ⟨hflag, hword⟩ kind
    cases kind with
    | flag => exact hflag
    | word => exact hword

/-! ## Global variables -/

namespace GameState

variable {state : GameState} {rooms : List String} {kind : VariableKind} {vs : List Variable}

/-- The names of each kind are proper ones, and a room that owns a variable is one of the rooms. -/
structure WellFormed (state : GameState) (rooms : List String) : Prop where
  names : ∀ kind, ProperNames ((state.declared kind).map Variable.name)
  owners : ∀ kind, ∀ v ∈ state.declared kind, ∀ room, v.room = some room → room ∈ rooms

/-- What is asked of a single variable. -/
def Lawful (rooms : List String) (v : Variable) : Prop :=
  Text.isName v.name = true ∧ ∀ room, v.room = some room → room ∈ rooms

theorem hasErrors_problems_eq_false_iff {names : List String} {i : Nat} {v : Variable} :
    (problems kind rooms names i v).hasErrors = false ↔
      Lawful rooms v ∧ isRepeated names i v.name = false := by
  rw [problems, Report.hasErrors_append_eq_false_iff, Report.hasErrors_append_eq_false_iff,
    Report.hasErrors_unless_iff rfl, Report.hasErrors_when_iff rfl, Lawful, and_right_comm]
  refine and_congr_left fun _ => and_congr_right fun _ => ?_
  cases v.room with
  | none => simp [Report.hasErrors]
  | some room =>
    dsimp only
    rw [Report.hasErrors_unless_iff rfl, List.contains_iff_mem]
    simp

theorem hasErrors_review_eq_false_iff : (review kind rooms vs).hasErrors = false ↔
    ProperNames (vs.map Variable.name) ∧
      ∀ v ∈ vs, ∀ room, v.room = some room → room ∈ rooms := by
  have hall := @forall_zipIdx_isRepeated_iff Variable Variable.name vs (Lawful rooms)
  rw [review, Report.hasErrors_flatMap_eq_false_iff]
  simp only [hasErrors_problems_eq_false_iff]
  rw [hall]
  constructor
  · rintro ⟨hlawful, hnodup⟩
    refine ⟨⟨fun name hname => ?_, hnodup⟩, fun v hv => (hlawful v hv).2⟩
    obtain ⟨v, hv, rfl⟩ := List.mem_map.mp hname
    exact (hlawful v hv).1
  · rintro ⟨hnames, howners⟩
    exact ⟨fun v hv => ⟨hnames.valid _ (List.mem_map_of_mem hv), howners v hv⟩, hnames.nodup⟩

theorem accepts_checkKind_iff : (state.checkKind rooms kind).Accepts () ↔
    (state.declared kind).length ≤ kind.capacity ∧
      ProperNames ((state.declared kind).map Variable.name) ∧
      ∀ v ∈ state.declared kind, ∀ room, v.room = some room → room ∈ rooms := by
  rw [← @hasErrors_review_eq_false_iff rooms kind]
  unfold checkKind
  dsimp only
  by_cases hc : (state.declared kind).length > kind.capacity
  · rw [if_pos hc, Outcome.throw_bind]
    constructor
    · intro h
      exact absurd h Outcome.not_accepts_throw
    · intro h
      omega
  · rw [if_neg hc, Outcome.accepts_lift_iff]
    constructor
    · intro h
      exact ⟨by omega, h.2⟩
    · intro h
      exact ⟨rfl, h.2⟩

/-- A check accepts well-formed variables, unless there are too many of them. -/
theorem accepts_check_iff : (state.check rooms).Accepts () ↔
    (∀ kind, (state.declared kind).length ≤ kind.capacity) ∧ state.WellFormed rooms := by
  unfold check
  rw [Outcome.accepts_bind_iff]
  constructor
  · rintro ⟨_, hflags, hwords⟩
    have hkind : ∀ kind, (state.checkKind rooms kind).Accepts () :=
      VariableKind.forall_iff.mpr ⟨hflags, hwords⟩
    simp only [accepts_checkKind_iff] at hkind
    exact ⟨fun kind => (hkind kind).1, fun kind => (hkind kind).2.1, fun kind => (hkind kind).2.2⟩
  · rintro ⟨hcount, h⟩
    have hkind : ∀ kind, (state.checkKind rooms kind).Accepts () := fun kind =>
      accepts_checkKind_iff.mpr ⟨hcount kind, h.names kind, h.owners kind⟩
    exact ⟨(), hkind .flag, hkind .word⟩

theorem result_check_eq_ok_iff : (state.check rooms).result = .ok () ↔
    ∀ kind, (state.declared kind).length ≤ kind.capacity := by
  have hkind : ∀ kind, (state.checkKind rooms kind).result = .ok () ↔
      (state.declared kind).length ≤ kind.capacity := by
    intro kind
    unfold checkKind
    dsimp only
    rw [Outcome.result_check]
    by_cases hc : (state.declared kind).length > kind.capacity
    · rw [if_pos hc]
      simp
      omega
    · rw [if_neg hc]
      simp
      omega
  unfold check
  rw [Outcome.result_bind_eq_ok_iff]
  rw [VariableKind.forall_iff]
  simp only [hkind, exists_const]

end GameState

/-! ## Temporary variables -/

namespace SlotTable

variable {kind : VariableKind} {vs : List Variable} {room name : String}
  {temporaries : List String} {slots : SlotTable} {slot : Slot}

theorem hasErrors_review_eq_false_iff : (review kind vs room temporaries).hasErrors = false ↔
    temporaries.Nodup ∧ ∀ name ∈ temporaries, name ∉ vs.map Variable.name := by
  have hall := @forall_zipIdx_isRepeated_iff String id temporaries (· ∉ vs.map Variable.name)
  rw [List.map_id, and_comm] at hall
  rw [← hall, review, Report.hasErrors, List.any_eq_false]
  constructor
  · rintro h ⟨name, i⟩ hmem
    have hclash : clashes vs temporaries i name = false := by
      by_contra hc
      rw [Bool.not_eq_false] at hc
      have hfound := h _ (List.mem_filterMap.mpr ⟨(name, i), hmem, if_pos hc⟩)
      exact hfound rfl
    rw [clashes, Bool.or_eq_false_iff] at hclash
    refine ⟨fun hmem => ?_, hclash.2⟩
    rw [List.contains_iff_mem.mpr hmem] at hclash
    exact absurd hclash.1 (by decide)
  · intro h d hd
    obtain ⟨⟨name, i⟩, hmem, hsome⟩ := List.mem_filterMap.mp hd
    obtain ⟨hnew, hrep⟩ := h (name, i) hmem
    have hclash : clashes vs temporaries i name = false := by
      rw [clashes, Bool.or_eq_false_iff]
      refine ⟨?_, hrep⟩
      rw [Bool.eq_false_iff, ne_eq, List.contains_iff_mem]
      exact hnew
    simp [hclash] at hsome

theorem accepts_build_iff : (build kind vs room temporaries).Accepts slots ↔
    (build kind vs room temporaries).result = .ok slots ∧ temporaries.Nodup ∧
      ∀ name ∈ temporaries, name ∉ vs.map Variable.name := by
  rw [← @hasErrors_review_eq_false_iff kind vs room temporaries, Outcome.Accepts]
  refine and_congr_right fun hok => ?_
  have hcount := (result_build_eq_ok_iff.mp hok).1
  unfold build
  rw [if_neg (by omega), Outcome.report_bind_of_ok (Outcome.result_lift _), Outcome.report_lift,
    Outcome.report_pure, List.append_nil]
  rfl

theorem map_name_globals : (globals vs).map Slot.name = vs.map Variable.name := by
  have hfst : (vs.zipIdx.map Prod.fst).map Variable.name = vs.map Variable.name := by
    rw [List.zipIdx_map_fst]
  rw [globals, List.map_map, ← hfst, List.map_map]
  rfl

theorem mem_globals_iff : slot ∈ globals vs ↔
    ∃ i v, vs[i]? = some v ∧ slot = ⟨v.name, i, v.room⟩ := by
  rw [globals, List.mem_map]
  constructor
  · rintro ⟨⟨v, i⟩, hmem, rfl⟩
    exact ⟨i, v, List.mem_zipIdx_iff_getElem?.mp hmem, rfl⟩
  · rintro ⟨i, v, hi, rfl⟩
    exact ⟨(v, i), List.mem_zipIdx_iff_getElem?.mpr hi, rfl⟩

section New

variable (hnodup : temporaries.Nodup) (hnew : ∀ name ∈ temporaries, name ∉ vs.map Variable.name)
include hnodup hnew

/-- Every temporary variable with a new name gets a slot. -/
theorem locals_eq : locals kind vs room temporaries =
    temporaries.zipIdx.map fun x => ⟨x.1, kind.capacity - 1 - x.2, some room⟩ := by
  rw [locals, ← List.filterMap_eq_map]
  refine List.filterMap_congr ?_
  rintro ⟨name, i⟩ hmem
  have hi : temporaries[i]? = some name := List.mem_zipIdx_iff_getElem?.mp hmem
  have hclash : clashes vs temporaries i name = false := by
    rw [clashes, isRepeated_eq_false_of_nodup hnodup hi, Bool.or_false, Bool.eq_false_iff, ne_eq,
      List.contains_iff_mem]
    exact hnew name (List.mem_of_getElem? hi)
  simp [hclash]

theorem map_name_locals : (locals kind vs room temporaries).map Slot.name = temporaries := by
  rw [locals_eq hnodup hnew, List.map_map]
  exact List.zipIdx_map_fst 0 temporaries

theorem mem_locals_iff : slot ∈ locals kind vs room temporaries ↔
    ∃ i, temporaries[i]? = some slot.name ∧ slot.index = kind.capacity - 1 - i ∧
      slot.owner = some room := by
  rw [locals_eq hnodup hnew, List.mem_map]
  constructor
  · rintro ⟨⟨name, i⟩, hmem, rfl⟩
    exact ⟨i, List.mem_zipIdx_iff_getElem?.mp hmem, rfl, rfl⟩
  · rintro ⟨i, hi, hindex, howner⟩
    refine ⟨(slot.name, i), List.mem_zipIdx_iff_getElem?.mpr hi, ?_⟩
    rw [← hindex, ← howner]

/-- The slots of a room have different names. -/
theorem nodup_names (hglobals : (vs.map Variable.name).Nodup) :
    ((globals vs ++ locals kind vs room temporaries).map Slot.name).Nodup := by
  rw [List.map_append, map_name_globals, map_name_locals hnodup hnew, List.nodup_append]
  refine ⟨hglobals, hnodup, fun a ha b hb hab => ?_⟩
  subst hab
  exact hnew a hb ha

/-- A room may use its temporary variables and the global ones that no other room owns. -/
theorem exists_visible_iff (hglobals : (vs.map Variable.name).Nodup) :
    (∃ slot, (globals vs ++ locals kind vs room temporaries).find? (fun s => s.name == name) =
        some slot ∧ (slot.owner = none ∨ slot.owner = some room)) ↔
      name ∈ temporaries ∨ ∃ v ∈ vs, v.name = name ∧ (v.room = none ∨ v.room = some room) := by
  have hdifferent := @nodup_names kind vs room temporaries hnodup hnew hglobals
  simp only [find?_eq_some_iff_of_nodup Slot.name hdifferent, List.mem_append]
  constructor
  · rintro ⟨slot, ⟨hglobal | hlocal, rfl⟩, howner⟩
    · obtain ⟨i, v, hi, rfl⟩ := mem_globals_iff.mp hglobal
      exact Or.inr ⟨v, List.mem_of_getElem? hi, rfl, howner⟩
    · obtain ⟨i, hi, -⟩ := (mem_locals_iff hnodup hnew).mp hlocal
      exact Or.inl (List.mem_of_getElem? hi)
  · rintro (hlocal | ⟨v, hv, rfl, howner⟩)
    · obtain ⟨i, hi⟩ := List.mem_iff_getElem?.mp hlocal
      exact ⟨⟨name, kind.capacity - 1 - i, some room⟩,
        ⟨Or.inr ((mem_locals_iff hnodup hnew).mpr ⟨i, hi, rfl, rfl⟩), rfl⟩, Or.inr rfl⟩
    · obtain ⟨i, hi⟩ := List.mem_iff_getElem?.mp hv
      exact ⟨⟨v.name, i, v.room⟩, ⟨Or.inl (mem_globals_iff.mpr ⟨i, v, hi, rfl⟩), rfl⟩, howner⟩

end New

end SlotTable

/-! ## The variables of a room -/

namespace Scope

variable {scope : Scope} {kind : VariableKind} {name : String} {n : Nat}

/-- The first variable of the name has the index `n`, and the room may use it. -/
def Sees (scope : Scope) (kind : VariableKind) (name : String) (n : Nat) : Prop :=
  ∃ slot, (scope.slots kind).find? (fun s => s.name == name) = some slot ∧ slot.index = n ∧
    (slot.owner = none ∨ slot.owner = some scope.room)

theorem lookup_eq_ok_iff : scope.lookup kind name = .ok n ↔ scope.Sees kind name n := by
  unfold lookup SlotTable.lookup Sees
  cases hf : (scope.slots kind).find? (fun s => s.name == name) with
  | none => simp
  | some slot =>
    simp only [Option.some.injEq, exists_eq_left']
    cases ho : slot.owner with
    | none => simp
    | some owner =>
      by_cases howner : owner = scope.room
      · simp [howner]
      · simp [howner]

variable {state : GameState} {room : String} {temporaryFlags temporaryWords : List String}

/-- The temporary variables of one kind. -/
def temporaries (temporaryFlags temporaryWords : List String) : VariableKind → List String
  | .flag => temporaryFlags
  | .word => temporaryWords

/-- Nothing is reported of temporary variables if and only if their names are new. -/
theorem accepts_build_iff : (build state room temporaryFlags temporaryWords).Accepts scope ↔
    (build state room temporaryFlags temporaryWords).result = .ok scope ∧
      ∀ kind, (temporaries temporaryFlags temporaryWords kind).Nodup ∧
        ∀ name ∈ temporaries temporaryFlags temporaryWords kind,
          name ∉ (state.declared kind).map Variable.name := by
  constructor
  · intro h
    refine ⟨h.1, fun kind => ?_⟩
    unfold build at h
    obtain ⟨flags, hflags, h⟩ := Outcome.accepts_bind_iff.mp h
    obtain ⟨words, hwords, -⟩ := Outcome.accepts_bind_iff.mp h
    cases kind with
    | flag => exact (SlotTable.accepts_build_iff.mp hflags).2
    | word => exact (SlotTable.accepts_build_iff.mp hwords).2
  · rintro ⟨hok, hnew⟩
    obtain ⟨flags, words, hflags, hwords, rfl⟩ := result_build_eq_ok_iff.mp hok
    have hflags := SlotTable.accepts_build_iff.mpr ⟨hflags, hnew .flag⟩
    have hwords := SlotTable.accepts_build_iff.mpr ⟨hwords, hnew .word⟩
    unfold build
    exact Outcome.accepts_bind_iff.mpr ⟨flags, hflags, Outcome.accepts_bind_iff.mpr
      ⟨words, hwords, Outcome.accepts_pure_iff.mpr rfl⟩⟩

/-- What a room sees, if all names are different. -/
theorem exists_sees_iff (h : (build state room temporaryFlags temporaryWords).Accepts scope)
    (hglobals : ((state.declared kind).map Variable.name).Nodup) :
    (∃ n, scope.Sees kind name n) ↔ name ∈ temporaries temporaryFlags temporaryWords kind ∨
      ∃ v ∈ state.declared kind, v.name = name ∧ (v.room = none ∨ v.room = some room) := by
  obtain ⟨hok, hnew⟩ := accepts_build_iff.mp h
  obtain ⟨hnodup, hnew⟩ := hnew kind
  have hslots : scope.room = room ∧ scope.slots kind =
      SlotTable.globals (state.declared kind) ++ SlotTable.locals kind (state.declared kind) room
        (temporaries temporaryFlags temporaryWords kind) := by
    obtain ⟨flags, words, hflags, hwords, rfl⟩ := result_build_eq_ok_iff.mp hok
    cases kind with
    | flag => exact ⟨rfl, (SlotTable.result_build_eq_ok_iff.mp hflags).2⟩
    | word => exact ⟨rfl, (SlotTable.result_build_eq_ok_iff.mp hwords).2⟩
  rw [← SlotTable.exists_visible_iff hnodup hnew hglobals]
  unfold Sees
  rw [hslots.1, hslots.2]
  constructor
  · rintro ⟨n, slot, hslot, -, howner⟩
    exact ⟨slot, hslot, howner⟩
  · rintro ⟨slot, hslot, howner⟩
    exact ⟨slot.index, slot, hslot, rfl, howner⟩

end Scope

end Cartridge
