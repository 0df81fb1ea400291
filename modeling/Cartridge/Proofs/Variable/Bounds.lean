import Cartridge.Proofs.Outcome
import Cartridge.Variable.Scope

/-!
# Indexes of variables

Every index that a built scope answers with is below the capacity of its kind.
-/

namespace Cartridge

namespace SlotTable

variable {kind : VariableKind} {vs : List Variable} {room : String} {temporaries : List String}
  {slots : SlotTable}

theorem result_build_eq_ok_iff :
    (build kind vs room temporaries).result = .ok slots ↔
      vs.length + temporaries.length ≤ kind.capacity ∧
        slots = globals vs ++ locals kind vs room temporaries := by
  unfold build
  simp only [Outcome.result_check, Outcome.result_bind, Outcome.result_lift, Except.bind,
    Outcome.result_pure]
  by_cases hc : vs.length + temporaries.length > kind.capacity
  · rw [if_pos hc]
    exact ⟨fun h => absurd h (by simp), fun h => absurd h.1 (by omega)⟩
  · rw [if_neg hc]
    simp only [Except.ok.injEq]
    exact ⟨fun h => ⟨by omega, h.symm⟩, fun h => h.2.symm⟩

theorem index_lt_of_mem_globals {slot : Slot} (h : slot ∈ globals vs) :
    slot.index < vs.length := by
  obtain ⟨⟨v, i⟩, hmem, rfl⟩ := List.mem_map.mp h
  exact (List.mem_zipIdx' hmem).1

theorem index_lt_of_mem_locals {slot : Slot} (hc : 0 < kind.capacity)
    (h : slot ∈ locals kind vs room temporaries) : slot.index < kind.capacity := by
  obtain ⟨⟨name, i⟩, -, hslot⟩ := List.mem_filterMap.mp h
  dsimp only at hslot
  split at hslot
  · exact absurd hslot (by simp)
  · obtain rfl := Option.some.inj hslot
    show kind.capacity - 1 - i < kind.capacity
    omega

theorem index_lt_of_build (h : (build kind vs room temporaries).result = .ok slots) {slot : Slot}
    (hs : slot ∈ slots) : slot.index < kind.capacity := by
  obtain ⟨hc, rfl⟩ := result_build_eq_ok_iff.mp h
  rcases List.mem_append.mp hs with hs | hs
  · have := index_lt_of_mem_globals hs
    omega
  · exact index_lt_of_mem_locals (by cases kind <;> decide) hs

/-- An index that is found is that of the slot of the name. -/
theorem exists_find?_of_lookup {room name : String} {n : Nat}
    (h : slots.lookup room name = .ok n) :
    ∃ slot, slots.find? (fun s => s.name == name) = some slot ∧ slot.index = n := by
  unfold lookup at h
  cases hf : slots.find? (fun s => s.name == name) with
  | none =>
    rw [hf] at h
    exact absurd h (by simp)
  | some slot =>
    rw [hf] at h
    refine ⟨slot, rfl, ?_⟩
    cases ho : slot.owner with
    | none =>
      simp only [ho, Except.ok.injEq] at h
      exact h
    | some owner =>
      simp only [ho] at h
      split at h
      · exact Except.ok.inj h
      · exact absurd h (by simp)

theorem exists_slot_of_lookup {room name : String} {n : Nat}
    (h : slots.lookup room name = .ok n) : ∃ slot ∈ slots, slot.index = n := by
  obtain ⟨slot, hslot, hindex⟩ := exists_find?_of_lookup h
  exact ⟨slot, List.mem_of_find?_eq_some hslot, hindex⟩

/-- No kind has more indexes than there are flags. -/
theorem lookup_lt_of_build (h : (build kind vs room temporaries).result = .ok slots)
    {room' name : String} {n : Nat} (hl : slots.lookup room' name = .ok n) :
    n < VariableKind.flag.capacity := by
  obtain ⟨slot, hmem, rfl⟩ := exists_slot_of_lookup hl
  have hlt := index_lt_of_build h hmem
  have hle : kind.capacity ≤ VariableKind.flag.capacity := by cases kind <;> decide
  omega

end SlotTable

namespace Scope

variable {state : GameState} {room : String} {temporaryFlags temporaryWords : List String}
  {scope : Scope}

theorem result_build_eq_ok_iff :
    (build state room temporaryFlags temporaryWords).result = .ok scope ↔
      ∃ flags words, (SlotTable.build .flag state.flags room temporaryFlags).result = .ok flags ∧
        (SlotTable.build .word state.words room temporaryWords).result = .ok words ∧
        scope = ⟨room, flags, words⟩ := by
  unfold build
  simp only [Outcome.result_bind_eq_ok_iff, Outcome.result_pure, Except.ok.injEq]
  constructor
  · rintro ⟨flags, hflags, words, hwords, rfl⟩
    exact ⟨flags, words, hflags, hwords, rfl⟩
  · rintro ⟨flags, words, hflags, hwords, rfl⟩
    exact ⟨flags, hflags, words, hwords, rfl⟩

theorem lookup_lt_capacity
    (h : (build state room temporaryFlags temporaryWords).result = .ok scope)
    {kind : VariableKind} {name : String} {n : Nat} (hl : scope.lookup kind name = .ok n) :
    n < kind.capacity := by
  obtain ⟨flags, words, hflags, hwords, rfl⟩ := result_build_eq_ok_iff.mp h
  obtain ⟨slot, hmem, rfl⟩ := SlotTable.exists_slot_of_lookup hl
  cases kind with
  | flag => exact SlotTable.index_lt_of_build hflags hmem
  | word => exact SlotTable.index_lt_of_build hwords hmem

end Scope

end Cartridge
