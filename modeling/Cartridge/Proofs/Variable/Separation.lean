import Cartridge.Proofs.Variable.Rules

/-!
# Variables that do not meet

The global variables of a kind take indexes from zero upwards and the temporary ones of a room from
the top downwards.  A name that has been declared before takes up a position but no index
(`NewAt`).  As long as the positions of both fit into the capacity, different names never share an
index.

Main statement: `Scope.build_separates`, for every state, room and lists of temporary variables.
-/

namespace Cartridge

/-- The name stands at position `i`, neither before it nor among the names that are taken. -/
def NewAt (taken names : List String) (i : Nat) (name : String) : Prop :=
  names[i]? = some name ∧ name ∉ names.take i ∧ name ∉ taken

section NewAt

variable {taken names : List String} {i j : Nat} {name : String}

theorem NewAt.lt_length (h : NewAt taken names i name) : i < names.length :=
  (List.getElem?_eq_some_iff.mp h.1).1

theorem NewAt.notMem_of_lt (h : NewAt taken names i name) (hj : j < i) :
    names[j]? ≠ some name := by
  intro hget
  exact h.2.1 (mem_take_iff.mpr ⟨j, hj, hget⟩)

/-- A name is new at one position only. -/
theorem NewAt.unique (hi : NewAt taken names i name) (hj : NewAt taken names j name) : i = j := by
  rcases Nat.lt_trichotomy i j with h | h | h
  · exact absurd hi.1 (hj.notMem_of_lt h)
  · exact h
  · exact absurd hj.1 (hi.notMem_of_lt h)

end NewAt

namespace SlotTable

variable {kind : VariableKind} {vs : List Variable} {room name owner : String}
  {temporaries : List String} {slots : SlotTable} {slot : Slot} {i n : Nat}

/-! ## The slot of a name -/

theorem getElem?_globals : (globals vs)[i]? = (vs[i]?).map fun v => ⟨v.name, i, v.room⟩ := by
  rw [globals, List.getElem?_map, List.getElem?_zipIdx, Option.map_map, Nat.zero_add]
  rfl

/-- The first declaration of a name counts. -/
theorem find?_globals_eq_some_iff :
    (globals vs).find? (fun s => s.name == name) = some slot ↔
      ∃ i v, vs[i]? = some v ∧ NewAt [] (vs.map Variable.name) i name ∧
        slot = ⟨name, i, v.room⟩ := by
  have hname : ∀ j : Nat, (vs.map Variable.name)[j]? = ((globals vs)[j]?).map Slot.name := by
    intro j
    rw [getElem?_globals, List.getElem?_map, Option.map_map]
    rfl
  rw [List.find?_eq_some_iff_getElem]
  constructor
  · rintro ⟨hslot, i, hi, rfl, hbefore⟩
    have hget := List.getElem?_eq_getElem hi
    have hv := hget
    rw [getElem?_globals, Option.map_eq_some_iff] at hv
    obtain ⟨v, hv, hvslot⟩ := hv
    have heq : v.name = name := by
      rw [← hvslot] at hslot
      exact eq_of_beq hslot
    refine ⟨i, v, hv, ⟨?_, fun hmem => ?_, List.not_mem_nil⟩, by rw [← hvslot, heq]⟩
    · rw [List.getElem?_map, hv, Option.map_some, heq]
    · obtain ⟨j, hj, hjname⟩ := mem_take_iff.mp hmem
      have hlt : j < (globals vs).length := by omega
      rw [hname, List.getElem?_eq_getElem hlt, Option.map_some, Option.some.injEq] at hjname
      have hno := hbefore j hj
      simp [hjname] at hno
  · rintro ⟨i, v, hv, hnew, rfl⟩
    have hget : (globals vs)[i]? = some ⟨v.name, i, v.room⟩ := by
      rw [getElem?_globals, hv, Option.map_some]
    have heq : v.name = name := by
      have hi := hnew.1
      rw [List.getElem?_map, hv, Option.map_some, Option.some.injEq] at hi
      exact hi
    obtain ⟨hi, hgot⟩ := List.getElem?_eq_some_iff.mp hget
    refine ⟨beq_self_eq_true name, i, hi, by rw [hgot, heq], fun j hj => ?_⟩
    have hlt : j < (globals vs).length := by omega
    have hne := hnew.notMem_of_lt hj
    rw [hname, List.getElem?_eq_getElem hlt, Option.map_some, ne_eq, Option.some.injEq] at hne
    simpa using hne

theorem find?_globals_eq_none_iff :
    (globals vs).find? (fun s => s.name == name) = none ↔ name ∉ vs.map Variable.name := by
  rw [List.find?_eq_none, ← map_name_globals, List.mem_map]
  simp

theorem clashes_eq_false_iff :
    clashes vs temporaries i name = false ↔
      name ∉ temporaries.take i ∧ name ∉ vs.map Variable.name := by
  rw [clashes, Bool.or_eq_false_iff, isRepeated, ← Bool.not_eq_true, ← Bool.not_eq_true,
    List.contains_iff_mem, List.contains_iff_mem, and_comm]

/-- A temporary variable gets a slot if its name is new. -/
theorem mem_locals_iff_newAt : slot ∈ locals kind vs room temporaries ↔
    ∃ i, NewAt (vs.map Variable.name) temporaries i slot.name ∧
      slot = ⟨slot.name, kind.capacity - 1 - i, some room⟩ := by
  rw [locals, List.mem_filterMap]
  constructor
  · rintro ⟨⟨name, i⟩, hmem, hslot⟩
    simp only [Option.ite_none_left_eq_some, Bool.not_eq_true, Option.some.injEq] at hslot
    obtain ⟨hclash, rfl⟩ := hslot
    exact ⟨i, ⟨List.mem_zipIdx_iff_getElem?.mp hmem, clashes_eq_false_iff.mp hclash⟩, rfl⟩
  · rintro ⟨i, ⟨hi, hnew⟩, hslot⟩
    refine ⟨(slot.name, i), List.mem_zipIdx_iff_getElem?.mpr hi, ?_⟩
    simp only [clashes_eq_false_iff.mpr hnew, Bool.false_eq_true, if_false]
    rw [← hslot]

theorem find?_locals_eq_some_iff :
    (locals kind vs room temporaries).find? (fun s => s.name == name) = some slot ↔
      ∃ i, NewAt (vs.map Variable.name) temporaries i name ∧
        slot = ⟨name, kind.capacity - 1 - i, some room⟩ := by
  constructor
  · intro h
    have hname := List.find?_some h
    obtain rfl : slot.name = name := eq_of_beq hname
    exact mem_locals_iff_newAt.mp (List.mem_of_find?_eq_some h)
  · rintro ⟨i, hnew, rfl⟩
    have hmem : (⟨name, kind.capacity - 1 - i, some room⟩ : Slot) ∈
        locals kind vs room temporaries := mem_locals_iff_newAt.mpr ⟨i, hnew, rfl⟩
    cases hf : (locals kind vs room temporaries).find? (fun s => s.name == name) with
    | none => exact absurd (List.find?_eq_none.mp hf _ hmem) (by simp)
    | some found =>
      -- the slots of temporary variables have different names
      have hname := List.find?_some hf
      obtain rfl : found.name = name := eq_of_beq hname
      obtain ⟨j, hnew', hfound⟩ := mem_locals_iff_newAt.mp (List.mem_of_find?_eq_some hf)
      rw [hfound, hnew'.unique hnew]

/-- A name has the slot of its first declaration, global or temporary. -/
theorem find?_eq_some_iff_newAt :
    (globals vs ++ locals kind vs room temporaries).find? (fun s => s.name == name) =
        some slot ↔
      (∃ i v, vs[i]? = some v ∧ NewAt [] (vs.map Variable.name) i name ∧
        slot = ⟨name, i, v.room⟩) ∨
      ∃ i, NewAt (vs.map Variable.name) temporaries i name ∧
        slot = ⟨name, kind.capacity - 1 - i, some room⟩ := by
  rw [List.find?_append, Option.or_eq_some_iff, find?_globals_eq_some_iff,
    find?_globals_eq_none_iff, find?_locals_eq_some_iff]
  refine or_congr_right ⟨fun h => h.2, fun h => ⟨?_, h⟩⟩
  obtain ⟨i, hnew, -⟩ := h
  exact hnew.2.2

/-! ## Look-ups -/

theorem lookup_eq_ok_of_find? (h : slots.find? (fun s => s.name == name) = some slot)
    (hroom : slot.owner = none ∨ slot.owner = some room) :
    slots.lookup room name = .ok slot.index := by
  unfold lookup
  rw [h]
  rcases hroom with hroom | hroom
  · simp [hroom]
  · simp [hroom]

theorem lookup_eq_wrongRoom_of_find? (h : slots.find? (fun s => s.name == name) = some slot)
    (howner : slot.owner = some owner) (hne : owner ≠ room) :
    slots.lookup room name = .error (.wrongRoom owner) := by
  unfold lookup
  rw [h]
  simp [howner, hne]

/-- What look-ups answer in a room where the names of a kind have indexes of their own. -/
structure Separates (kind : VariableKind) (vs : List Variable) (room : String)
    (temporaries : List String) (lookup : String → Except LookupError Nat) : Prop where
  lt_capacity : ∀ name n, lookup name = .ok n → n < kind.capacity
  injective : ∀ name name' n, lookup name = .ok n → lookup name' = .ok n → name = name'
  temporary : ∀ i name, NewAt (vs.map Variable.name) temporaries i name →
    lookup name = .ok (kind.capacity - 1 - i) ∧ vs.length ≤ kind.capacity - 1 - i
  /-- The index does not depend on the room. -/
  visible : ∀ i v, vs[i]? = some v → NewAt [] (vs.map Variable.name) i v.name →
    v.room = none ∨ v.room = some room → lookup v.name = .ok i
  foreign : ∀ i v owner, vs[i]? = some v → NewAt [] (vs.map Variable.name) i v.name →
    v.room = some owner → owner ≠ room → lookup v.name = .error (.wrongRoom owner)

/-- Global variables stay below the temporary ones. -/
theorem index_eq_of_newAt (hsize : vs.length + temporaries.length ≤ kind.capacity) {j : Nat}
    {name' : String} (hi : NewAt [] (vs.map Variable.name) i name)
    (hj : NewAt (vs.map Variable.name) temporaries j name') :
    i < vs.length ∧ vs.length ≤ kind.capacity - 1 - j := by
  have hlt := hi.lt_length
  have hlt' := hj.lt_length
  rw [List.length_map] at hlt
  omega

theorem separates_of_build
    (h : (build kind vs room temporaries).result = .ok slots) :
    Separates kind vs room temporaries (slots.lookup room) := by
  obtain ⟨hsize, hslots⟩ := result_build_eq_ok_iff.mp h
  have hglobal : ∀ i v, vs[i]? = some v → NewAt [] (vs.map Variable.name) i v.name →
      slots.find? (fun s => s.name == v.name) = some ⟨v.name, i, v.room⟩ := by
    intro i v hv hnew
    rw [hslots, find?_eq_some_iff_newAt]
    exact Or.inl ⟨i, v, hv, hnew, rfl⟩
  refine ⟨fun name n hl => ?_, fun name name' n hl hl' => ?_, fun i name hnew => ⟨?_, ?_⟩,
    fun i v hv hnew hroom => ?_, fun i v owner hv hnew howner hne => ?_⟩
  · obtain ⟨slot, hmem, rfl⟩ := exists_slot_of_lookup hl
    exact index_lt_of_build h hmem
  · obtain ⟨slot, hslot, rfl⟩ := exists_find?_of_lookup hl
    obtain ⟨slot', hslot', hindex⟩ := exists_find?_of_lookup hl'
    rw [hslots, find?_eq_some_iff_newAt] at hslot hslot'
    rcases hslot with ⟨i, v, hv, hnew, rfl⟩ | ⟨i, hnew, rfl⟩
    · rcases hslot' with ⟨j, v', hv', hnew', rfl⟩ | ⟨j, hnew', rfl⟩
      · obtain rfl : j = i := hindex
        exact Option.some.inj (hnew.1.symm.trans hnew'.1)
      · have hbounds := index_eq_of_newAt hsize hnew hnew'
        simp only at hindex
        omega
    · rcases hslot' with ⟨j, v', hv', hnew', rfl⟩ | ⟨j, hnew', rfl⟩
      · have hbounds := index_eq_of_newAt hsize hnew' hnew
        simp only at hindex
        omega
      · have hlt := hnew.lt_length
        have hlt' := hnew'.lt_length
        obtain rfl : j = i := by
          simp only at hindex
          omega
        exact Option.some.inj (hnew.1.symm.trans hnew'.1)
  · have hslot : slots.find? (fun s => s.name == name) =
        some ⟨name, kind.capacity - 1 - i, some room⟩ := by
      rw [hslots, find?_eq_some_iff_newAt]
      exact Or.inr ⟨i, hnew, rfl⟩
    exact lookup_eq_ok_of_find? hslot (Or.inr rfl)
  · have hlt := hnew.lt_length
    omega
  · exact lookup_eq_ok_of_find? (hglobal i v hv hnew) hroom
  · exact lookup_eq_wrongRoom_of_find? (hglobal i v hv hnew) howner hne

/-! ## Temporary variables that are declared already -/

/-- The temporary variables, with their positions, that have the name of a global variable or of an
earlier temporary one. -/
def redeclared (vs : List Variable) (temporaries : List String) : List (String × Nat) :=
  temporaries.zipIdx.filter fun x => x.1 ∈ vs.map Variable.name ∨ x.1 ∈ temporaries.take x.2

/-- The error about one of them. -/
def redeclaration (kind : VariableKind) (room : String) (x : String × Nat) : Diagnostic :=
  ⟨.error, .room, room, .item x.2, s!"temporary {kind.label} {x.1} is already declared"⟩

theorem clashes_eq_decide :
    clashes vs temporaries i name =
      decide (name ∈ vs.map Variable.name ∨ name ∈ temporaries.take i) := by
  rw [Bool.eq_iff_iff, decide_eq_true_eq, clashes, Bool.or_eq_true, isRepeated,
    List.contains_iff_mem, List.contains_iff_mem]

theorem review_eq : review kind vs room temporaries =
    (redeclared vs temporaries).map (redeclaration kind room) := by
  rw [review, redeclared, ← List.filterMap_eq_map, List.filterMap_filter]
  refine List.filterMap_congr ?_
  rintro ⟨name, i⟩ -
  simp only [clashes_eq_decide]
  rfl

theorem report_build (h : (build kind vs room temporaries).result = .ok slots) :
    (build kind vs room temporaries).report =
      (redeclared vs temporaries).map (redeclaration kind room) := by
  have hsize := (result_build_eq_ok_iff.mp h).1
  unfold build
  rw [if_neg (by omega), Outcome.report_bind_of_ok (Outcome.result_lift _), Outcome.report_lift,
    Outcome.report_pure, List.append_nil, ← review_eq]
  rfl

theorem exists_build_iff : (∃ slots, (build kind vs room temporaries).result = .ok slots) ↔
    vs.length + temporaries.length ≤ kind.capacity := by
  simp only [result_build_eq_ok_iff, exists_and_left, exists_eq, and_true]

end SlotTable

namespace Scope

variable {state : GameState} {room : String} {temporaryFlags temporaryWords : List String}

/-- **Different variables never share an index.**  Variables get indexes if and only if both kinds
have room for them; then the names of each kind have indexes of their own, and the only errors are
those about temporary variables that are declared already. -/
theorem build_separates (state : GameState) (room : String)
    (temporaryFlags temporaryWords : List String) :
    ((∃ scope, (build state room temporaryFlags temporaryWords).result = .ok scope) ↔
      state.flags.length + temporaryFlags.length ≤ 512 ∧
        state.words.length + temporaryWords.length ≤ 128) ∧
    ∀ scope, (build state room temporaryFlags temporaryWords).result = .ok scope →
      (∀ kind, SlotTable.Separates kind (state.declared kind) room
        (temporaries temporaryFlags temporaryWords kind) (scope.lookup kind)) ∧
      (build state room temporaryFlags temporaryWords).report =
        (SlotTable.redeclared state.flags temporaryFlags).map
            (SlotTable.redeclaration .flag room) ++
          (SlotTable.redeclared state.words temporaryWords).map
            (SlotTable.redeclaration .word room) := by
  constructor
  · have hflag := @SlotTable.exists_build_iff .flag state.flags room temporaryFlags
    have hword := @SlotTable.exists_build_iff .word state.words room temporaryWords
    change _ ↔ _ ≤ VariableKind.flag.capacity ∧ _ ≤ VariableKind.word.capacity
    rw [← hflag, ← hword]
    simp only [result_build_eq_ok_iff]
    constructor
    · rintro ⟨_, flags, words, hflags, hwords, -⟩
      exact ⟨⟨flags, hflags⟩, ⟨words, hwords⟩⟩
    · rintro ⟨⟨flags, hflags⟩, ⟨words, hwords⟩⟩
      exact ⟨_, flags, words, hflags, hwords, rfl⟩
  · intro scope h
    obtain ⟨flags, words, hflags, hwords, rfl⟩ := result_build_eq_ok_iff.mp h
    refine ⟨fun kind => ?_, ?_⟩
    · cases kind with
      | flag => exact SlotTable.separates_of_build hflags
      | word => exact SlotTable.separates_of_build hwords
    · unfold build
      rw [Outcome.report_bind_of_ok hflags, Outcome.report_bind_of_ok hwords,
        Outcome.report_pure, List.append_nil, SlotTable.report_build hflags,
        SlotTable.report_build hwords]

/-- A flag is declared twice, and another one belongs to a different room. -/
def sampleVariables : GameState where
  flags := [⟨"door", none⟩, ⟨"lever", some "cave"⟩, ⟨"door", some "cave"⟩]
  words := [⟨"coins", none⟩]

/-- Two of the temporary flags are declared already. -/
theorem separates_sampleVariables : ∃ scope,
    (build sampleVariables "town" ["smoke", "lever", "smoke", "fire"] []).result = .ok scope ∧
      scope.lookup .flag "door" = .ok 0 ∧
      scope.lookup .flag "lever" = .error (.wrongRoom "cave") ∧
      scope.lookup .flag "smoke" = .ok 511 ∧ scope.lookup .flag "fire" = .ok 508 ∧
      (build sampleVariables "town" ["smoke", "lever", "smoke", "fire"] []).report =
        [SlotTable.redeclaration .flag "town" ("lever", 1),
          SlotTable.redeclaration .flag "town" ("smoke", 2)] := by
  obtain ⟨hok, hall⟩ :=
    build_separates sampleVariables "town" ["smoke", "lever", "smoke", "fire"] []
  obtain ⟨scope, hscope⟩ := hok.mpr (by decide)
  obtain ⟨hseparates, hreport⟩ := hall scope hscope
  have hflags := hseparates .flag
  refine ⟨scope, hscope, ?_, ?_, ?_, ?_, hreport.trans (by decide)⟩
  · exact hflags.visible 0 ⟨"door", none⟩ rfl ⟨rfl, by decide, by decide⟩ (Or.inl rfl)
  · exact hflags.foreign 1 ⟨"lever", some "cave"⟩ "cave" rfl ⟨rfl, by decide, by decide⟩ rfl
      (by decide)
  · exact (hflags.temporary 0 "smoke" ⟨rfl, by decide, by decide⟩).1
  · exact (hflags.temporary 3 "fire" ⟨rfl, by decide, by decide⟩).1

end Scope

end Cartridge
