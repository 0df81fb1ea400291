import Cartridge.Proofs.Image.AllocatorRun

/-!
# Which bank data is placed in

The allocator searches its banks twice for data that must not be at a null address: for a bank with
room whose next address is not null, and then for one with room for a byte of padding, too.  Both
searches give the first bank of their kind, told by the bytes that are free (`bankFor?_eq_some_iff`,
`bankNotNullFor?_eq_some_iff`).  Together they leave out no bank (`addNotNull_eq_error_iff`).

Main statement: `policy_after`, how the allocator chooses behind every run.
-/

namespace Cartridge

namespace Allocator

section Rooms

/-- At least `size` bytes are free in the bank. -/
def HasRoom (a : Allocator) (size id : Nat) : Prop :=
  ∃ free, a.remaining? id = some free ∧ size ≤ free

/-- The low sixteen bits of the next address in the bank are zero. -/
def AtNull (a : Allocator) (id : Nat) : Prop := a.next id % 0x10000 = 0

instance (a : Allocator) (id : Nat) : Decidable (a.AtNull id) :=
  inferInstanceAs (Decidable (_ = _))

variable {map : MemoryMap} {a : Allocator} (hf : a.Fits map) {size id : Nat}

theorem atNull_iff {b : Bank} (hb : a.banks[id]? = some b) :
    a.AtNull id ↔ b.nextIsNull = true := by
  rw [AtNull, next_eq hb, Bank.nextIsNull, beq_iff_eq]

include hf

theorem Fits.hasRoom_iff : a.HasRoom size id ↔
    ∃ b, a.banks[id]? = some b ∧ b.fits a.bankSize size = true := by
  constructor
  · rintro ⟨free, hfree, hle⟩
    obtain ⟨b, hb, rfl⟩ := Option.map_eq_some_iff.mp hfree
    have hsize := hf.size_le id b hb
    have heq := hf.bankSize_eq
    exact ⟨b, hb, decide_eq_true (by omega)⟩
  · rintro ⟨b, hb, hfits⟩
    have hroom : b.data.size + size ≤ a.bankSize := of_decide_eq_true hfits
    exact ⟨a.bankSize - b.data.size, by rw [remaining?, hb, Option.map_some], by omega⟩

theorem Fits.hasRoom_notNull_iff : a.HasRoom size id ∧ ¬ a.AtNull id ↔
    ∃ b, a.banks[id]? = some b ∧ (b.fits a.bankSize size && !b.nextIsNull) = true := by
  simp only [hf.hasRoom_iff, Bool.and_eq_true, Bool.not_eq_true', ← Bool.not_eq_true]
  constructor
  · rintro ⟨⟨b, hb, hfits⟩, hnull⟩
    exact ⟨b, hb, hfits, fun h => hnull ((atNull_iff hb).mpr h)⟩
  · rintro ⟨b, hb, hfits, hnull⟩
    exact ⟨⟨b, hb, hfits⟩, fun h => hnull ((atNull_iff hb).mp h)⟩

/-- The first search gives the first bank with room. -/
theorem Fits.bankFor?_eq_some_iff :
    a.bankFor? size = some id ↔ First (a.HasRoom size) id := by
  rw [bankFor?, findIdx?_eq_some_iff_first]
  simp only [First, hf.hasRoom_iff]

theorem Fits.bankFor?_eq_none_iff : a.bankFor? size = none ↔ ∀ id, ¬ a.HasRoom size id := by
  rw [bankFor?, findIdx?_eq_none_iff_forall]
  simp only [hf.hasRoom_iff]

/-- The other search passes over the banks that are at a null address. -/
theorem Fits.bankNotNullFor?_eq_some_iff : a.bankNotNullFor? size = some id ↔
    First (fun id => a.HasRoom size id ∧ ¬ a.AtNull id) id := by
  rw [bankNotNullFor?, findIdx?_eq_some_iff_first]
  simp only [First, hf.hasRoom_notNull_iff]

theorem Fits.bankNotNullFor?_eq_none_iff : a.bankNotNullFor? size = none ↔
    ∀ id, a.HasRoom size id → a.AtNull id := by
  rw [bankNotNullFor?, findIdx?_eq_none_iff_forall]
  simp only [← hf.hasRoom_notNull_iff, not_and, not_not]

end Rooms

/-! ## Answers -/

section Answers

variable {map : MemoryMap} {a a' : Allocator} {data : Bytes} {address : Nat} {e : PlacementError}

/-- Data is placed by the first search. -/
theorem Fits.add_eq_ok_iff (hf : a.Fits map) : a.add data = (.ok address, a') ↔
    ∃ id, First (a.HasRoom data.length) id ∧ address = a.next id ∧ a' = a.append id data := by
  simp only [← hf.bankFor?_eq_some_iff]
  unfold add
  cases a.bankFor? data.length with
  | none => simp
  | some id => simp [eq_comm]

theorem Fits.add_eq_error_iff (hf : a.Fits map) : a.add data = (.error e, a') ↔
    (∀ id, ¬ a.HasRoom data.length id) ∧ e = .outOfSpace data.length ∧ a' = a := by
  rw [← hf.bankFor?_eq_none_iff]
  unfold add
  cases a.bankFor? data.length with
  | none => simp [eq_comm]
  | some id => simp

/-- A byte of padding moves the data by one. -/
theorem next_padded {id size : Nat} (h : a.bankFor? size = some id) :
    (a.append id [0]).next id = a.next id + 1 := by
  obtain ⟨b, hb, -⟩ := exists_of_findIdx? h
  rw [next_append hb, next_eq hb, List.length_singleton]

/-- Data is placed by the search for addresses that are not null, and by the other one only if that
search finds nothing. -/
theorem Fits.addNotNull_eq_ok_iff (hf : a.Fits map) : a.addNotNull data = (.ok address, a') ↔
    (∃ id, First (fun id => a.HasRoom data.length id ∧ ¬ a.AtNull id) id ∧
      address = a.next id ∧ a' = a.append id data) ∨
    ((∀ id, a.HasRoom data.length id → a.AtNull id) ∧
      ∃ id, First (a.HasRoom (data.length + 1)) id ∧
        address = a.next id + 1 ∧ a' = a.append id (0 :: data)) := by
  simp only [← hf.bankNotNullFor?_eq_some_iff, ← hf.bankNotNullFor?_eq_none_iff,
    ← hf.bankFor?_eq_some_iff]
  unfold addNotNull
  cases a.bankNotNullFor? data.length with
  | some id => simp [eq_comm]
  | none =>
    cases hid : a.bankFor? (data.length + 1) with
    | none => simp
    | some id => simp [next_padded hid, append_append, eq_comm]

/-- The two searches leave out no bank that the data could go to. -/
theorem Fits.addNotNull_eq_error_iff (hf : a.Fits map) : a.addNotNull data = (.error e, a') ↔
    (∀ id free, a.remaining? id = some free →
      free < data.length ∨ (a.AtNull id ∧ free < data.length + 1)) ∧
        e = .outOfSpace data.length ∧ a' = a := by
  have hrefused : (∀ id free, a.remaining? id = some free →
      free < data.length ∨ (a.AtNull id ∧ free < data.length + 1)) ↔
        a.bankNotNullFor? data.length = none ∧ a.bankFor? (data.length + 1) = none := by
    rw [hf.bankNotNullFor?_eq_none_iff, hf.bankFor?_eq_none_iff]
    constructor
    · intro h
      refine ⟨?_, ?_⟩
      · rintro id ⟨free, hfree, hle⟩
        rcases h id free hfree with hlt | ⟨hnull, -⟩
        · omega
        · exact hnull
      · rintro id ⟨free, hfree, hle⟩
        rcases h id free hfree with hlt | ⟨-, hlt⟩
        · omega
        · omega
    · rintro ⟨hnull, hpadded⟩ id free hfree
      by_cases hle : data.length ≤ free
      · have hroom : ¬ data.length + 1 ≤ free := fun h => hpadded id ⟨free, hfree, h⟩
        exact .inr ⟨hnull id ⟨free, hfree, hle⟩, by omega⟩
      · exact .inl (by omega)
  rw [hrefused]
  unfold addNotNull
  cases a.bankNotNullFor? data.length with
  | some id => simp
  | none =>
    cases a.bankFor? (data.length + 1) with
    | none => simp [eq_comm]
    | some id => simp

end Answers

section Policy

/-- How an allocator chooses a bank for data. -/
structure Policy (a : Allocator) (data : Bytes) : Prop where
  add_isOk_iff : (∃ address a', a.add data = (.ok address, a')) ↔ ∃ id, a.HasRoom data.length id
  /-- The data goes to the first bank with room. -/
  add_eq_ok_iff : ∀ address a', a.add data = (.ok address, a') ↔
    ∃ id, First (a.HasRoom data.length) id ∧ address = a.next id ∧ a' = a.append id data
  add_eq_error_iff : ∀ e a', a.add data = (.error e, a') ↔
    (∀ id, ¬ a.HasRoom data.length id) ∧ e = .outOfSpace data.length ∧ a' = a
  addNotNull_ne : ∀ address a', a.addNotNull data = (.ok address, a') → address % 0x10000 ≠ 0
  /-- There is one byte of padding at most, and none if a bank with room is not at a null
  address. -/
  padding : ∀ address a', a.addNotNull data = (.ok address, a') → ∃ id padding,
    a.HasRoom (padding ++ data).length id ∧ address = a.next id + padding.length ∧
      a' = a.append id (padding ++ data) ∧
      (padding = [] ∨
        (padding = [0] ∧ ∀ n, a.HasRoom data.length n → a.next n % 0x10000 = 0))
  addNotNull_eq_error_iff : ∀ e a', a.addNotNull data = (.error e, a') ↔
    (∀ id free, a.remaining? id = some free →
      free < data.length ∨ (a.next id % 0x10000 = 0 ∧ free < data.length + 1)) ∧
        e = .outOfSpace data.length ∧ a' = a

variable {map : MemoryMap} {a : Allocator} {data : Bytes}

theorem Fits.policy (hf : a.Fits map) (data : Bytes) : Policy a data := by
  refine ⟨⟨?_, ?_⟩, fun address a' => hf.add_eq_ok_iff, fun e a' => hf.add_eq_error_iff,
    fun address a' => mod_ne_zero_of_addNotNull, fun address a' h => ?_,
    fun e a' => hf.addNotNull_eq_error_iff⟩
  · rintro ⟨address, a', h⟩
    obtain ⟨id, hid, -⟩ := hf.add_eq_ok_iff.mp h
    exact ⟨id, hid.1⟩
  · rintro ⟨id, hroom⟩
    rcases h : a.add data with ⟨e | address, a'⟩
    · exact absurd hroom ((hf.add_eq_error_iff.mp h).1 id)
    · exact ⟨address, a', rfl⟩
  · rcases hf.addNotNull_eq_ok_iff.mp h with ⟨id, hid, rfl, rfl⟩ | ⟨hnull, id, hid, rfl, rfl⟩
    · exact ⟨id, [], hid.1.1, rfl, rfl, .inl rfl⟩
    · exact ⟨id, [0], hid.1, rfl, rfl, .inr ⟨rfl, hnull⟩⟩

/-- **The allocator chooses by the bytes that are free**, behind every run over the banks of a
map. -/
theorem policy_after (map : MemoryMap) (rs : List Request) (data : Bytes) :
    Policy ((new map).run rs) data :=
  (fits_new map).run.policy data

end Policy

end Allocator

end Cartridge
