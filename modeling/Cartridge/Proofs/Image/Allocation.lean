import Mathlib.Data.List.Infix
import Cartridge.Image.Allocator
import Cartridge.Proofs.Lists

/-!
# What the allocator keeps

Data is only appended to banks (`Extends`), so data that a bank holds at an address stays there
(`Holds.mono`), and no bank ever holds more than its size (`Fits`).  The three ways to place data
do no more than that: a request that is met appends to one bank (`Appends`), and one that is refused
leaves all of them as they are (`eq_of_add_error` and its like).
-/

namespace Cartridge

/-! ## The windows of banks -/

namespace MemoryMap

variable {map : MemoryMap} (hm : map.Valid) {m n : Nat}
include hm

theorem bankAddress_add_bankSize (hn : n < map.bankCount) :
    map.bankAddress n + map.bankSize = (map.firstBank.toNat + n + 1) * 0x10000 := by
  have hle := hm.2
  have hlt : (map.firstBank.toNat + n) * 0x10000 < 0x100000000 := by omega
  unfold bankAddress bankSize
  rw [Nat.mod_eq_of_lt hlt]
  cases map.mode with
  | low =>
    simp only
    omega
  | high =>
    simp only
    omega

/-- Every address of a bank fits into three bytes. -/
theorem bankAddress_add_bankSize_le (hn : n < map.bankCount) :
    map.bankAddress n + map.bankSize ≤ 0x1000000 := by
  have hle := hm.2
  rw [bankAddress_add_bankSize hm hn]
  omega

omit hm in
theorem bankSize_le : map.bankSize ≤ 0x10000 := by
  unfold bankSize
  cases map.mode with
  | low => exact Nat.le_of_ble_eq_true rfl
  | high => exact Nat.le_refl _

/-- A bank ends before the next one starts. -/
theorem bankAddress_add_bankSize_le_of_lt (hn : n < map.bankCount) (h : m < n) :
    map.bankAddress m + map.bankSize ≤ map.bankAddress n := by
  have h1 := bankAddress_add_bankSize hm (Nat.lt_trans h hn)
  have h2 := bankAddress_add_bankSize hm hn
  have hsize : map.bankSize ≤ 0x10000 := bankSize_le
  omega

/-- An address is in the window of one bank only. -/
theorem eq_of_bankAddress_le (hmc : m < map.bankCount) (hnc : n < map.bankCount) {address : Nat}
    (hm1 : map.bankAddress m ≤ address) (hm2 : address < map.bankAddress m + map.bankSize)
    (hn1 : map.bankAddress n ≤ address) (hn2 : address < map.bankAddress n + map.bankSize) :
    m = n := by
  rcases Nat.lt_trichotomy m n with h | h | h
  · have := bankAddress_add_bankSize_le_of_lt hm hnc h
    omega
  · exact h
  · have := bankAddress_add_bankSize_le_of_lt hm hmc h
    omega

end MemoryMap

namespace Allocator

/-- The banks are those of a map, and none holds more than its size. -/
structure Fits (map : MemoryMap) (a : Allocator) : Prop where
  bankSize_eq : a.bankSize = map.bankSize
  length_eq : a.banks.length = map.bankCount
  start_eq : ∀ (n : Nat) (b : Bank), a.banks[n]? = some b → b.start = map.bankAddress n
  size_le : ∀ (n : Nat) (b : Bank), a.banks[n]? = some b → b.data.size ≤ map.bankSize

/-- Data is only appended. -/
def Extends (a a' : Allocator) : Prop :=
  ∀ (n : Nat) (b : Bank), a.banks[n]? = some b →
    ∃ b' : Bank, a'.banks[n]? = some b' ∧ b'.start = b.start ∧ b.data.toList <+: b'.data.toList

/-- A bank holds the data at the address. -/
def Holds (a : Allocator) (address : Nat) (data : Bytes) : Prop :=
  ∃ (n : Nat) (b : Bank), a.banks[n]? = some b ∧ b.start ≤ address ∧
    data <+: b.data.toList.drop (address - b.start)

variable {map : MemoryMap} {a a' a'' : Allocator} {id address : Nat} {b : Bank} {data : Bytes}
  {e : PlacementError}

theorem Extends.refl (a : Allocator) : a.Extends a :=
  fun _ b h => ⟨b, h, rfl, List.prefix_refl _⟩

theorem Extends.trans (h : a.Extends a') (h' : a'.Extends a'') : a.Extends a'' := by
  intro n b hb
  obtain ⟨b', hb', hstart, hdata⟩ := h n b hb
  obtain ⟨b'', hb'', hstart', hdata'⟩ := h' n b' hb'
  exact ⟨b'', hb'', hstart'.trans hstart, hdata.trans hdata'⟩

/-- What a bank holds stays where it is. -/
theorem Holds.mono (hd : a.Holds address data) (h : a.Extends a') : a'.Holds address data := by
  obtain ⟨n, b, hb, hle, hdata⟩ := hd
  obtain ⟨b', hb', hstart, hpre⟩ := h n b hb
  refine ⟨n, b', hb', by omega, ?_⟩
  rw [hstart]
  exact hdata.trans (hpre.drop _)

/-- A part of the data that a bank holds. -/
theorem Holds.part {front rest : Bytes} (h : a.Holds address (front ++ data ++ rest)) :
    a.Holds (address + front.length) data := by
  obtain ⟨n, b, hb, hle, suffix, hsuffix⟩ := h
  refine ⟨n, b, hb, by omega, rest ++ suffix, ?_⟩
  rw [Nat.sub_add_comm hle, ← List.drop_drop, ← hsuffix]
  simp only [List.append_assoc, List.drop_left]

theorem fits_new (map : MemoryMap) : (new map).Fits map := by
  have hbank : ∀ (n : Nat) (b : Bank), (new map).banks[n]? = some b →
      b = ⟨map.bankAddress n, #[]⟩ := by
    intro n b hb
    rw [new, List.getElem?_map] at hb
    obtain ⟨m, hm, rfl⟩ := Option.map_eq_some_iff.mp hb
    obtain ⟨hlt, hget⟩ := List.getElem?_eq_some_iff.mp hm
    rw [← hget, List.getElem_range]
  refine ⟨rfl, by simp [new], fun n b hb => ?_, fun n b hb => ?_⟩
  · rw [hbank n b hb]
  · rw [hbank n b hb]
    exact Nat.zero_le _

/-! ### Appending to a bank -/

theorem getElem?_banks_append (n : Nat) :
    (a.append id data).banks[n]? =
      (a.banks[n]?).map fun b => if id = n then b.append data else b :=
  List.getElem?_modify _ _ _ _

theorem extends_append (a : Allocator) (id : Nat) (data : Bytes) :
    a.Extends (a.append id data) := by
  intro n b hb
  rw [getElem?_banks_append, hb]
  refine ⟨_, rfl, ?_, ?_⟩
  · split
    · rfl
    · rfl
  · split
    · rw [Bank.toList_append]
      exact List.prefix_append _ _
    · exact List.prefix_refl _

theorem holds_append (hb : a.banks[id]? = some b) : (a.append id data).Holds b.next data := by
  refine ⟨id, b.append data, ?_, Nat.le_add_right _ _, ?_⟩
  · rw [getElem?_banks_append, hb, Option.map_some, if_pos rfl]
  · rw [Bank.start_append, Bank.next, Nat.add_sub_cancel_left, Bank.toList_append,
      ← Array.length_toList, List.drop_left]

theorem Fits.append (hf : a.Fits map) (hb : a.banks[id]? = some b)
    (hfits : b.data.size + data.length ≤ a.bankSize) : (a.append id data).Fits map := by
  have hbank : ∀ (n : Nat) (b' : Bank), (a.append id data).banks[n]? = some b' →
      ∃ b₀ : Bank, a.banks[n]? = some b₀ ∧ b'.start = b₀.start ∧ b'.data.size ≤ map.bankSize := by
    intro n b' hb'
    rw [getElem?_banks_append] at hb'
    obtain ⟨b₀, hb₀, rfl⟩ := Option.map_eq_some_iff.mp hb'
    refine ⟨b₀, hb₀, ?_, ?_⟩
    · split
      · rfl
      · rfl
    · split
      next h =>
        subst h
        obtain rfl := Option.some.inj (hb₀.symm.trans hb)
        rw [Bank.size_append, ← hf.bankSize_eq]
        exact hfits
      next => exact hf.size_le n b₀ hb₀
  refine ⟨hf.bankSize_eq, ?_, fun n b' hb' => ?_, fun n b' hb' => ?_⟩
  · rw [← hf.length_eq]
    exact List.length_modify _ _ _
  · obtain ⟨b₀, hb₀, hstart, -⟩ := hbank n b' hb'
    rw [hstart, hf.start_eq n b₀ hb₀]
  · obtain ⟨b₀, -, -, hsize⟩ := hbank n b' hb'
    exact hsize

theorem next_eq (hb : a.banks[id]? = some b) : a.next id = b.next := by
  rw [next, hb, Option.map_some, Option.getD_some]

theorem next_append (hb : a.banks[id]? = some b) (data : Bytes) :
    (a.append id data).next id = b.next + data.length := by
  have happended : (a.append id data).banks[id]? = some (b.append data) := by
    rw [getElem?_banks_append, hb, Option.map_some, if_pos rfl]
  rw [next_eq happended, Bank.next, Bank.next, Bank.start_append, Bank.size_append, Nat.add_assoc]

/-! ### Requests that are met -/

/-- What a request does that is met: the data gets the address behind some padding, at the end of a
bank that has room for both. -/
def Appends (a a' : Allocator) (address : Nat) (data : Bytes) : Prop :=
  ∃ (id : Nat) (b : Bank) (padding : Bytes), a.banks[id]? = some b ∧
    (padding ++ data).length ≤ a.bankSize - b.data.size ∧
    address = b.next + padding.length ∧ a' = a.append id (padding ++ data)

theorem append_append (a : Allocator) (id : Nat) (first second : Bytes) :
    (a.append id first).append id second = a.append id (first ++ second) := by
  have hbank : ∀ b : Bank, (b.append first).append second = b.append (first ++ second) := by
    intro b
    simp [Bank.append]
  unfold append
  simp only [List.modify_modify_eq, Function.comp_def, hbank]

theorem appends_append (hb : a.banks[id]? = some b)
    (hroom : data.length ≤ a.bankSize - b.data.size) :
    a.Appends (a.append id data) (a.next id) data :=
  ⟨id, b, [], hb, hroom, next_eq hb, rfl⟩

theorem appends_of_add (h : a.add data = (.ok address, a')) : a.Appends a' address data := by
  unfold add at h
  cases hid : a.bankFor? data.length with
  | none =>
    rw [hid] at h
    exact absurd (Prod.mk.inj h).1 (by simp)
  | some id =>
    rw [hid] at h
    obtain ⟨hok, rfl⟩ := Prod.mk.inj h
    obtain rfl := Except.ok.inj hok
    obtain ⟨b, hb, hfits⟩ := exists_of_findIdx? hid
    have hroom : b.data.size + data.length ≤ a.bankSize := of_decide_eq_true hfits
    exact appends_append hb (by omega)

/-- Data that must not be at a null address goes to a bank whose next address is not null, or
behind a byte of padding in a bank whose next address is. -/
theorem addNotNull_cases (h : a.addNotNull data = (.ok address, a')) :
    ∃ (id : Nat) (b : Bank) (padding : Bytes), a.banks[id]? = some b ∧
      b.data.size + (padding ++ data).length ≤ a.bankSize ∧
      address = b.next + padding.length ∧ a' = a.append id (padding ++ data) ∧
      (padding = [] ∧ b.next % 0x10000 ≠ 0 ∨ padding = [0] ∧ b.next % 0x10000 = 0) := by
  unfold addNotNull at h
  cases hid : a.bankNotNullFor? data.length with
  | some id =>
    rw [hid] at h
    obtain ⟨hok, rfl⟩ := Prod.mk.inj h
    obtain rfl := Except.ok.inj hok
    obtain ⟨b, hb, hp⟩ := exists_of_findIdx? hid
    obtain ⟨hfits, hno⟩ := Bool.and_eq_true_iff.mp hp
    have hroom : b.data.size + data.length ≤ a.bankSize := of_decide_eq_true hfits
    have hnull : b.next % 0x10000 ≠ 0 := by simpa [Bank.nextIsNull] using hno
    exact ⟨id, b, [], hb, hroom, next_eq hb, rfl, .inl ⟨rfl, hnull⟩⟩
  | none =>
    rw [hid] at h
    simp only at h
    cases hid' : a.bankFor? (data.length + 1) with
    | none =>
      rw [hid'] at h
      exact absurd (Prod.mk.inj h).1 (by simp)
    | some id =>
      rw [hid'] at h
      obtain ⟨hok, rfl⟩ := Prod.mk.inj h
      obtain rfl := Except.ok.inj hok
      obtain ⟨b, hb, hfits⟩ := exists_of_findIdx? hid'
      have hroom : b.data.size + (data.length + 1) ≤ a.bankSize := of_decide_eq_true hfits
      -- the bank has room for the data, so only its null address has kept it from being chosen
      have hnull : b.next % 0x10000 = 0 := by
        have hno := List.findIdx?_eq_none_iff.mp hid b (List.mem_of_getElem? hb)
        have hfit : b.fits a.bankSize data.length = true := decide_eq_true (by omega)
        rw [hfit, Bool.true_and] at hno
        simpa [Bank.nextIsNull] using hno
      exact ⟨id, b, [0], hb, hroom, next_append hb [0], append_append a id [0] data,
        .inr ⟨rfl, hnull⟩⟩

theorem appends_of_addNotNull (h : a.addNotNull data = (.ok address, a')) :
    a.Appends a' address data := by
  obtain ⟨id, b, padding, hb, hroom, haddress, ha, -⟩ := addNotNull_cases h
  exact ⟨id, b, padding, hb, by omega, haddress, ha⟩

/-- A byte of padding is enough to leave a null address. -/
theorem mod_ne_zero_of_addNotNull (h : a.addNotNull data = (.ok address, a')) :
    address % 0x10000 ≠ 0 := by
  obtain ⟨id, b, padding, -, -, rfl, -, ⟨rfl, hnull⟩ | ⟨rfl, hnull⟩⟩ := addNotNull_cases h
  · exact hnull
  · rw [List.length_singleton]
    omega

theorem appends_of_addFixed {ok : Unit} (h : a.addFixed id address data = (.ok ok, a')) :
    a.Appends a' address data := by
  unfold addFixed at h
  cases hb : a.banks[id]? with
  | none =>
    rw [remaining?, hb] at h
    exact absurd (Prod.mk.inj h).1 (by simp)
  | some b =>
    rw [remaining?, hb, Option.map_some] at h
    simp only at h
    split at h
    · exact absurd (Prod.mk.inj h).1 (by simp)
    next haddress =>
      split at h
      · exact absurd (Prod.mk.inj h).1 (by simp)
      next hroom =>
        obtain ⟨-, rfl⟩ := Prod.mk.inj h
        obtain rfl := Decidable.not_not.mp haddress
        exact appends_append hb (Nat.le_of_not_lt hroom)

/-! ### Requests that are refused -/

theorem eq_of_add_error (h : a.add data = (.error e, a')) : a' = a := by
  unfold add at h
  split at h
  · exact (Prod.mk.inj h).2.symm
  · exact absurd (Prod.mk.inj h).1 (by simp)

/-- The byte of padding is not written either. -/
theorem eq_of_addNotNull_error (h : a.addNotNull data = (.error e, a')) : a' = a := by
  unfold addNotNull at h
  split at h
  · exact absurd (Prod.mk.inj h).1 (by simp)
  · split at h
    · exact (Prod.mk.inj h).2.symm
    · exact absurd (Prod.mk.inj h).1 (by simp)

theorem eq_of_addFixed_error (h : a.addFixed id address data = (.error e, a')) : a' = a := by
  unfold addFixed at h
  split at h
  · exact (Prod.mk.inj h).2.symm
  · split at h
    · exact (Prod.mk.inj h).2.symm
    · split at h
      · exact (Prod.mk.inj h).2.symm
      · exact absurd (Prod.mk.inj h).1 (by simp)

/-! ### What follows -/

/-- What follows from a request that has been met. -/
structure Meets (a a' : Allocator) (address : Nat) (data : Bytes) : Prop where
  extended : a.Extends a'
  holds : a'.Holds address data
  fits : ∀ map : MemoryMap, a.Fits map → a'.Fits map

theorem Appends.meets (h : a.Appends a' address data) : a.Meets a' address data := by
  obtain ⟨id, b, padding, hb, hroom, rfl, rfl⟩ := h
  refine ⟨extends_append a id _, ?_, fun map hf => hf.append hb ?_⟩
  · have hholds : (a.append id (padding ++ data)).Holds b.next (padding ++ data ++ []) := by
      rw [List.append_nil]
      exact holds_append hb
    exact hholds.part
  · have hsize := hf.size_le id b hb
    have heq := hf.bankSize_eq
    omega

end Allocator

end Cartridge
