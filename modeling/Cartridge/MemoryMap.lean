import Cartridge.Failure

/-!
# Memory maps

The banks of the cartridge that data may be written to.  A bank of a low map is the upper half of
its 64 KiB of address space, and one of a high map is all of it.
-/

namespace Cartridge

inductive MappingMode where
  | low
  | high
deriving DecidableEq, Repr

namespace MappingMode

def label : MappingMode → String
  | low => "LoROM"
  | high => "HiROM"

/-- The name in project files. -/
def key : MappingMode → String
  | low => "lorom"
  | high => "hirom"

def ofKey? : String → Option MappingMode
  | "lorom" => some low
  | "hirom" => some high
  | _ => none

end MappingMode

structure MemoryMap where
  mode : MappingMode
  firstBank : UInt8
  bankCount : Nat
deriving DecidableEq, Repr

namespace MemoryMap

/-- The map of a project that has none. -/
def standard : MemoryMap := ⟨.high, 0xC0, 4⟩

def bankSize (map : MemoryMap) : Nat :=
  match map.mode with
  | .low => 0x8000
  | .high => 0x10000

/-- The address of the first byte of bank `n`.  Addresses are 32 bits wide. -/
def bankAddress (map : MemoryMap) (n : Nat) : Nat :=
  ((map.firstBank.toNat + n) * 0x10000) % 0x100000000 +
    match map.mode with
    | .low => 0x8000
    | .high => 0

/-- A map has at least one bank and ends within 24 bits of address. -/
def check (map : MemoryMap) : Except MapError Unit :=
  if map.bankCount = 0 then .error .noBanks
  else if map.firstBank.toNat + map.bankCount > 0x100 then
    .error (.addressSpaceExceeded map.bankCount map.firstBank.toNat)
  else .ok ()

def Valid (map : MemoryMap) : Prop :=
  0 < map.bankCount ∧ map.firstBank.toNat + map.bankCount ≤ 0x100

instance (map : MemoryMap) : Decidable map.Valid :=
  inferInstanceAs (Decidable (_ ∧ _))

theorem check_eq_ok_iff {map : MemoryMap} : map.check = .ok () ↔ map.Valid := by
  unfold check Valid
  split
  · simp
    omega
  · split
    · simp
      omega
    · simp
      omega

end MemoryMap

end Cartridge
