import Cartridge.Bytes
import Cartridge.MemoryMap

/-!
# Placing data in banks

Data is appended to the first bank that has room for it.  Nothing is moved or freed.  A request is
answered with the banks behind it, also if it is refused.
-/

namespace Cartridge

structure Bank where
  /-- The address of the first byte. -/
  start : Nat
  data : Array UInt8
deriving DecidableEq, Repr

namespace Bank

/-- The address of the next byte to be written. -/
def next (b : Bank) : Nat := b.start + b.data.size

def fits (b : Bank) (capacity size : Nat) : Bool := b.data.size + size ≤ capacity

/-- Whether the low sixteen bits of the next address are zero. -/
def nextIsNull (b : Bank) : Bool := b.next % 0x10000 == 0

def append (b : Bank) (data : Bytes) : Bank := ⟨b.start, b.data ++ data.toArray⟩

@[simp] theorem start_append (b : Bank) (data : Bytes) : (b.append data).start = b.start := rfl

@[simp] theorem toList_append (b : Bank) (data : Bytes) :
    (b.append data).data.toList = b.data.toList ++ data := by
  simp [append]

@[simp] theorem size_append (b : Bank) (data : Bytes) :
    (b.append data).data.size = b.data.size + data.length := by
  simp [append]

end Bank

structure Allocator where
  bankSize : Nat
  banks : List Bank
deriving Repr

namespace Allocator

def new (map : MemoryMap) : Allocator :=
  ⟨map.bankSize, (List.range map.bankCount).map fun n => ⟨map.bankAddress n, #[]⟩⟩

/-- The bytes that are free in a bank. -/
def remaining? (a : Allocator) (id : Nat) : Option Nat :=
  (a.banks[id]?).map fun b => a.bankSize - b.data.size

/-- The bytes that are used in every bank. -/
def used (a : Allocator) : List Nat := a.banks.map fun b => b.data.size

/-- The next address in a bank. -/
def next (a : Allocator) (id : Nat) : Nat := ((a.banks[id]?).map Bank.next).getD 0

def append (a : Allocator) (id : Nat) (data : Bytes) : Allocator :=
  { a with banks := a.banks.modify id fun b => b.append data }

/-- The first bank with room for `size` bytes. -/
def bankFor? (a : Allocator) (size : Nat) : Option Nat :=
  a.banks.findIdx? fun b => b.fits a.bankSize size

/-- The first such bank whose next address is not null. -/
def bankNotNullFor? (a : Allocator) (size : Nat) : Option Nat :=
  a.banks.findIdx? fun b => b.fits a.bankSize size && !b.nextIsNull

/-- The answer to a request, and the banks behind it. -/
abbrev Answer (α : Type) := Except PlacementError α × Allocator

/-- Places data, and answers with its address. -/
def add (a : Allocator) (data : Bytes) : Answer Nat :=
  match a.bankFor? data.length with
  | none => (.error (.outOfSpace data.length), a)
  | some id => (.ok (a.next id), a.append id data)

/-- Like `add`, at an address whose low sixteen bits are not zero.  A byte of padding is written only
if every bank with room would give such an address. -/
def addNotNull (a : Allocator) (data : Bytes) : Answer Nat :=
  match a.bankNotNullFor? data.length with
  | some id => (.ok (a.next id), a.append id data)
  | none =>
    match a.bankFor? (data.length + 1) with
    | none => (.error (.outOfSpace data.length), a)
    | some id =>
      let padded := a.append id [0]
      (.ok (padded.next id), padded.append id data)

/-- Writes data at an address that must be the next one of its bank. -/
def addFixed (a : Allocator) (id address : Nat) (data : Bytes) : Answer Unit :=
  match a.remaining? id with
  | none => (.error (.invalidBank id), a)
  | some remaining =>
    if a.next id ≠ address then (.error (.fixedPlacement id address (a.next id)), a)
    else if data.length > remaining then (.error (.outOfSpace data.length), a)
    else (.ok (), a.append id data)

/-- Refuses a bank that holds more than its size. -/
def checkCapacity (a : Allocator) : Except PlacementError Unit :=
  match a.banks.zipIdx.find? fun (b, _) => b.data.size > a.bankSize with
  | none => .ok ()
  | some (b, id) => .error (.bankOverflow id b.data.size a.bankSize)

end Allocator

end Cartridge
