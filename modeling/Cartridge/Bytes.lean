/-!
# Bytes

`littleEndian width n` holds the `width` low bytes of `n`, the least significant first, with negative
numbers in two's complement.
-/

namespace Cartridge

abbrev Bytes := List UInt8

def byte (n : Nat) : UInt8 := UInt8.ofNat n

def littleEndian : Nat → Int → Bytes
  | 0, _ => []
  | width + 1, n => byte (n % 256).toNat :: littleEndian width (n / 256)

/-- A sixteen-bit number, the low byte first. -/
def word16 (n : Nat) : Bytes := [byte n, byte (n / 256)]

@[simp] theorem littleEndian_length (width : Nat) (n : Int) :
    (littleEndian width n).length = width := by
  induction width generalizing n with
  | zero => rfl
  | succ width ih => simp [littleEndian, ih]

@[simp] theorem word16_length (n : Nat) : (word16 n).length = 2 := rfl

end Cartridge
