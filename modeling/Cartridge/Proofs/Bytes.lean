import Mathlib.Algebra.Ring.Int.Defs
import Cartridge.Bytes

/-!
# Reading bytes back

`ofLittleEndian` reads what `word16` and `littleEndian` write, for numbers that fit.
-/

namespace Cartridge

/-- The number that bytes denote, the least significant first. -/
def ofLittleEndian : Bytes → Nat
  | [] => 0
  | b :: bs => b.toNat + 256 * ofLittleEndian bs

@[simp] theorem toNat_byte (n : Nat) : (byte n).toNat = n % 256 := by
  simp [byte]

theorem toNat_byte_of_lt {n : Nat} (h : n < 256) : (byte n).toNat = n := by
  rw [toNat_byte, Nat.mod_eq_of_lt h]

theorem byte_mod (n : Nat) : byte (n % 256) = byte n := by
  apply UInt8.toNat.inj
  rw [toNat_byte, toNat_byte, Nat.mod_mod]

theorem ofLittleEndian_word16 {n : Nat} (h : n < 0x10000) : ofLittleEndian (word16 n) = n := by
  simp only [word16, ofLittleEndian, toNat_byte]
  omega

/-- Only what the bytes have room for is read back, and a negative number as its complement. -/
theorem ofLittleEndian_littleEndian_eq_emod (width : Nat) (n : Int) :
    (ofLittleEndian (littleEndian width n) : Int) = n % 256 ^ width := by
  induction width generalizing n with
  | zero => simp [littleEndian, ofLittleEndian]
  | succ width ih =>
    have hlow : ((byte (n % 256).toNat).toNat : Int) = n % 256 := by
      rw [toNat_byte]
      omega
    have hstep : n % 256 ^ (width + 1) = n % 256 + 256 * (n / 256 % 256 ^ width) := by
      rw [Int.pow_succ', Int.emod_def, Int.emod_def (n / 256), Int.ediv_ediv_of_nonneg (by decide),
        Int.emod_def n 256, Int.mul_sub, Int.mul_assoc]
      omega
    rw [littleEndian, ofLittleEndian, Int.natCast_add, Int.natCast_mul, ih, hlow, hstep]
    rfl

/-- The low bytes of a number that has no more than three. -/
theorem ofLittleEndian_littleEndian {n : Nat} (h : n < 0x1000000) :
    ofLittleEndian (littleEndian 3 n) = n := by
  have hread := ofLittleEndian_littleEndian_eq_emod 3 n
  omega

end Cartridge
