import Cartridge.Bytes
import Cartridge.Text.Numeral

/-!
# Types of struct fields

Integers of one to four bytes, signed or not.  A value has to lie in the range of its type, and is
encoded in as many bytes as the type has.
-/

namespace Cartridge

inductive FieldType where
  | u8
  | u16
  | u24
  | u32
  | s8
  | s16
  | s24
  | s32
deriving DecidableEq, Repr

inductive ValueError where
  | outOfRange (value : Int) (type : FieldType)
  | notANumber (text : String)
deriving DecidableEq, Repr

namespace FieldType

def all : List FieldType := [u8, u16, u24, u32, s8, s16, s24, s32]

def label : FieldType → String
  | u8 => "u8"
  | u16 => "u16"
  | u24 => "u24"
  | u32 => "u32"
  | s8 => "s8"
  | s16 => "s16"
  | s24 => "s24"
  | s32 => "s32"

def ofLabel? (label : String) : Option FieldType := all.find? fun t => t.label == label

/-- The size in bytes. -/
def size : FieldType → Nat
  | u8 | s8 => 1
  | u16 | s16 => 2
  | u24 | s24 => 3
  | u32 | s32 => 4

def isSigned : FieldType → Bool
  | u8 | u16 | u24 | u32 => false
  | s8 | s16 | s24 | s32 => true

/-- How many values there are. -/
def valueCount : FieldType → Nat
  | u8 | s8 => 0x100
  | u16 | s16 => 0x10000
  | u24 | s24 => 0x1000000
  | u32 | s32 => 0x100000000

/-- The least value: half of the values of a signed type are negative. -/
def low (t : FieldType) : Int := if t.isSigned then -((t.valueCount / 2 : Nat) : Int) else 0

/-- The greatest value. -/
def high (t : FieldType) : Int := t.low + t.valueCount - 1

def check (t : FieldType) (value : Int) : Except ValueError Int :=
  if value < t.low ∨ t.high < value then .error (.outOfRange value t) else .ok value

def parse (t : FieldType) (text : String) : Except ValueError Int :=
  match Text.integer? text with
  | none => .error (.notANumber text)
  | some value => t.check value

def encode (t : FieldType) (value : Int) : Bytes := littleEndian t.size value

theorem mem_all (t : FieldType) : t ∈ all := by
  cases t <;> decide

@[simp] theorem encode_length (t : FieldType) (value : Int) :
    (t.encode value).length = t.size := littleEndian_length _ _

theorem check_eq_ok_iff {t : FieldType} {value v : Int} :
    t.check value = .ok v ↔ v = value ∧ t.low ≤ value ∧ value ≤ t.high := by
  unfold check
  split
  · simp
    omega
  · simp
    omega

end FieldType

def ValueError.message : ValueError → String
  | outOfRange value t =>
    s!"value {value} is out of range for {t.label} ({t.low}..={t.high})"
  | notANumber text => s!"invalid number: {text}"

end Cartridge
