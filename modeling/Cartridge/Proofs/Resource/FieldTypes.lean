import Cartridge.Proofs.Resource.EntryRecords
import Cartridge.Proofs.Text.Integer

/-!
# Values of field types

A type takes the integers that its bits can hold in two's complement (`FieldType.Represents`), from
every way to write them, and its bytes tell them apart.

Main statement: `FieldType.integers_faithful`.
-/

namespace Cartridge.FieldType

/-- An integer that as many bits as the type has can hold. -/
def Represents (t : FieldType) (v : Int) : Prop :=
  if t.isSigned then -2 ^ (8 * t.size - 1) ≤ v ∧ v < 2 ^ (8 * t.size - 1)
  else 0 ≤ v ∧ v < 2 ^ (8 * t.size)

/-- What texts mean for a type, and what its bytes tell. -/
structure Faithful (t : FieldType) : Prop where
  parse_iff : ∀ text v, t.parse text = .ok v ↔ Text.Denotes text.toList v ∧ t.Represents v
  length : ∀ v, (t.encode v).length = t.size
  decode : ∀ v, t.Represents v → t.decode (t.encode v) = v
  injective : ∀ v w, t.Represents v → t.Represents w → t.encode v = t.encode w → v = w

section Values

variable {t : FieldType} {v : Int}

theorem represents_iff : t.Represents v ↔ t.low ≤ v ∧ v ≤ t.high := by
  cases t <;> simp only [Represents, low, high, isSigned, size, valueCount] <;> norm_num <;> omega

/-- No type holds more than a signed 64-bit integer does. -/
theorem Represents.natAbs_le (h : t.Represents v) : v.natAbs ≤ Text.maxMagnitude := by
  rw [represents_iff] at h
  revert h
  cases t <;> simp only [low, high, isSigned, valueCount, Text.maxMagnitude] <;> norm_num <;> omega

/-- **Numbers are taken as written** if they are in the range of their type, and are read back from
their bytes. -/
theorem integers_faithful (t : FieldType) :
    (∀ text v, Text.integer? text = some v ↔
      Text.Denotes text.toList v ∧ v.natAbs ≤ Text.maxMagnitude) ∧ t.Faithful := by
  refine ⟨fun text v => Text.integer?_eq_some_iff, ?_, encode_length t, ?_, ?_⟩
  · intro text v
    rw [parse_eq_ok_iff, Text.integer?_eq_some_iff, ← represents_iff, and_assoc]
    exact and_congr_right fun _ => and_iff_right_of_imp Represents.natAbs_le
  · intro v hv
    obtain ⟨hlow, hhigh⟩ := represents_iff.mp hv
    exact decode_encode hlow hhigh
  · intro v w hv hw hsame
    obtain ⟨hlow, hhigh⟩ := represents_iff.mp hv
    obtain ⟨hlow', hhigh'⟩ := represents_iff.mp hw
    rw [← decode_encode hlow hhigh, hsame, decode_encode hlow' hhigh']

end Values

end Cartridge.FieldType
