import Cartridge.Text.Numeral

/-!
# Numbers in text

The digits that `hex` writes denote the number (`ofDigits_leftpad_toDigits`), and a number below
`0x1000000` is written with six of them (`length_leftpad_six_iff`).
-/

namespace Cartridge.Text

variable {n base width : Nat} {c : Char} {ds ds' : List Char}

theorem ofDigits_append_singleton (d : Char) :
    ofDigits base (ds ++ [d]) = ofDigits base ds * base + digitValue d := by
  rw [ofDigits, List.foldl_append, List.foldl_cons, List.foldl_nil, ofDigits]

theorem digitValue_digitChar (h : n < 16) : digitValue n.digitChar = n := by
  have hall : ∀ m < 16, digitValue (Nat.digitChar m) = m := by decide
  exact hall n h

theorem isHexDigit_digitChar (h : n < 16) : isHexDigit n.digitChar = true := by
  have hall : ∀ m < 16, isHexDigit (Nat.digitChar m) = true := by decide
  exact hall n h

/-- The last digit stands behind those of the quotient. -/
theorem ofDigits_toDigits (n : Nat) : ofDigits 16 (Nat.toDigits 16 n) = n := by
  induction n using Nat.strongRecOn with
  | ind n ih =>
    by_cases h : n < 16
    · rw [Nat.toDigits_of_lt_base h]
      exact (Nat.zero_add _).trans (digitValue_digitChar h)
    · have hmod : n % 16 < 16 := Nat.mod_lt n (by decide)
      rw [Nat.toDigits_of_base_le (by decide) (Nat.not_lt.mp h), ofDigits_append_singleton,
        ih (n / 16) (by omega), digitValue_digitChar hmod]
      omega

theorem isHexDigit_of_mem_toDigits (h : c ∈ Nat.toDigits 16 n) : isHexDigit c = true := by
  induction n using Nat.strongRecOn with
  | ind n ih =>
    by_cases hn : n < 16
    · rw [Nat.toDigits_of_lt_base hn, List.mem_singleton] at h
      rw [h]
      exact isHexDigit_digitChar hn
    · rw [Nat.toDigits_of_base_le (by decide) (Nat.not_lt.mp hn), List.mem_append,
        List.mem_singleton] at h
      rcases h with h | rfl
      · exact ih (n / 16) (by omega) h
      · exact isHexDigit_digitChar (Nat.mod_lt n (by decide))

theorem ofDigits_replicate_append (k : Nat) :
    ofDigits base (List.replicate k '0' ++ ds) = ofDigits base ds := by
  have hzero : ∀ k : Nat, (List.replicate k '0').foldl
      (fun n d => n * base + digitValue d) 0 = 0 := by
    intro k
    induction k with
    | zero => rfl
    | succ k ih =>
      have hdigit : 0 * base + digitValue '0' = 0 := by
        rw [Nat.zero_mul]
        rfl
      rw [List.replicate_succ, List.foldl_cons, hdigit]
      exact ih
  rw [ofDigits, List.foldl_append, hzero, ofDigits]

/-- The zeros in front do not count. -/
theorem ofDigits_leftpad_toDigits (width n : Nat) :
    ofDigits 16 ((Nat.toDigits 16 n).leftpad width '0') = n := by
  rw [List.leftpad, ofDigits_replicate_append, ofDigits_toDigits]

theorem isHexDigit_of_mem_leftpad (h : c ∈ (Nat.toDigits 16 n).leftpad width '0') :
    isHexDigit c = true := by
  rw [List.leftpad, List.mem_append] at h
  rcases h with h | h
  · rw [List.eq_of_mem_replicate h]
    decide
  · exact isHexDigit_of_mem_toDigits h

theorem length_leftpad_six_iff :
    ((Nat.toDigits 16 n).leftpad 6 '0').length = 6 ↔ n < 0x1000000 := by
  have hlen := @Nat.length_toDigits_le_iff 16 n 6 (by decide) (by decide)
  simp only [Nat.reducePow] at hlen
  rw [List.length_leftpad]
  omega

end Cartridge.Text
