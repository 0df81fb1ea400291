import Mathlib.Computability.Language
import Cartridge.Text.Name
import Cartridge.Text.Numeral

/-!
# Patterns of characters

Languages that are put together from ranges of characters, as a table of tokens writes them, and
the tests of characters that they come down to: a text is in `name`, `decimal` or `hexadecimal` if
its characters pass these tests (`mem_name_iff`, `mem_unsignedDecimal_iff`,
`mem_unsignedHexadecimal_iff`).
-/

namespace Cartridge.Text.Pattern

open Computability

/-- The texts of one character that passes a test. -/
def oneOf (p : Char → Bool) : Language Char := {w | ∃ c, p c = true ∧ w = [c]}

/-- `[low-high]` -/
def range (low high : Char) : Language Char := oneOf fun c => low ≤ c && c ≤ high

/-- `[0-9]` -/
def digit : Language Char := range '0' '9'

/-- `[0-9a-fA-F]` -/
def hexDigit : Language Char := digit + range 'a' 'f' + range 'A' 'F'

/-- `[a-zA-Z]` -/
def letter : Language Char := range 'a' 'z' + range 'A' 'Z'

/-- `[a-zA-Z_]` -/
def nameStart : Language Char := letter + {['_']}

/-- `[a-zA-Z0-9_]` -/
def nameRest : Language Char := letter + digit + {['_']}

/-- `-?` -/
def sign : Language Char := 1 + {['-']}

/-- `0x[0-9a-fA-F]+` -/
def unsignedHexadecimal : Language Char := {['0', 'x']} * (hexDigit * hexDigit∗)

/-- `[0-9]+` -/
def unsignedDecimal : Language Char := digit * digit∗

/-- `[a-zA-Z_][a-zA-Z0-9_]*` -/
def name : Language Char := nameStart * nameRest∗

section Members

variable {p q : Char → Bool} {w : List Char}

theorem mem_oneOf_iff : w ∈ oneOf p ↔ ∃ c, p c = true ∧ w = [c] := Iff.rfl

theorem oneOf_add : oneOf p + oneOf q = oneOf fun c => p c || q c := by
  ext w
  simp only [Language.mem_add, mem_oneOf_iff, Bool.or_eq_true, or_and_right, exists_or]

theorem singleton_eq_oneOf (c : Char) : ({[c]} : Language Char) = oneOf (· == c) := by
  ext w
  simp only [mem_oneOf_iff, beq_iff_eq, exists_eq_left]
  exact Set.mem_singleton_iff

theorem mem_kstar_oneOf_iff : w ∈ (oneOf p)∗ ↔ ∀ c ∈ w, p c = true := by
  rw [Language.mem_kstar]
  constructor
  · rintro ⟨pieces, rfl, h⟩ c hc
    obtain ⟨piece, hpiece, hmem⟩ := List.mem_flatten.mp hc
    obtain ⟨d, hd, rfl⟩ := h piece hpiece
    rw [List.mem_singleton.mp hmem]
    exact hd
  · intro h
    refine ⟨w.map fun c => [c], ?_, ?_⟩
    · induction w with
      | nil => rfl
      | cons c w ih =>
        rw [List.map_cons, List.flatten_cons, ← ih fun d hd => h d (List.mem_cons_of_mem c hd)]
        rfl
    · intro piece hpiece
      obtain ⟨c, hc, rfl⟩ := List.mem_map.mp hpiece
      exact ⟨c, h c hc, rfl⟩

theorem mem_oneOf_mul_kstar_iff :
    w ∈ oneOf p * (oneOf q)∗ ↔ ∃ c cs, w = c :: cs ∧ p c = true ∧ ∀ d ∈ cs, q d = true := by
  rw [Language.mem_mul]
  constructor
  · rintro ⟨_, ⟨c, hc, rfl⟩, cs, hcs, rfl⟩
    exact ⟨c, cs, rfl, hc, mem_kstar_oneOf_iff.mp hcs⟩
  · rintro ⟨c, cs, rfl, hc, hcs⟩
    exact ⟨[c], ⟨c, hc, rfl⟩, cs, mem_kstar_oneOf_iff.mpr hcs, rfl⟩

theorem mem_oneOf_plus_iff : w ∈ oneOf p * (oneOf p)∗ ↔ w ≠ [] ∧ ∀ c ∈ w, p c = true := by
  rw [mem_oneOf_mul_kstar_iff]
  constructor
  · rintro ⟨c, cs, rfl, hc, hcs⟩
    exact ⟨List.cons_ne_nil c cs, List.forall_mem_cons.mpr ⟨hc, hcs⟩⟩
  · rintro ⟨hne, h⟩
    obtain ⟨c, cs, rfl⟩ := List.exists_cons_of_ne_nil hne
    exact ⟨c, cs, rfl, List.forall_mem_cons.mp h⟩

end Members

/-! ## The tests behind the ranges -/

section Tests

variable {w : List Char}

theorem digit_eq : digit = oneOf Char.isDigit := by
  rfl

theorem hexDigit_eq : hexDigit = oneOf isHexDigit := by
  rw [hexDigit, digit, range, range, range, oneOf_add, oneOf_add]
  rfl

theorem letter_eq : letter = oneOf Char.isAlpha := by
  rw [letter, range, range, oneOf_add]
  congr 1
  funext c
  have hupper : (decide ('A' ≤ c) && decide (c ≤ 'Z')) = c.isUpper :=
    (Bool.decide_and _ _).symm
  rw [hupper, Bool.or_comm]
  rfl

theorem nameStart_eq : nameStart = oneOf isNameStart := by
  rw [nameStart, letter_eq, singleton_eq_oneOf, oneOf_add]
  rfl

theorem nameRest_eq : nameRest = oneOf isNameRest := by
  rw [nameRest, letter_eq, digit_eq, singleton_eq_oneOf, oneOf_add, oneOf_add]
  rfl

theorem mem_unsignedDecimal_iff :
    w ∈ unsignedDecimal ↔ w ≠ [] ∧ ∀ c ∈ w, c.isDigit = true := by
  rw [unsignedDecimal, digit_eq, mem_oneOf_plus_iff]

theorem mem_unsignedHexadecimal_iff : w ∈ unsignedHexadecimal ↔
    ∃ ds, w = '0' :: 'x' :: ds ∧ ds ≠ [] ∧ ∀ c ∈ ds, isHexDigit c = true := by
  rw [unsignedHexadecimal, hexDigit_eq, Language.mem_mul]
  constructor
  · rintro ⟨_, rfl, ds, hds, rfl⟩
    exact ⟨ds, rfl, mem_oneOf_plus_iff.mp hds⟩
  · rintro ⟨ds, rfl, hds⟩
    exact ⟨['0', 'x'], rfl, ds, mem_oneOf_plus_iff.mpr hds, rfl⟩

theorem mem_sign_mul_iff {l : Language Char} :
    w ∈ sign * l ↔ w ∈ l ∨ ∃ u ∈ l, w = '-' :: u := by
  rw [sign, add_mul, one_mul, Language.mem_add, Language.mem_mul]
  constructor
  · rintro (h | ⟨_, rfl, u, hu, rfl⟩)
    · exact .inl h
    · exact .inr ⟨u, hu, rfl⟩
  · rintro (h | ⟨u, hu, rfl⟩)
    · exact .inl h
    · exact .inr ⟨['-'], rfl, u, hu, rfl⟩

theorem mem_name_iff : w ∈ name ↔
    ∃ c cs, w = c :: cs ∧ isNameStart c = true ∧ ∀ d ∈ cs, isNameRest d = true := by
  rw [name, nameStart_eq, nameRest_eq, mem_oneOf_mul_kstar_iff]

end Tests

end Cartridge.Text.Pattern
