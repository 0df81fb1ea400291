import Mathlib.Data.List.Forall2
import Mathlib.Data.Nat.Digits.Defs
import Cartridge.Text.Numeral

/-!
# Integers in text

`Denotes` says what an integer is written like: decimal digits, or hexadecimal digits behind `0x` or
`0X`, with at most one minus sign in front.  `integer?` reads all of these and nothing else, as long
as the magnitude is that of a signed 64-bit integer.

Main statement: `integer?_eq_some_iff`.
-/

namespace Cartridge.Text

/-- The character stands for the digit, as a small or as a capital letter where it is a letter. -/
def IsDigit (base : Nat) (c : Char) (d : Nat) : Prop :=
  d < base ∧ ("0123456789abcdef".toList[d]? = some c ∨ "0123456789ABCDEF".toList[d]? = some c)

instance (base : Nat) (c : Char) (d : Nat) : Decidable (IsDigit base c d) :=
  inferInstanceAs (Decidable (_ ∧ _))

/-- The characters are the digits of the number, the most significant first. -/
def Numeral (base : Nat) (cs : List Char) (n : Nat) : Prop :=
  ∃ values, values ≠ [] ∧ List.Forall₂ (IsDigit base) cs values ∧
    Nat.ofDigits base values.reverse = n

inductive Magnitude : List Char → Nat → Prop where
  | decimal {cs n} (h : Numeral 10 cs n) : Magnitude cs n
  | hexadecimal {cs n x} (hx : x = 'x' ∨ x = 'X') (h : Numeral 16 cs n) :
      Magnitude ('0' :: x :: cs) n

/-- The text is a way to write the integer. -/
inductive Denotes : List Char → Int → Prop where
  | plain {cs n} (h : Magnitude cs n) : Denotes cs (n : Int)
  | negative {cs n} (h : Magnitude cs n) : Denotes ('-' :: cs) (-(n : Int))

/-! ## Digits -/

section Digits

variable {base d n : Nat} {c x : Char} {cs : List Char} {values : List Nat}
  {isDigit : Char → Bool}

/-- A test accepts the digits of a base. -/
def Tests (base : Nat) (isDigit : Char → Bool) : Prop :=
  ∀ c d, IsDigit base c d ↔ isDigit c = true ∧ digitValue c = d

/-- It is enough to look at the letters of each digit and at the characters below 128. -/
theorem tests_of_small
    (hread : ∀ d < base, ("0123456789abcdef".toList[d]?.toList ++
      "0123456789ABCDEF".toList[d]?.toList).all (fun c => isDigit c && digitValue c == d) = true)
    (hwrite : ∀ n < 128, isDigit (Char.ofNat n) = true →
      IsDigit base (Char.ofNat n) (digitValue (Char.ofNat n)))
    (hsmall : ∀ c, isDigit c = true → c.toNat < 128) : Tests base isDigit := by
  intro c d
  constructor
  · rintro ⟨hd, hc⟩
    have hmem : c ∈ "0123456789abcdef".toList[d]?.toList ++
        "0123456789ABCDEF".toList[d]?.toList := by
      rw [List.mem_append, Option.mem_toList, Option.mem_toList]
      exact hc
    have htests := List.all_eq_true.mp (hread d hd) c hmem
    rwa [Bool.and_eq_true, beq_iff_eq] at htests
  · rintro ⟨hc, rfl⟩
    have hdigit := hwrite c.toNat (hsmall c hc)
    rw [Char.ofNat_toNat] at hdigit
    exact hdigit hc

theorem tests_decimal : Tests 10 Char.isDigit := by
  refine tests_of_small (by decide) (by decide) fun c hc => ?_
  have hrange := Char.isDigit_iff_toNat.mp hc
  have hnine : ('9' : Char).toNat = 57 := rfl
  omega

theorem tests_hexadecimal : Tests 16 isHexDigit := by
  refine tests_of_small (by decide) (by decide) fun c hc => ?_
  simp only [isHexDigit, Bool.or_eq_true, Bool.and_eq_true, decide_eq_true_eq,
    Char.isDigit_iff_toNat, Char.le_def, UInt32.le_iff_toNat_le] at hc
  have hnine : ('9' : Char).toNat = 57 := rfl
  have hsmall : ('f' : Char).val.toNat = 102 := rfl
  have hcapital : ('F' : Char).val.toNat = 70 := rfl
  have htoNat : c.toNat = c.val.toNat := rfl
  omega

/-- The digits are read from the most significant one on. -/
theorem ofDigits_eq (base : Nat) (cs : List Char) :
    Nat.ofDigits base (cs.map digitValue).reverse = ofDigits base cs := by
  rw [Nat.ofDigits_eq_foldr, List.foldr_reverse, ofDigits, List.foldl_map]
  congr 1
  funext n c
  rw [Nat.cast_id, Nat.add_comm, Nat.mul_comm]

theorem forall₂_isDigit_iff (h : Tests base isDigit) :
    List.Forall₂ (IsDigit base) cs values ↔
      (∀ c ∈ cs, isDigit c = true) ∧ values = cs.map digitValue := by
  induction cs generalizing values with
  | nil => simp [List.forall₂_nil_left_iff]
  | cons c cs ih =>
    cases values with
    | nil => simp [List.forall₂_nil_right_iff]
    | cons d values =>
      rw [List.forall₂_cons, h c d, ih, List.forall_mem_cons, List.map_cons, List.cons.injEq]
      constructor
      · rintro ⟨⟨hc, rfl⟩, hcs, rfl⟩
        exact ⟨⟨hc, hcs⟩, rfl, rfl⟩
      · rintro ⟨⟨hc, hcs⟩, rfl, rfl⟩
        exact ⟨⟨hc, rfl⟩, hcs, rfl⟩

theorem numeral_iff (h : Tests base isDigit) :
    Numeral base cs n ↔ cs ≠ [] ∧ (∀ c ∈ cs, isDigit c = true) ∧ ofDigits base cs = n := by
  simp only [Numeral, forall₂_isDigit_iff h, ← ofDigits_eq]
  constructor
  · rintro ⟨values, hne, ⟨hall, rfl⟩, rfl⟩
    exact ⟨fun hnil => hne (by rw [hnil, List.map_nil]), hall, rfl⟩
  · rintro ⟨hne, hall, rfl⟩
    exact ⟨_, fun hnil => hne (List.map_eq_nil_iff.mp hnil), ⟨hall, rfl⟩, rfl⟩

theorem digits?_eq_some_iff (h : Tests base isDigit) :
    digits? base isDigit cs = some n ↔ Numeral base cs n ∧ n ≤ maxMagnitude := by
  rw [numeral_iff h]
  unfold digits?
  split
  next hbad =>
    rw [Bool.or_eq_true, List.isEmpty_iff, Bool.not_eq_true', List.all_eq_false] at hbad
    constructor
    · exact fun hnone => absurd hnone (by simp)
    · rintro ⟨⟨hne, hall, -⟩, -⟩
      rcases hbad with hnil | ⟨c, hc, hfalse⟩
      · exact absurd hnil hne
      · exact absurd (hall c hc) hfalse
  next hgood =>
    rw [Bool.or_eq_true, List.isEmpty_iff, Bool.not_eq_true', List.all_eq_false, not_or] at hgood
    obtain ⟨hne, hall⟩ := hgood
    have hall : ∀ c ∈ cs, isDigit c = true := by
      intro c hc
      by_contra hfalse
      exact hall ⟨c, hc, hfalse⟩
    dsimp only
    split
    next hle =>
      constructor
      · intro hsome
        obtain rfl := Option.some.inj hsome
        exact ⟨⟨hne, hall, rfl⟩, hle⟩
      · rintro ⟨⟨-, -, rfl⟩, -⟩
        rfl
    next hgt =>
      constructor
      · exact fun hnone => absurd hnone (by simp)
      · rintro ⟨⟨-, -, rfl⟩, hle⟩
        exact absurd hle hgt

end Digits

/-! ## Marks and signs -/

section Marks

variable {n : Nat} {v : Int} {cs : List Char} {text : String}

/-- Decimal digits have no mark in front. -/
theorem not_numeral_marked {x : Char} (hx : x.isDigit = false) :
    ¬ Numeral 10 ('0' :: x :: cs) n := by
  rw [numeral_iff tests_decimal]
  rintro ⟨-, hall, -⟩
  have hdigit := hall x (List.mem_cons_of_mem _ List.mem_cons_self)
  rw [hx] at hdigit
  exact absurd hdigit Bool.false_ne_true

theorem magnitude_marked_iff {x : Char} (hx : x = 'x' ∨ x = 'X') :
    Magnitude ('0' :: x :: cs) n ↔ Numeral 16 cs n := by
  constructor
  · intro h
    cases h with
    | decimal h => rcases hx with rfl | rfl <;> exact absurd h (not_numeral_marked (by decide))
    | hexadecimal _ h => exact h
  · exact .hexadecimal hx

theorem magnitude?_eq_some_iff : magnitude? cs = some n ↔ Magnitude cs n ∧ n ≤ maxMagnitude := by
  unfold magnitude?
  split
  next cs => rw [digits?_eq_some_iff tests_hexadecimal, magnitude_marked_iff (.inl rfl)]
  next cs => rw [digits?_eq_some_iff tests_hexadecimal, magnitude_marked_iff (.inr rfl)]
  next hsmall hcapital =>
    rw [digits?_eq_some_iff tests_decimal]
    refine and_congr_left fun _ => ⟨.decimal, fun h => ?_⟩
    cases h with
    | decimal h => exact h
    | hexadecimal hx h =>
      rcases hx with rfl | rfl
      · exact absurd rfl (hsmall _)
      · exact absurd rfl (hcapital _)

theorem not_magnitude_negative : ¬ Magnitude ('-' :: cs) n := by
  intro h
  cases h with
  | decimal h =>
    have hdigit := ((numeral_iff tests_decimal).mp h).2.1 '-' List.mem_cons_self
    exact absurd hdigit (by decide)

/-- What the digits are read as, with the sign that stands in front of them. -/
theorem exists_magnitude?_iff {f : Nat → Int} : (magnitude? cs).map f = some v ↔
    ∃ n, Magnitude cs n ∧ n ≤ maxMagnitude ∧ f n = v := by
  rw [Option.map_eq_some_iff]
  refine exists_congr fun n => ?_
  rw [magnitude?_eq_some_iff, and_assoc]

/-- **An integer is read where one is written**, if it is not too large. -/
theorem integer?_eq_some_iff :
    integer? text = some v ↔ Denotes text.toList v ∧ v.natAbs ≤ maxMagnitude := by
  unfold integer?
  generalize text.toList = cs
  split
  next rest =>
    have hcoe : (do let n ← magnitude? rest; pure (n : Int)) = (magnitude? rest).map Int.ofNat := by
      cases magnitude? rest <;> rfl
    rw [hcoe, Option.map_map, exists_magnitude?_iff]
    constructor
    · rintro ⟨n, hn, hle, rfl⟩
      rw [Function.comp_apply, Int.natAbs_neg]
      exact ⟨.negative hn, hle⟩
    · rintro ⟨h, hle⟩
      cases h with
      | plain h => exact absurd h not_magnitude_negative
      | negative h => exact ⟨_, h, by omega, rfl⟩
  next hsign =>
    rw [exists_magnitude?_iff]
    constructor
    · rintro ⟨n, hn, hle, rfl⟩
      exact ⟨.plain hn, hle⟩
    · rintro ⟨h, hle⟩
      cases h with
      | plain h => exact ⟨_, h, by omega, rfl⟩
      | negative h => exact absurd rfl (hsign _)

end Marks

end Cartridge.Text
