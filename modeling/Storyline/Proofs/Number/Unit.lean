import Mathlib.Algebra.Order.Field.Rat
import Mathlib.Tactic.Linarith
import Mathlib.Tactic.Positivity
import Storyline.Proofs.Number.Shortest

/-!
# Numbers between zero and one

* `Number.value`: what a finite number stands for;
* `product_le_iff`: words of positive numbers are ordered as the numbers are, around one;
* `inUnit_iff`: **the check for fractions** accepts the finite numbers from zero to one, and no others.
-/

namespace Storyline.Number

/-- What a finite number stands for. -/
def value (x : Number) : ℚ :=
  (if x.isNegative then -1 else 1) * (x.significand * Nat.pow 2 x.scale : Nat) / (Nat.pow 2 1074 : Nat)

/-- A number from zero to one. -/
structure WithinUnit (x : Number) : Prop where
  finite : x.IsFinite
  nonneg : 0 ≤ x.value
  le_one : x.value ≤ 1

variable {x : Number}

theorem one_magnitude : one.magnitude = 1022 * hiddenBit + hiddenBit := by decide

theorem two_pow_pos (b : Nat) : 0 < Nat.pow 2 b := Nat.pow_pos (by decide)

theorem product_le (x : Number) {b : Nat} (h : 53 + x.scale ≤ b) :
    x.significand * Nat.pow 2 x.scale ≤ Nat.pow 2 b := by
  have hbits : x.significand ≤ 2 ^ 53 := Nat.le_of_lt (significand_lt x)
  refine Nat.le_trans ?_ (Nat.pow_le_pow_right (by decide) h)
  rw [Nat.pow_add]
  exact Nat.mul_le_mul_right _ hbits

theorem lt_product {b : Nat} (hscale : 0 < x.scale) (h : b < 52 + x.scale) :
    Nat.pow 2 b < x.significand * Nat.pow 2 x.scale := by
  have hbits : 2 ^ 52 ≤ x.significand := le_significand hscale
  refine Nat.lt_of_lt_of_le (Nat.pow_lt_pow_right (by decide) h) ?_
  rw [Nat.pow_add]
  exact Nat.mul_le_mul_right _ hbits

theorem product_le_iff (x : Number) :
    x.significand * Nat.pow 2 x.scale ≤ Nat.pow 2 1074 ↔ x.magnitude ≤ one.magnitude := by
  have hparts := magnitude_eq x
  have hlt := significand_lt x
  have hle : 0 < x.scale → hiddenBit ≤ x.significand := le_significand
  have hbit : hiddenBit = 2 ^ 52 := rfl
  rw [one_magnitude, ← hparts]
  generalize hb : 1074 = b
  rcases Nat.lt_trichotomy x.scale 1022 with hscale | hscale | hscale
  · refine iff_of_true (product_le x (by omega)) ?_
    have hsteps : (x.scale + 1) * hiddenBit ≤ 1022 * hiddenBit := Nat.mul_le_mul_right _ hscale
    rw [Nat.add_mul] at hsteps
    omega
  · have hsplit : Nat.pow 2 b = hiddenBit * Nat.pow 2 x.scale := by
      rw [show b = 52 + x.scale by omega, Nat.pow_eq, Nat.pow_add]
      rfl
    rw [hsplit, Nat.mul_le_mul_right_iff (two_pow_pos _), hscale]
    omega
  · refine iff_of_false (Nat.not_le_of_lt (lt_product (by omega) (by omega))) ?_
    have hsteps : 1023 * hiddenBit ≤ x.scale * hiddenBit := Nat.mul_le_mul_right _ hscale
    have hpositive := hle (by omega)
    omega

theorem product_eq_zero_iff (x : Number) : x.significand * Nat.pow 2 x.scale = 0 ↔ x.isZero = true := by
  rw [Nat.mul_eq_zero, or_iff_left (Nat.ne_of_gt (two_pow_pos _))]
  constructor
  · intro hzero
    by_contra hne
    exact Nat.ne_of_gt (significand_pos (Bool.eq_false_iff.2 hne)) hzero
  · intro hzero
    have hmagnitude : x.magnitude = 0 := beq_iff_eq.1 hzero
    unfold significand
    rw [hmagnitude]
    rfl

/-- A word up to that of one has no sign and a magnitude up to that of one. -/
theorem bits_le_iff (x : Number) :
    x.bits ≤ one.bits ↔ x.isNegative = false ∧ x.magnitude ≤ one.magnitude := by
  have hone : one.bits.toNat = one.magnitude := by decide
  have hlt : one.magnitude < signBit := by decide
  have hsign : 0 < signBit := by decide
  rw [UInt64.le_iff_toNat_le, hone]
  unfold isNegative magnitude
  rw [decide_eq_false_iff_not, Nat.not_le]
  constructor
  · intro hle
    have hword : x.bits.toNat < signBit := Nat.lt_of_le_of_lt hle hlt
    exact ⟨hword, by rwa [Nat.mod_eq_of_lt hword]⟩
  · rintro ⟨hword, hle⟩
    rwa [Nat.mod_eq_of_lt hword] at hle

/-- **The check for fractions** accepts the finite numbers from zero to one, and no others. -/
theorem inUnit_iff (x : Number) : x.inUnit = true ↔ x.WithinUnit := by
  have hone : one.magnitude < infinity.magnitude := by decide
  have hzero := product_eq_zero_iff x
  have hle := product_le_iff x
  unfold inUnit
  rw [Bool.or_eq_true, decide_eq_true_iff, bits_le_iff, ← hzero, ← hle]
  -- the units of the last place do not matter, so that they are not computed
  generalize hm : x.significand * Nat.pow 2 x.scale = m at hzero hle ⊢
  have hvalue : x.value = (if x.isNegative then -1 else 1) * (m : ℚ) / (Nat.pow 2 1074 : Nat) := by
    unfold value
    rw [hm]
  generalize 1074 = places at hle hvalue ⊢
  have hpow : (0 : ℚ) < (Nat.pow 2 places : Nat) := Nat.cast_pos.2 (two_pow_pos places)
  generalize Nat.pow 2 places = step at *
  have hm0 : (0 : ℚ) ≤ (m : ℚ) := Nat.cast_nonneg m
  constructor
  · -- either a zero of any sign, or a positive magnitude of at most that of 1
    rintro (rfl | ⟨hsign, hmle⟩)
    · have hfinite : x.IsFinite := by
        have hmagnitude : x.magnitude = 0 := beq_iff_eq.1 (hzero.1 rfl)
        unfold IsFinite
        omega
      have hvalue0 : x.value = 0 := by rw [hvalue, Nat.cast_zero, mul_zero, zero_div]
      exact ⟨hfinite, hvalue0.ge, hvalue0.le.trans zero_le_one⟩
    · have hfinite : x.IsFinite := Nat.lt_of_le_of_lt (hle.1 hmle) hone
      have hpositive : x.value = (m : ℚ) / step := by rw [hvalue, hsign, if_neg (by simp), one_mul]
      refine ⟨hfinite, ?_, ?_⟩
      · rw [hpositive]
        exact div_nonneg hm0 hpow.le
      · rw [hpositive, div_le_one hpow]
        exact_mod_cast hmle
  · rintro ⟨-, hnonneg, hleone⟩
    cases hsign : x.isNegative with
    | true =>
      left
      rw [hvalue, hsign, if_pos rfl, neg_one_mul, neg_div] at hnonneg
      have hquotient : (0 : ℚ) ≤ (m : ℚ) / step := div_nonneg hm0 hpow.le
      have hquotient0 : (m : ℚ) / step = 0 := by linarith
      rcases div_eq_zero_iff.1 hquotient0 with hm | hstep
      · exact_mod_cast hm
      · exact absurd hstep hpow.ne'
    | false =>
      right
      rw [hvalue, hsign, if_neg (by simp), one_mul, div_le_one hpow] at hleone
      exact ⟨rfl, by exact_mod_cast hleone⟩

end Storyline.Number
