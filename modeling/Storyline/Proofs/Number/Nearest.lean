import Storyline.Number.Nearest

/-!
# Rounding to the nearest number

* `roundEven_eq`: a ratio within half a step of a natural number is rounded to it, at just half a step
  if the number is even;
* `scaleFor_eq`: the scale is the least one at which a ratio has a significand of 53 bits at most;
* `ofRatio_eq`: the ratios that are rounded to a number, by its significand and its scale. Below the
  least significand of 53 bits the steps are half as wide.
-/

namespace Storyline.Number

variable {num den s k : Nat}

/-! ### Rounding -/

theorem roundEven_eq (hden : 0 < den) (hlow : 2 * (den * k) ≤ 2 * num + den)
    (hhigh : 2 * num ≤ 2 * (den * k) + den)
    (hodd : k % 2 = 1 → 2 * (den * k) < 2 * num + den ∧ 2 * num < 2 * (den * k) + den) :
    roundEven num den = k := by
  have hsplit := Nat.div_add_mod num den
  have hmod := Nat.mod_lt num hden
  unfold roundEven
  simp only
  generalize num / den = f at *
  generalize num % den = r at *
  -- which neighbour `k` is follows from the products with `den`
  have hle : ∀ {a b : Nat}, den * a < den * b + den → a ≤ b := fun h =>
    Nat.le_of_lt_succ (Nat.lt_of_mul_lt_mul_left (by rwa [Nat.mul_succ]))
  have hlt : ∀ {a b : Nat}, den * a < den * b → a < b := fun h => Nat.lt_of_mul_lt_mul_left h
  split
  · have hfk : f ≤ k := hle (by omega)
    have hkf : k ≤ f := hle (by omega)
    omega
  · split
    · have hfk : f < k := hlt (by omega)
      have hkf : k ≤ f + 1 := hle (by rw [Nat.mul_succ]; omega)
      omega
    · have hfk : f ≤ k := hle (by omega)
      have hkf : k ≤ f + 1 := hle (by rw [Nat.mul_succ]; omega)
      rcases Nat.mod_two_eq_zero_or_one k with heven | hkodd
      · omega
      · obtain ⟨hlow, hhigh⟩ := hodd hkodd
        have hfk' : f < k := hlt (by omega)
        have hkf' : k ≤ f := hle (by omega)
        omega

/-! ### Scales -/

theorem floorAt_succ (num den s : Nat) : floorAt num den (s + 1) = floorAt num den s / 2 := by
  unfold floorAt
  rw [Nat.div_div_eq_div_mul, Nat.mul_assoc]
  rfl

theorem floorAt_anti (num den : Nat) {s' : Nat} (h : s ≤ s') : floorAt num den s' ≤ floorAt num den s := by
  induction h with
  | refl => exact Nat.le_refl _
  | step _ ih =>
    rw [Nat.succ_eq_add_one, floorAt_succ]
    exact Nat.le_trans (Nat.div_le_self _ _) ih

theorem two_mul_floorAt_le (num den : Nat) {s' : Nat} (h : s < s') :
    2 * floorAt num den s' ≤ floorAt num den s := by
  have hanti := floorAt_anti num den h
  rw [Nat.succ_eq_add_one, floorAt_succ] at hanti
  omega

/-- Numbers are ratios counted in `2 ^ -places`. At the guessed scale the significand has 53 or 54 bits,
or fewer if that is the least scale. -/
theorem guess_spec (hnum : num ≠ 0) (hden : den ≠ 0) (places : Nat) {guess : Nat}
    (hguess : guess = bitLength num + places - bitLength den - 53) :
    num * Nat.pow 2 places / (den * Nat.pow 2 guess) < 4 * hiddenBit ∧
      (0 < guess → hiddenBit ≤ num * Nat.pow 2 places / (den * Nat.pow 2 guess)) := by
  -- a number of `k` bits lies between two powers of two, one bit apart
  have hnumLow := Nat.log2_self_le hnum
  have hnumHigh := Nat.lt_log2_self (n := num)
  have hdenLow := Nat.log2_self_le hden
  have hdenHigh := Nat.lt_log2_self (n := den)
  unfold bitLength at hguess
  rw [if_neg hnum, if_neg hden] at hguess
  have hpos : 0 < den * Nat.pow 2 guess :=
    Nat.mul_pos (Nat.pos_of_ne_zero hden) (Nat.pow_pos (by decide))
  have hbits : 4 * hiddenBit = 2 ^ 54 := rfl
  have hhidden : hiddenBit = 2 ^ 52 := rfl
  rw [hbits, hhidden, Nat.div_lt_iff_lt_mul hpos, Nat.le_div_iff_mul_le hpos, Nat.pow_eq, Nat.pow_eq]
  constructor
  · -- the ratio has 54 bits at most
    calc num * 2 ^ places < 2 ^ (num.log2 + 1) * 2 ^ places :=
          Nat.mul_lt_mul_of_pos_right hnumHigh (Nat.two_pow_pos _)
      _ = 2 ^ (num.log2 + 1 + places) := (Nat.pow_add ..).symm
      _ ≤ 2 ^ (54 + (den.log2 + guess)) := Nat.pow_le_pow_right (by decide) (by omega)
      _ = 2 ^ 54 * (2 ^ den.log2 * 2 ^ guess) := by rw [Nat.pow_add, Nat.pow_add]
      _ ≤ 2 ^ 54 * (den * 2 ^ guess) := Nat.mul_le_mul_left _ (Nat.mul_le_mul_right _ hdenLow)
  · -- and 53 at least, unless the guess was cut off at 0
    intro hpositive
    calc 2 ^ 52 * (den * 2 ^ guess) ≤ 2 ^ 52 * (2 ^ (den.log2 + 1) * 2 ^ guess) :=
          Nat.mul_le_mul_left _ (Nat.mul_le_mul_right _ (Nat.le_of_lt hdenHigh))
      _ = 2 ^ (52 + (den.log2 + 1 + guess)) := by
          rw [Nat.pow_add 2 52, Nat.pow_add 2 (den.log2 + 1)]
      _ ≤ 2 ^ (num.log2 + places) := Nat.pow_le_pow_right (by decide) (by omega)
      _ = 2 ^ num.log2 * 2 ^ places := Nat.pow_add ..
      _ ≤ num * 2 ^ places := Nat.mul_le_mul_right _ hnumLow

theorem scaleFor_spec (hnum : num ≠ 0) (hden : den ≠ 0) :
    floorAt num den (scaleFor num den) < 2 * hiddenBit ∧
      (0 < scaleFor num den → hiddenBit ≤ floorAt num den (scaleFor num den)) := by
  unfold scaleFor
  simp only
  generalize hguess : bitLength num + 1074 - bitLength den - 53 = guess
  have hspec : floorAt num den guess < 4 * hiddenBit ∧
      (0 < guess → hiddenBit ≤ floorAt num den guess) := by
    unfold floorAt
    generalize 1074 = places at hguess ⊢
    exact guess_spec hnum hden places hguess.symm
  obtain ⟨hhigh, hlow⟩ := hspec
  split
  · rw [floorAt_succ]
    omega
  · exact ⟨by omega, hlow⟩

/-- **The scale of a ratio** is the only one at which its significand has 53 bits, or fewer at the
least scale. -/
theorem scaleFor_eq (hnum : num ≠ 0) (hden : den ≠ 0) (hhigh : floorAt num den s < 2 * hiddenBit)
    (hlow : 0 < s → hiddenBit ≤ floorAt num den s) : scaleFor num den = s := by
  obtain ⟨hhigh', hlow'⟩ := scaleFor_spec hnum hden
  rcases Nat.lt_trichotomy (scaleFor num den) s with hlt | heq | hgt
  · have hfloor := two_mul_floorAt_le num den hlt
    have hlow := hlow (by omega)
    omega
  · exact heq
  · have hfloor := two_mul_floorAt_le num den hgt
    have hlow' := hlow' (by omega)
    omega

/-! ### Ratios -/

/-- The ratios that are rounded to the number of a significand and a scale, in its steps: those within
half a step, or a quarter below where the steps below are half as wide. The ends are among them if
the significand is even. `num` and `den` are the ratio counted in steps. -/
structure Near (significand scale num den : Nat) : Prop where
  low : 2 * (den * significand) ≤ 2 * num + den
  high : 2 * num ≤ 2 * (den * significand) + den
  odd : significand % 2 = 1 →
    2 * (den * significand) < 2 * num + den ∧ 2 * num < 2 * (den * significand) + den
  least : significand = hiddenBit → 0 < scale → 4 * (den * significand) ≤ 4 * num + den

/-- **A ratio is rounded to the number that it is near to.** -/
theorem ofRatio_eq {m : Nat} (hnum : num ≠ 0) (hden : den ≠ 0) (hm : m < 2 * hiddenBit)
    (hnormal : 0 < s → hiddenBit ≤ m) (hfinite : s * hiddenBit + m < infinity.magnitude)
    (h : Near m s (num * Nat.pow 2 1074) (den * Nat.pow 2 s)) :
    ofRatio num den = ⟨(s * hiddenBit + m).toUInt64⟩ := by
  have hstep : 0 < den * Nat.pow 2 s := Nat.mul_pos (Nat.pos_of_ne_zero hden) (Nat.pow_pos (by decide))
  suffices hword : scaleFor num den * hiddenBit +
      roundEven (num * Nat.pow 2 1074) (den * Nat.pow 2 (scaleFor num den)) = s * hiddenBit + m by
    unfold ofRatio
    simp only
    rw [hword, if_neg (Nat.not_le_of_lt hfinite)]
  have hbit : hiddenBit = 0x10000000000000 := rfl
  have hfloor : floorAt num den s = num * Nat.pow 2 1074 / (den * Nat.pow 2 s) := rfl
  have hhigh : floorAt num den s < 2 * hiddenBit := by
    rw [hfloor, Nat.div_lt_iff_lt_mul hstep]
    have hmul := Nat.mul_le_mul_left (den * Nat.pow 2 s) (Nat.le_sub_one_of_lt hm)
    have hhigh := h.high
    rw [hbit] at hmul ⊢
    omega
  by_cases hlow : 0 < s → hiddenBit ≤ floorAt num den s
  · rw [scaleFor_eq hnum hden hhigh hlow, roundEven_eq hstep h.low h.high h.odd]
  · -- the ratio is below the least significand of 53 bits, so that the scale is one lower
    obtain ⟨hs, hlow⟩ := Classical.not_imp.1 hlow
    rw [hfloor, Nat.le_div_iff_mul_le hstep] at hlow
    cases s with
    | zero => exact absurd hs (Nat.lt_irrefl 0)
    | succ t =>
    have htwice : den * Nat.pow 2 (t + 1) = 2 * (den * Nat.pow 2 t) := by
      rw [Nat.pow_eq, Nat.pow_succ, Nat.mul_comm (2 ^ t), Nat.mul_left_comm]
      rfl
    obtain rfl : m = hiddenBit := by
      refine Nat.le_antisymm (Nat.le_of_lt_succ ?_) (hnormal hs)
      refine Nat.lt_of_mul_lt_mul_left (a := den * Nat.pow 2 (t + 1)) ?_
      have hlow' := h.low
      rw [Nat.mul_comm] at hlow
      rw [Nat.mul_succ]
      omega
    have hleast := h.least rfl hs
    rw [htwice] at hlow hleast
    have hpos : 0 < den * Nat.pow 2 t := by omega
    have hscale : scaleFor num den = t := by
      refine scaleFor_eq hnum hden ?_ fun _ => ?_
      · unfold floorAt
        rw [Nat.div_lt_iff_lt_mul hpos]
        rw [hbit] at hlow ⊢
        omega
      · unfold floorAt
        rw [Nat.le_div_iff_mul_le hpos]
        rw [hbit] at hlow hleast ⊢
        omega
    rw [hscale, roundEven_eq (k := 2 * hiddenBit) hpos ?_ ?_ ?_, Nat.add_mul t 1]
    · omega
    all_goals
      rw [hbit] at hlow hleast ⊢
      omega

end Storyline.Number
