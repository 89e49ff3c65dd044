import Mathlib.Algebra.Order.Ring.Nat
import Mathlib.Tactic.Ring
import Storyline.Number.Shortest
import Storyline.Proofs.Number.Digits
import Storyline.Proofs.Number.Nearest

/-!
# The shortest decimal of a number

* `magnitude_eq`: a number is made of its scale and its significand;
* `Spread.holds_shortest`, `Spread.dvd_shortest`: the shortest decimal is in the spread of the number,
  and is whole if the number is;
* `close_of_holds`, `lt_of_holds`, `le_of_holds`: how close to the number that is, and how large;
* `ofRatio_of_holds`: **what is in the spread of a number** is rounded to the number.
-/

namespace Storyline.Number

/-! ### The parts of a number -/

/-- A number that is neither infinite nor none. -/
def IsFinite (x : Number) : Prop := x.magnitude < infinity.magnitude

variable {x : Number} {n : Nat}

theorem magnitude_eq (x : Number) : x.scale * hiddenBit + x.significand = x.magnitude := by
  have hsplit := Nat.div_add_mod x.magnitude hiddenBit
  have hbit : hiddenBit = 0x10000000000000 := rfl
  unfold scale significand
  split
  · rename_i hlt
    rw [Nat.div_eq_of_lt hlt, Nat.zero_sub, Nat.zero_mul, Nat.zero_add]
  · rename_i hge
    have hone : 1 ≤ x.magnitude / hiddenBit := Nat.div_pos (Nat.le_of_not_lt hge) (by decide)
    rw [Nat.mul_comm, Nat.mul_sub, Nat.mul_one]
    have hle : hiddenBit ≤ hiddenBit * (x.magnitude / hiddenBit) := Nat.le_mul_of_pos_right _ hone
    omega

theorem significand_lt (x : Number) : x.significand < 2 * hiddenBit := by
  have hmod : x.magnitude % hiddenBit < hiddenBit := Nat.mod_lt _ (by decide)
  unfold significand
  split <;> omega

theorem le_significand (h : 0 < x.scale) : hiddenBit ≤ x.significand := by
  unfold scale at h
  unfold significand
  split
  · rename_i hlt
    rw [Nat.div_eq_of_lt hlt] at h
    exact absurd h (by decide)
  · exact Nat.le_add_right _ _

theorem significand_pos (h : x.isZero = false) : 0 < x.significand := by
  have hne : x.magnitude ≠ 0 := bne_iff_ne.1 (congrArg (! ·) h)
  have hbit : 0 < hiddenBit := by decide
  unfold significand
  split <;> omega

theorem scale_lt (h : x.IsFinite) : x.scale < 2046 := by
  have hlt : x.magnitude / hiddenBit < 2047 := (Nat.div_lt_iff_lt_mul (by decide)).2 h
  unfold scale
  omega

/-! ### Steps in units -/

theorem quarter_steps {scale digits binary : Nat} (h : binary + 2 ≤ digits) :
    4 * (Nat.pow 2 scale * Nat.pow 10 digits / Nat.pow 2 (binary + 2)) * Nat.pow 2 binary =
      Nat.pow 2 scale * Nat.pow 10 digits := by
  simp only [Nat.pow_eq]
  have hdvd : 2 ^ (binary + 2) ∣ 2 ^ scale * 10 ^ digits :=
    Dvd.dvd.mul_left ((pow_dvd_pow 2 h).trans (pow_dvd_pow_of_dvd (by decide) digits)) _
  calc 4 * (2 ^ scale * 10 ^ digits / 2 ^ (binary + 2)) * 2 ^ binary =
        2 ^ scale * 10 ^ digits / 2 ^ (binary + 2) * 2 ^ (binary + 2) := by ring
    _ = 2 ^ scale * 10 ^ digits := Nat.div_mul_cancel hdvd

theorem quarter_eq (x : Number) :
    4 * x.quarter * Nat.pow 2 1074 = Nat.pow 2 x.scale * Nat.pow 10 places := by
  have hplaces : 1074 + 2 ≤ places := by decide
  unfold quarter
  rw [show 1076 = 1074 + 2 from rfl]
  generalize 1074 = binary at hplaces ⊢
  exact quarter_steps hplaces

theorem units_pos : 0 < Nat.pow 10 places := by
  generalize places = digits
  exact Nat.pow_pos (by decide)

theorem quarter_pos (x : Number) : 0 < x.quarter := by
  have hsteps := quarter_eq x
  have hpos : 0 < Nat.pow 2 x.scale * Nat.pow 10 places := Nat.mul_pos (Nat.pow_pos (by decide)) units_pos
  generalize Nat.pow 2 1074 = step at hsteps
  refine Nat.pos_of_ne_zero fun hzero => ?_
  rw [hzero, Nat.mul_zero, Nat.zero_mul] at hsteps
  exact Nat.ne_of_lt hpos hsteps

/-! ### Spreads -/

namespace Spread

variable {s : Spread}

theorem onGrid?_eq {step : Nat} (h : s.onGrid? step = some n) : s.holds n = true ∧ step ∣ n := by
  have hbelow : step ∣ s.value / step * step := Nat.dvd_mul_left step _
  have habove : step ∣ s.value / step * step + step := (Nat.dvd_add_right hbelow).2 (Nat.dvd_refl step)
  unfold onGrid? at h
  simp only at h
  split at h
  · rename_i hlow hhigh
    obtain rfl := Option.some_inj.1 h
    split
    · exact ⟨hlow, hbelow⟩
    · exact ⟨hhigh, habove⟩
  · rename_i hlow _
    obtain rfl := Option.some_inj.1 h
    exact ⟨hlow, hbelow⟩
  · rename_i _ hhigh
    obtain rfl := Option.some_inj.1 h
    exact ⟨hhigh, habove⟩
  · cases h

theorem onGrid?_of_dvd {step : Nat} (hvalue : s.holds s.value = true) (hstep : step ∣ s.value) :
    s.onGrid? step ≠ none := by
  have hbelow : s.value / step * step = s.value := Nat.div_mul_cancel hstep
  unfold onGrid?
  simp only [hbelow, hvalue]
  split <;> simp_all

theorem holds_shortestFrom (hvalue : s.holds s.value = true) (k step : Nat) :
    s.holds (s.shortestFrom k step) = true := by
  induction k generalizing step with
  | zero => exact hvalue
  | succ k ih =>
    rw [shortestFrom]
    cases hgrid : s.onGrid? step with
    | none => exact ih (step / 10)
    | some n => exact (onGrid?_eq hgrid).1

/-- **The shortest decimal** reads back. -/
theorem holds_shortest (hvalue : s.holds s.value = true) : s.holds s.shortest = true :=
  holds_shortestFrom hvalue _ _

theorem dvd_shortestFrom {p : Nat} (hvalue : s.holds s.value = true) (hp : Nat.pow 10 p ∣ s.value)
    (k : Nat) {j : Nat} (hj : p ≤ j) : Nat.pow 10 p ∣ s.shortestFrom k (Nat.pow 10 j) := by
  induction k generalizing j with
  | zero => exact hp
  | succ k ih =>
    rw [shortestFrom]
    cases hgrid : s.onGrid? (Nat.pow 10 j) with
    | some n =>
      have hdvd : Nat.pow 10 p ∣ Nat.pow 10 j := pow_dvd_pow 10 hj
      exact hdvd.trans (onGrid?_eq hgrid).2
    | none =>
      -- the grid on which the number itself stands is not passed by
      have hne : p ≠ j := by
        rintro rfl
        exact onGrid?_of_dvd hvalue hp hgrid
      cases j with
      | zero => omega
      | succ j =>
        have hdiv : Nat.pow 10 (j + 1) / 10 = Nat.pow 10 j := Nat.mul_div_cancel _ (by decide)
        rw [Option.getD_none, hdiv]
        exact ih (by omega)

theorem dvd_shortest {p : Nat} (hvalue : s.holds s.value = true) (hpos : 0 < s.value)
    (hp : Nat.pow 10 p ∣ s.value) : Nat.pow 10 p ∣ s.shortest := by
  have hlength : p < decimalLength s.value := by
    cases p with
    | zero => exact decimalLength_pos hpos
    | succ p =>
      refine Nat.lt_of_not_le fun hle => ?_
      have hlt := (decimalLength_le_iff hpos (Nat.succ_pos p)).1 hle
      exact absurd (Nat.le_of_dvd hpos hp) (Nat.not_le_of_lt hlt)
  exact dvd_shortestFrom hvalue hp _ (by omega)

end Spread

/-! ### What a spread holds -/

/-- A count of units is at most half a step away from a number, less than that if the significand is odd,
and at most a quarter below if the steps below are half as wide. -/
structure Close (x : Number) (n : Nat) : Prop where
  low : 4 * x.significand * x.quarter ≤ n + 2 * x.quarter
  high : n ≤ 4 * x.significand * x.quarter + 2 * x.quarter
  odd : x.significand % 2 = 1 → 4 * x.significand * x.quarter < n + 2 * x.quarter ∧
    n < 4 * x.significand * x.quarter + 2 * x.quarter
  least : x.significand = hiddenBit → 0 < x.scale → 4 * x.significand * x.quarter ≤ n + 1 * x.quarter

theorem close_of_holds (h : x.spread.holds n = true) : x.Close n := by
  have hquarter := quarter_pos x
  unfold Spread.holds spread at h
  simp only at h
  split at h <;> rename_i hclosed <;> simp only [Bool.and_eq_true, decide_eq_true_eq] at h hclosed <;>
    split at h <;> constructor <;> omega

theorem quarter_le (h : x.isZero = false) : x.quarter ≤ x.significand * x.quarter :=
  Nat.le_mul_of_pos_left _ (significand_pos h)

theorem holds_value (h : x.isZero = false) : x.spread.holds x.spread.value = true := by
  have hquarter := quarter_pos x
  have hvalue := quarter_le h
  unfold Spread.holds spread
  simp only [Nat.mul_assoc]
  split <;> simp only [Bool.and_eq_true, decide_eq_true_eq] <;> split <;> omega

/-! ### Sizes -/

theorem lt_of_steps {quarter scale binary digits most : Nat}
    (hsteps : 4 * quarter * Nat.pow 2 binary = Nat.pow 2 scale * Nat.pow 10 digits)
    (hscale : scale + 53 ≤ binary + most) (hn : n < Nat.pow 2 55 * quarter) :
    n < Nat.pow 2 most * Nat.pow 10 digits := by
  simp only [Nat.pow_eq] at *
  refine Nat.lt_of_mul_lt_mul_left (a := 4 * 2 ^ binary) ?_
  calc 4 * 2 ^ binary * n < 4 * 2 ^ binary * (2 ^ 55 * quarter) :=
        Nat.mul_lt_mul_of_pos_left hn (Nat.mul_pos (by decide) (Nat.two_pow_pos binary))
    _ = 2 ^ 55 * (4 * quarter * 2 ^ binary) := by ring
    _ = 2 ^ (scale + 55) * 10 ^ digits := by rw [hsteps, Nat.pow_add]; ring
    _ ≤ 2 ^ (binary + most + 2) * 10 ^ digits :=
        Nat.mul_le_mul_right _ (Nat.pow_le_pow_right (by decide) (by omega))
    _ = 4 * 2 ^ binary * (2 ^ most * 10 ^ digits) := by ring

theorem le_of_steps {quarter scale binary digits least : Nat}
    (hsteps : 4 * quarter * Nat.pow 2 binary = Nat.pow 2 scale * Nat.pow 10 digits)
    (hleast : 2 * (least * Nat.pow 2 binary) ≤ Nat.pow 10 digits) (hn : 2 * quarter ≤ n) : least ≤ n := by
  simp only [Nat.pow_eq] at *
  have hpos : 0 < 2 * 2 ^ binary := Nat.mul_pos (by decide) (Nat.two_pow_pos binary)
  refine Nat.le_of_mul_le_mul_left (c := 2 * 2 ^ binary) ?_ hpos
  calc 2 * 2 ^ binary * least = 2 * (least * 2 ^ binary) := by ring
    _ ≤ 10 ^ digits := hleast
    _ ≤ 2 ^ scale * 10 ^ digits := Nat.le_mul_of_pos_left _ (Nat.two_pow_pos scale)
    _ = 2 * 2 ^ binary * (2 * quarter) := by rw [← hsteps]; ring
    _ ≤ 2 * 2 ^ binary * n := Nat.mul_le_mul_left _ hn

/-- Finite numbers have no more than 310 digits before the point. -/
theorem lt_of_holds (hx : x.IsFinite) (h : x.spread.holds n = true) :
    n < Nat.pow 10 310 * Nat.pow 10 places := by
  have hhigh := (close_of_holds h).high
  have hsteps := quarter_eq x
  have hscale : x.scale + 53 ≤ 1074 + 1024 := Nat.add_le_add_right (Nat.le_of_lt_succ (scale_lt hx)) 53
  have hmost : Nat.pow 2 1024 ≤ Nat.pow 10 310 := by decide +kernel
  have hn : n < Nat.pow 2 55 * x.quarter := by
    have hmul := Nat.mul_le_mul_right x.quarter (Nat.le_sub_one_of_lt (significand_lt x))
    have hquarter := quarter_pos x
    have hbit : hiddenBit = 0x10000000000000 := rfl
    have hpow : Nat.pow 2 55 = 0x80000000000000 := rfl
    rw [hbit] at hmul
    rw [Nat.mul_assoc] at hhigh
    rw [hpow]
    omega
  generalize 1074 = binary at hsteps hscale
  generalize 1024 = most at hscale hmost
  generalize 310 = power at hmost ⊢
  exact Nat.lt_of_lt_of_le (lt_of_steps hsteps hscale hn) (Nat.mul_le_mul_right _ hmost)

/-- Numbers other than zero have no more than 330 zeros behind the point. -/
theorem le_of_holds (hzero : x.isZero = false) (h : x.spread.holds n = true) : Nat.pow 10 769 ≤ n := by
  have hlow := (close_of_holds h).low
  have hsteps := quarter_eq x
  have hleast : 2 * (Nat.pow 10 769 * Nat.pow 2 1074) ≤ Nat.pow 10 places := by decide +kernel
  have hn : 2 * x.quarter ≤ n := by
    have hvalue := quarter_le hzero
    rw [Nat.mul_assoc] at hlow
    omega
  generalize 1074 = binary at hsteps hleast
  exact le_of_steps hsteps hleast hn

theorem pos_of_holds (hzero : x.isZero = false) (h : x.spread.holds n = true) : 0 < n := by
  have hle := le_of_holds hzero h
  generalize 769 = digits at hle
  exact Nat.lt_of_lt_of_le (Nat.pow_pos (by decide)) hle

/-! ### Rounding back -/

theorem compare_of_mul_eq {p q a b c d : Nat} (hp : 0 < p) (hq : 0 < q) (hac : p * a = q * c)
    (hbd : p * b = q * d) : (a ≤ b ↔ c ≤ d) ∧ (a < b ↔ c < d) := by
  rw [← Nat.mul_le_mul_left_iff hp, ← Nat.mul_lt_mul_left hp, hac, hbd, Nat.mul_le_mul_left_iff hq,
    Nat.mul_lt_mul_left hq]
  exact ⟨Iff.rfl, Iff.rfl⟩

theorem near_of_holds {num den : Nat} (hden : 0 < den) (h : x.spread.holds n = true)
    (hratio : num * Nat.pow 10 places = n * den) :
    Near x.significand x.scale (num * Nat.pow 2 1074) (den * Nat.pow 2 x.scale) := by
  obtain ⟨hlow, hhigh, hodd, hleast⟩ := close_of_holds h
  have hquarter := quarter_pos x
  have hsteps := quarter_eq x
  have hpos : 0 < den * Nat.pow 2 x.scale := Nat.mul_pos hden (Nat.pow_pos (by decide))
  generalize Nat.pow 2 1074 = steps at hsteps ⊢
  -- the ratio in steps, counted in units, is `n` times the denominator
  have hunits : x.quarter * (4 * (num * steps)) = den * Nat.pow 2 x.scale * n := by
    calc x.quarter * (4 * (num * steps)) = num * (4 * x.quarter * steps) := by ring
      _ = Nat.pow 2 x.scale * (num * Nat.pow 10 places) := by rw [hsteps]; ring
      _ = den * Nat.pow 2 x.scale * n := by rw [hratio]; ring
  generalize num * steps = num at hunits ⊢
  generalize den * Nat.pow 2 x.scale = den at hunits hpos ⊢
  have hvalue : x.quarter * (4 * (den * x.significand)) = den * (4 * x.significand * x.quarter) := by ring
  have hbelow : ∀ k, x.quarter * (4 * num + k * den) = den * (n + k * x.quarter) := fun k => by
    rw [Nat.mul_add, hunits]
    ring
  have habove : ∀ k, x.quarter * (4 * (den * x.significand) + k * den) =
      den * (4 * x.significand * x.quarter + k * x.quarter) := fun k => by
    rw [Nat.mul_add, hvalue]
    ring
  have hfrom := fun k => compare_of_mul_eq hquarter hpos hvalue (hbelow k)
  have hto := fun k => compare_of_mul_eq hquarter hpos hunits (habove k)
  refine ⟨?_, ?_, fun hm => ?_, fun hm hs => ?_⟩
  · have hlow := (hfrom 2).1.2 hlow
    omega
  · have hhigh := (hto 2).1.2 hhigh
    omega
  · have hlow := (hfrom 2).2.2 (hodd hm).1
    have hhigh := (hto 2).2.2 (hodd hm).2
    omega
  · have hleast := (hfrom 1).1.2 (hleast hm hs)
    omega

/-- **What is in the spread of a number is rounded to the number.** `num / den` is that many units. -/
theorem ofRatio_of_holds {num den : Nat} (hx : x.IsFinite) (hzero : x.isZero = false) (hden : 0 < den)
    (h : x.spread.holds n = true) (hratio : num * Nat.pow 10 places = n * den) :
    ofRatio num den = ⟨x.magnitude.toUInt64⟩ := by
  have hnear := near_of_holds hden h hratio
  have hnum : num ≠ 0 := by
    rintro rfl
    rw [Nat.zero_mul] at hratio
    exact Nat.ne_of_lt (Nat.mul_pos (pos_of_holds hzero h) hden) hratio
  have hfinite : x.scale * hiddenBit + x.significand < infinity.magnitude := by
    rw [magnitude_eq]
    exact hx
  rw [← magnitude_eq x]
  exact ofRatio_eq hnum (Nat.ne_of_gt hden) (significand_lt x) le_significand hfinite hnear

end Storyline.Number
