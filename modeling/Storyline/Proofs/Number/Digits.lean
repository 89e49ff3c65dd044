import Mathlib.Data.List.Basic
import Storyline.Number.Nearest

/-!
# Decimal digits

* `digitsValue_append`: the value of digits behind others;
* `zeroPadded`: a number in at least so many digits; it keeps its value;
* `trimmed_append`: what is trimmed off the end of digits are zeros.
-/

namespace Storyline.Number

theorem isDigit_toDigits (n : Nat) : ∀ c ∈ Nat.toDigits 10 n, c.isDigit := fun _ hc =>
  Nat.isDigit_of_mem_toDigits (by decide) (by decide) hc

theorem isDigit_zeros (k : Nat) : ∀ c ∈ List.replicate k '0', c.isDigit := fun c hc => by
  obtain rfl := List.eq_of_mem_replicate hc
  rfl

/-! ### Values -/

theorem digitsValue_toDigits (n : Nat) : digitsValue (Nat.toDigits 10 n) = n :=
  Nat.ofDigitChars_ten_toDigits

theorem digitsValue_append (cs ds : List Char) :
    digitsValue (cs ++ ds) = digitsValue cs * Nat.pow 10 ds.length + digitsValue ds := by
  show Nat.ofDigitChars 10 (cs ++ ds) 0 = _
  rw [Nat.ofDigitChars_append, Nat.ofDigitChars_eq_ofDigitChars_zero, Nat.mul_comm]
  rfl

theorem digitsValue_zeros (k : Nat) : digitsValue (List.replicate k '0') = 0 :=
  Nat.ofDigitChars_replicate_zero.trans (Nat.mul_zero _)

/-! ### Zeros in front -/

/-- A number in at least that many digits, zeros in front. -/
def zeroPadded (width n : Nat) : List Char :=
  List.replicate (width - (Nat.toDigits 10 n).length) '0' ++ Nat.toDigits 10 n

theorem isDigit_zeroPadded (width n : Nat) : ∀ c ∈ zeroPadded width n, c.isDigit :=
  List.forall_mem_append.2 ⟨isDigit_zeros _, isDigit_toDigits n⟩

theorem digitsValue_zeroPadded (width n : Nat) : digitsValue (zeroPadded width n) = n := by
  unfold zeroPadded
  rw [digitsValue_append, digitsValue_zeros, digitsValue_toDigits, Nat.zero_mul, Nat.zero_add]

theorem length_zeroPadded {width n : Nat} (hwidth : 0 < width) (hn : n < Nat.pow 10 width) :
    (zeroPadded width n).length = width := by
  have hlength := (Nat.length_toDigits_le_iff (by decide) hwidth).2 hn
  unfold zeroPadded
  rw [List.length_append, List.length_replicate]
  omega

theorem zeroPadded_ne_nil (width n : Nat) : zeroPadded width n ≠ [] := fun h =>
  Nat.toDigits_ne_nil (List.append_eq_nil_iff.1 h).2

/-! ### Zeros at the end -/

theorem trimmed_append (ds : List Char) :
    ∃ k, (ds.reverse.dropWhile (· == '0')).reverse ++ List.replicate k '0' = ds := by
  have hzeros : ∀ c ∈ ds.reverse.takeWhile (· == '0'), c = '0' := fun c hc =>
    beq_iff_eq.1 (List.all_eq_true.1 List.all_takeWhile c hc)
  refine ⟨(ds.reverse.takeWhile (· == '0')).length, ?_⟩
  rw [← List.reverse_replicate, ← List.eq_replicate_of_mem hzeros, ← List.reverse_append,
    List.takeWhile_append_dropWhile, List.reverse_reverse]

/-- A part of one in that many digits, zeros at the end left out. -/
theorem trimmed_part {digits part : Nat} (hdigits : 0 < digits) (hpart : part < Nat.pow 10 digits)
    {fraction : List Char}
    (h : fraction = ((zeroPadded digits part).reverse.dropWhile (· == '0')).reverse) :
    (∀ c ∈ fraction, c.isDigit) ∧ fraction.length ≤ digits ∧
      digitsValue fraction * Nat.pow 10 (digits - fraction.length) = part ∧ (fraction = [] → part = 0) := by
  have hvalue := digitsValue_zeroPadded digits part
  obtain ⟨k, hk⟩ := trimmed_append (zeroPadded digits part)
  rw [← h] at hk
  have htotal : fraction.length + k = digits := by
    rw [← length_zeroPadded hdigits hpart, ← hk, List.length_append, List.length_replicate]
  refine ⟨fun c hc => ?_, by omega, ?_, ?_⟩
  · exact isDigit_zeroPadded digits part c (hk ▸ List.mem_append_left _ hc)
  · have hzeros := digitsValue_append fraction (List.replicate k '0')
    rw [hk, hvalue, digitsValue_zeros, List.length_replicate] at hzeros
    rw [← htotal, Nat.add_sub_cancel_left, hzeros, Nat.add_zero]
  · rintro rfl
    rw [← hvalue, ← hk, List.nil_append, digitsValue_zeros]

/-! ### Lengths -/

theorem decimalLength_pos {n : Nat} (h : 0 < n) : 0 < decimalLength n := by
  unfold decimalLength
  rw [if_neg (Nat.ne_of_gt h), decimalDigits_eq]
  exact Nat.length_toDigits_pos

theorem decimalLength_le_iff {n k : Nat} (h : 0 < n) (hk : 0 < k) :
    decimalLength n ≤ k ↔ n < Nat.pow 10 k := by
  unfold decimalLength
  rw [if_neg (Nat.ne_of_gt h), decimalDigits_eq]
  exact Nat.length_toDigits_le_iff (by decide) hk

end Storyline.Number
