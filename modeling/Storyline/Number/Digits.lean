/-!
Decimal digits of natural numbers of any size. A large number gives its last digits off in groups,
so that most of the work is done on small numbers. Main statement: `decimalDigits_eq`, the digits
are those of the plain division by ten.
-/

namespace Storyline.Number

/-- The last `k` digits of a number, in front of others. -/
def lastDigits : Nat → Nat → List Char → List Char
  | 0, _, ds => ds
  | k + 1, n, ds => lastDigits k (n / 10) (Nat.digitChar (n % 10) :: ds)

/-- The digits in a group. -/
def groupLength : Nat := 18

/-- The first number with more digits than a group. -/
def groupSize : Nat := Nat.pow 10 groupLength

/-- The digits of a number, in front of others, its last ones taken off in `k` groups at most. -/
def digitsOnto : Nat → Nat → List Char → List Char
  | 0, n, ds => Nat.toDigits 10 n ++ ds
  | k + 1, n, ds =>
    if n < groupSize then Nat.toDigits 10 n ++ ds
    else digitsOnto k (n / groupSize) (lastDigits groupLength (n % groupSize) ds)

/-- The decimal digits of a number. A group takes 59 binary digits or more. -/
def decimalDigits (n : Nat) : List Char := digitsOnto (n.log2 / 59) n []

/-- Division by ten gives the last digits off one by one. -/
theorem toDigits_append_lastDigits {n : Nat} (hn : 0 < n) (k m : Nat) (ds : List Char)
    (hm : m < Nat.pow 10 k) :
    Nat.toDigits 10 n ++ lastDigits k m ds = Nat.toDigits 10 (n * Nat.pow 10 k + m) ++ ds := by
  induction k generalizing m ds with
  | zero =>
    have hm : m = 0 := by simpa using hm
    simp [hm, lastDigits]
  | succ k ih =>
    have hp : Nat.pow 10 (k + 1) = Nat.pow 10 k * 10 := rfl
    have hpos : 0 < n * Nat.pow 10 k := Nat.mul_pos hn (Nat.pow_pos (by decide))
    have hN : n * Nat.pow 10 (k + 1) + m = n * Nat.pow 10 k * 10 + m := by
      rw [hp, Nat.mul_assoc]
    have hd : (n * Nat.pow 10 k * 10 + m) / 10 = n * Nat.pow 10 k + m / 10 := by omega
    have hr : (n * Nat.pow 10 k * 10 + m) % 10 = m % 10 := by omega
    have hlast := Nat.toDigits_of_base_le (b := 10) (n := n * Nat.pow 10 k * 10 + m)
      (by decide) (by omega)
    rw [hd, hr] at hlast
    rw [lastDigits, ih _ _ (by omega), hN, hlast, List.append_assoc, List.singleton_append]

theorem digitsOnto_eq (k n : Nat) (ds : List Char) :
    digitsOnto k n ds = Nat.toDigits 10 n ++ ds := by
  induction k generalizing n ds with
  | zero => rfl
  | succ k ih =>
    have hpos : 0 < groupSize := Nat.pow_pos (by decide)
    rw [digitsOnto]
    split
    · rfl
    · rename_i h
      have hn : 0 < n / groupSize := Nat.div_pos (by omega) hpos
      have hlast := toDigits_append_lastDigits hn groupLength (n % groupSize) ds
        (Nat.mod_lt n hpos)
      have hsum : n / groupSize * Nat.pow 10 groupLength + n % groupSize = n := by
        rw [Nat.mul_comm]
        exact Nat.div_add_mod n groupSize
      rw [ih, hlast, hsum]

theorem decimalDigits_eq (n : Nat) : decimalDigits n = Nat.toDigits 10 n := by
  simp [decimalDigits, digitsOnto_eq]

/-- The number of decimal digits of a natural number; none for zero. -/
def decimalLength (n : Nat) : Nat := if n = 0 then 0 else (decimalDigits n).length

end Storyline.Number
