import Mathlib.Tactic.Ring
import Storyline.Proofs.Number.Digits
import Storyline.Proofs.Number.Shortest
import Storyline.Proofs.Ron.Tokens

/-!
# The decimal texts of numbers, read back

* `Shown`: a count of units as a text shows it, by the digits before and behind the point;
* `shown_numeral`: a number shows its shortest decimal;
* `ofDigits_of_holds`: the digits that a spread holds stand for its number;
* `legible`: **every number** reads back from its text.
-/

namespace Storyline

namespace Number

open Ron Ron.Reader

variable {x : Number} {n : Nat}

/-! ### Texts -/

/-- A count of units as a text shows it: the digits before and behind the point, which is left out if
none are behind it. -/
structure Shown (n : Nat) (text whole fraction : List Char) : Prop where
  text_eq : text = whole ++ (if fraction = [] then [] else '.' :: fraction)
  whole_ne : whole ≠ []
  whole_digits : ∀ c ∈ whole, c.isDigit
  fraction_digits : ∀ c ∈ fraction, c.isDigit
  length_le : fraction.length ≤ places
  value : digitsValue (whole ++ fraction) * Nat.pow 10 (places - fraction.length) = n

theorem pow_split {k digits : Nat} (h : k ≤ digits) :
    Nat.pow 10 k * Nat.pow 10 (digits - k) = Nat.pow 10 digits :=
  (Nat.pow_add 10 k _).symm.trans (congrArg _ (Nat.add_sub_cancel' h))

theorem unitsText_whole (hn : n % Nat.pow 10 places = 0) :
    (unitsText n).toList = Nat.toDigits 10 (n / Nat.pow 10 places) := by
  unfold unitsText
  generalize Nat.pow 10 places = unit at hn ⊢
  simp only
  rw [if_pos hn, String.toList_ofList, decimalDigits_eq]

theorem shown_whole (hn : n % Nat.pow 10 places = 0) {zeros : Nat} (hz : zeros ≤ 1) {text : List Char}
    (htext : text = if zeros = 0 then [] else '.' :: List.replicate zeros '0') :
    Shown n ((unitsText n).toList ++ text) (Nat.toDigits 10 (n / Nat.pow 10 places))
      (List.replicate zeros '0') where
  text_eq := by
    rw [unitsText_whole hn, htext]
    cases zeros <;> rfl
  whole_ne := Nat.toDigits_ne_nil
  whole_digits := isDigit_toDigits _
  fraction_digits := isDigit_zeros zeros
  length_le := by
    rw [List.length_replicate]
    exact Nat.le_trans hz (by decide)
  value := by
    have hplaces : zeros ≤ places := Nat.le_trans hz (by decide)
    rw [digitsValue_append, digitsValue_zeros, digitsValue_toDigits, List.length_replicate, Nat.add_zero,
      Nat.mul_assoc, pow_split hplaces]
    exact Nat.div_mul_cancel (Nat.dvd_of_mod_eq_zero hn)

theorem toList_unitsText_part (hn : n % Nat.pow 10 places ≠ 0) :
    (unitsText n).toList = Nat.toDigits 10 (n / Nat.pow 10 places) ++ '.' ::
      ((zeroPadded places (n % Nat.pow 10 places)).reverse.dropWhile (· == '0')).reverse := by
  unfold unitsText
  generalize Nat.pow 10 places = unit at hn ⊢
  simp only [decimalDigits_eq]
  rw [if_neg hn]
  simp only [String.toList_append, String.toList_ofList, List.append_assoc]
  rfl

theorem shown_part (hn : n % Nat.pow 10 places ≠ 0) :
    ∃ fraction, Shown n (unitsText n).toList (Nat.toDigits 10 (n / Nat.pow 10 places)) fraction := by
  have htext := toList_unitsText_part hn
  have hsplit := Nat.div_add_mod n (Nat.pow 10 places)
  generalize hfraction : (List.dropWhile (· == '0') _).reverse = fraction at htext
  obtain ⟨hdigits, hlength, hvalue, hempty⟩ :=
    trimmed_part (by decide) (Nat.mod_lt n units_pos) hfraction.symm
  refine ⟨fraction, ?_, Nat.toDigits_ne_nil, isDigit_toDigits _, hdigits, hlength, ?_⟩
  · -- something is behind the point, since the part is not zero
    rw [htext, if_neg fun h => hn (hempty h)]
  · rw [digitsValue_append, digitsValue_toDigits, Nat.add_mul, hvalue, Nat.mul_assoc, pow_split hlength,
      Nat.mul_comm]
    exact hsplit

/-- **A number** shows its shortest decimal, behind its sign. -/
theorem shown_numeral (hnan : x.isNaN = false) (hinf : x.isInfinite = false) (hzero : x.isZero = false) :
    ∃ text whole fraction, numeral x = (if x.isNegative then ['-'] else []) ++ text ∧
      Shown x.spread.shortest text whole fraction := by
  have hnumeral : numeral x = (if x.isNegative then ['-'] else []) ++
      ((unitsText x.spread.shortest).toList ++ (if x.isWhole then ['.', '0'] else [])) := by
    unfold numeral Number.text
    rw [hnan, hinf, hzero, ← List.append_assoc]
    simp only [Bool.false_eq_true, if_false]
    congr 1
    split
    · exact String.toList_append
    · rfl
  have hvalue := holds_value hzero
  cases hwhole : x.isWhole with
  -- whole: the shortest digits end in as many zeros as there are places
  | true =>
    have hunits : x.units % Nat.pow 10 places = 0 := by
      unfold isWhole at hwhole
      exact beq_iff_eq.1 (Bool.and_eq_true _ _ ▸ hwhole).2
    have hpos : 0 < x.spread.value :=
      Nat.mul_pos (Nat.mul_pos (by decide) (significand_pos hzero)) (quarter_pos x)
    have hshortest := Spread.dvd_shortest hvalue hpos (Nat.dvd_of_mod_eq_zero hunits)
    rw [hwhole] at hnumeral
    exact ⟨_, _, _, hnumeral, shown_whole (Nat.mod_eq_zero_of_dvd hshortest) (Nat.le_refl 1) rfl⟩
  -- not whole: yet the shortest digits may be, where the number is large
  | false =>
    rw [hwhole] at hnumeral
    by_cases hpart : x.spread.shortest % Nat.pow 10 places = 0
    · exact ⟨_, _, _, hnumeral, shown_whole hpart (Nat.zero_le 1) rfl⟩
    · obtain ⟨fraction, hshown⟩ := shown_part hpart
      rw [if_neg Bool.false_ne_true, List.append_nil] at hnumeral
      exact ⟨_, _, fraction, hnumeral, hshown⟩

theorem splitSign_digit {c : Char} (hc : c.isDigit) (negative : Bool) (cs : List Char) :
    splitSign ((if negative then ['-'] else []) ++ c :: cs) = (negative, c :: cs) := by
  cases negative with
  | true => rfl
  | false =>
    rw [if_neg Bool.false_ne_true, List.nil_append, splitSign]
    · rintro _ ⟨⟩
      cases hc
    · rintro _ ⟨⟩
      cases hc

theorem Shown.reads {text whole fraction : List Char} (h : Shown n text whole fraction) (negative : Bool) :
    ofNumeral? ((if negative then ['-'] else []) ++ text) =
      some (ofDecimal negative (digitsValue (whole ++ fraction)) (-fraction.length)) := by
  have hsign : splitSign ((if negative then ['-'] else []) ++ text) = (negative, text) := by
    obtain ⟨c, cs, rfl⟩ := List.exists_cons_of_ne_nil h.whole_ne
    rw [h.text_eq]
    exact splitSign_digit (h.whole_digits c List.mem_cons_self) negative _
  have hempty : whole.isEmpty = false := List.isEmpty_eq_false_iff.2 h.whole_ne
  have hpoint : ∀ c ∈ (if fraction = [] then [] else '.' :: fraction).head?, c.isDigit = false := by
    split
    · nofun
    · rintro _ ⟨⟩
      rfl
  obtain ⟨htake, hdrop⟩ := span_of_stop h.whole_digits hpoint
  have hend : ∀ c ∈ ([] : List Char).head?, c.isDigit = false := nofun
  obtain ⟨htake', hdrop'⟩ := span_of_stop h.fraction_digits hend
  rw [List.append_nil] at htake' hdrop'
  unfold ofNumeral?
  rw [hsign, h.text_eq]
  simp only [htake, hdrop, hempty, Bool.false_and, Bool.false_eq_true, if_false]
  by_cases hfraction : fraction = []
  · subst hfraction
    rfl
  · simp only [hfraction, if_false, htake', hdrop']
    exact congrArg (fun e => some (ofDecimal negative _ e)) (Int.zero_sub _)

/-! ### Sizes -/

/-- How many digits a count of units has, of which some are behind the point. -/
theorem decimalLength_bounds {digits length total most least : Nat} (hmost : 0 < most)
    (hlength : length ≤ total) (hdigits : digits * Nat.pow 10 (total - length) = n)
    (hlow : Nat.pow 10 least ≤ n) (hhigh : n < Nat.pow 10 most * Nat.pow 10 total) :
    0 < digits ∧ decimalLength digits ≤ most + length ∧ length + least < decimalLength digits + total := by
  have hpos : 0 < digits := by
    refine Nat.pos_of_ne_zero ?_
    rintro rfl
    rw [Nat.zero_mul] at hdigits
    exact absurd (Nat.pow_pos (by decide)) (Nat.not_lt_of_le (hdigits ▸ hlow))
  refine ⟨hpos, (decimalLength_le_iff hpos (by omega)).2 ?_, Nat.lt_of_not_le fun hle => ?_⟩
  · refine Nat.lt_of_mul_lt_mul_right (a := Nat.pow 10 (total - length)) ?_
    have hsplit : Nat.pow 10 (most + length) = Nat.pow 10 most * Nat.pow 10 length := Nat.pow_add ..
    rw [hdigits, hsplit, Nat.mul_assoc, pow_split hlength]
    exact hhigh
  · have hone := decimalLength_pos hpos
    have hlt := (decimalLength_le_iff hpos (k := length + least - total) (by omega)).1 (by omega)
    have hsplit : Nat.pow 10 (length + least - total) * Nat.pow 10 (total - length) = Nat.pow 10 least :=
      (Nat.pow_add 10 _ _).symm.trans (congrArg _ (by omega))
    have hunit : 0 < Nat.pow 10 (total - length) := Nat.pow_pos (by decide)
    have hmul := Nat.mul_lt_mul_of_pos_right hlt hunit
    rw [hdigits, hsplit] at hmul
    exact absurd hlow (Nat.not_le_of_lt hmul)

theorem ofDigits_of_holds {digits length : Nat} (hx : x.IsFinite) (hzero : x.isZero = false)
    (h : x.spread.holds n = true) (hlength : length ≤ places)
    (hdigits : digits * Nat.pow 10 (places - length) = n) :
    ofDigits digits (-length) = ⟨x.magnitude.toUInt64⟩ := by
  have hratio : ∀ {num den : Nat}, 0 < den → num * Nat.pow 10 length = digits * den →
      ofRatio num den = ⟨x.magnitude.toUInt64⟩ := fun hden hnum => by
    refine ofRatio_of_holds hx hzero hden h ?_
    rw [← pow_split hlength, ← hdigits, ← Nat.mul_assoc, hnum]
    ring
  obtain ⟨hpos, hmost, hleast⟩ := decimalLength_bounds (by decide) hlength hdigits (le_of_holds hzero h)
    (lt_of_holds hx h)
  have hplaces : places = 1100 := rfl
  unfold ofDigits
  rw [if_neg (Nat.ne_of_gt hpos)]
  simp only
  rw [if_neg (by omega), if_neg (by omega)]
  split
  · obtain rfl : length = 0 := by omega
    exact hratio (by decide) (congrArg (· * 1) (Nat.mul_one digits))
  · rw [neg_neg, Int.toNat_natCast]
    exact hratio (Nat.pow_pos (by decide)) rfl

/-! ### Signs -/

theorem xor_two_pow {m k : Nat} (h : m < 2 ^ k) : m ^^^ 2 ^ k = 2 ^ k + m := by
  have hor := Nat.two_pow_add_eq_or_of_lt h 1
  rw [Nat.mul_one] at hor
  rw [hor]
  refine Nat.eq_of_testBit_eq fun i => ?_
  rw [Nat.testBit_xor, Nat.testBit_or, Nat.testBit_two_pow]
  by_cases hi : k = i
  · subst hi
    rw [Nat.testBit_lt_two_pow h, Bool.false_xor, Bool.or_false]
  · rw [decide_eq_false hi, Bool.xor_false, Bool.false_or]

theorem toNat_neg {m : Nat} (h : m < signBit) : (⟨m.toUInt64⟩ : Number).neg.bits.toNat = m + signBit := by
  have hbit : signBit = 2 ^ 63 := rfl
  have hm : m.toUInt64.toNat = m := Nat.mod_eq_of_lt (by omega)
  show (m.toUInt64 ^^^ 0x8000000000000000).toNat = _
  rw [UInt64.toNat_xor, hm, Nat.add_comm]
  exact xor_two_pow (k := 63) h

theorem eq_of_magnitude (x : Number) :
    x = if x.isNegative then (⟨x.magnitude.toUInt64⟩ : Number).neg else ⟨x.magnitude.toUInt64⟩ := by
  have hlt : x.bits.toNat < 2 ^ 64 := x.bits.toNat_lt
  have hbit : signBit = 2 ^ 63 := rfl
  have hext : ∀ y : Number, x.bits.toNat = y.bits.toNat → x = y := fun y h =>
    congrArg Number.mk (UInt64.toNat_inj.1 h)
  have hmagnitude : x.magnitude = x.bits.toNat % signBit := rfl
  have hmod : x.magnitude < signBit := Nat.mod_lt _ (by decide)
  refine hext _ ?_
  split
  · rename_i hneg
    have hneg := of_decide_eq_true hneg
    rw [toNat_neg hmod]
    rw [hbit] at hmagnitude hneg ⊢
    omega
  · rename_i hpos
    have hpos := of_decide_eq_false (Bool.eq_false_iff.2 hpos)
    show _ = x.magnitude % 2 ^ 64
    rw [hbit] at hmagnitude hpos
    omega

theorem reads_zero (negative : Bool) :
    ofNumeral? (numeral (if negative then zero.neg else zero)) =
      some (if negative then zero.neg else zero) := by
  cases negative <;> decide +kernel

/-- **Every number** reads back from its text. -/
theorem legible (h : x.isNaN = false) : x.Legible := by
  refine ⟨h, fun hinf => ?_⟩
  have hsign := eq_of_magnitude x
  have hfinite : x.IsFinite := by
    have hle := of_decide_eq_false h
    have hne : x.magnitude ≠ infinity.magnitude := bne_iff_ne.1 (congrArg (! ·) hinf)
    unfold IsFinite
    omega
  cases hzero : x.isZero with
  | true =>
    have hmagnitude : x.magnitude = 0 := beq_iff_eq.1 hzero
    rw [hmagnitude] at hsign
    rw [hsign]
    exact reads_zero x.isNegative
  | false =>
    obtain ⟨text, whole, fraction, htext, hshown⟩ := shown_numeral h hinf hzero
    have hdigits := ofDigits_of_holds hfinite hzero (Spread.holds_shortest (holds_value hzero))
      hshown.length_le hshown.value
    rw [htext, hshown.reads, ofDecimal, hdigits, ← hsign]

end Number

end Storyline
