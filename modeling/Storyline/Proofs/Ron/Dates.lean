import Mathlib.Data.List.TakeWhile
import Storyline.Instant.Text
import Storyline.Proofs.Instant.Calendar
import Storyline.Proofs.Number.Digits
import Storyline.Proofs.Ron.Tokens

/-!
# The texts of dates, read back

* `Instant.Valid`: the instants there are, leap seconds among them;
* `Part.year_text`, `Part.digits_padded`, `Part.fraction_text`: the parts of a date and of a time read back;
* `Valid.legible`: **every instant** reads back from its text.
-/

namespace Storyline.Instant

open Number

/-- An instant of the years that dates may have. A leap second is the last of its minute. -/
structure Valid (t : Instant) : Prop where
  nanos : t.nanos < 2000000000
  leap : 1000000000 ≤ t.nanos → t.seconds % 60 = 59
  first : firstYear ≤ t.day.year
  last : t.day.year ≤ lastYear

theorem toList_padded (width n : Nat) : (padded width n).toList = zeroPadded width n := String.toList_ofList

namespace Part

variable {α β : Type}

/-! ### Readers of parts -/

theorem bind_of_some {r : Part α} {k : α → Part β} {cs cs' : List Char} {a : α}
    (h : r cs = some (a, cs')) : (r >>= k) cs = k a cs' := by
  show (r cs >>= fun p => k p.1 p.2) = _
  rw [h]
  rfl

theorem discard_of_some {r : Part α} {cs cs' : List Char} {a : α} (h : r cs = some (a, cs')) :
    discard r cs = some ((), cs') := by
  show (r cs >>= fun p => some ((), p.2)) = _
  rw [h]
  rfl

theorem guard_of_true {p : Prop} [Decidable p] (h : p) (cs : List Char) :
    (guard p : Part Unit) cs = some ((), cs) := by
  unfold guard
  rw [if_pos h]
  rfl

theorem blanks_of_solid {cs : List Char} (h : ∀ c ∈ cs.head?, Text.isBlank c = false) :
    blanks cs = some ((), cs) := by
  unfold blanks
  cases cs with
  | nil => rfl
  | cons c cs => rw [List.dropWhile_cons_of_neg (by simp [h c rfl])]

theorem blanks_nil : blanks [] = some ((), []) := rfl

theorem blanks_zulu (cs : List Char) : blanks ('Z' :: cs) = some ((), 'Z' :: cs) := rfl

theorem one_cons {p : Char → Bool} {c : Char} (h : p c = true) (cs : List Char) :
    one p (c :: cs) = some (c, cs) := by
  simp only [one, h, if_true]

theorem mark_cons {c : Char} (h : Text.isBlank c = false) (cs : List Char) :
    mark c (c :: cs) = some ((), cs) := by
  unfold mark
  rw [bind_of_some (blanks_of_solid (Ron.forall_head?_cons h cs))]
  exact discard_of_some (one_cons (beq_self_eq_true c) cs)

/-! ### Digits -/

theorem isBlank_of_isDigit {c : Char} (h : c.isDigit) : Text.isBlank c = false := by
  have hdigit : 48 ≤ c.toNat ∧ c.toNat ≤ 57 := by
    unfold Char.isDigit at h
    simp only [Bool.and_eq_true, decide_eq_true_eq] at h
    exact h
  unfold Text.isBlank
  simp only [Bool.or_eq_false_iff, Bool.and_eq_false_iff, decide_eq_false_iff_not, beq_eq_false_iff_ne]
  omega

theorem zeroPadded_eq_cons (width n : Nat) : ∃ c cs, zeroPadded width n = c :: cs ∧ c.isDigit := by
  obtain ⟨c, cs, hcs⟩ := List.exists_cons_of_ne_nil (zeroPadded_ne_nil width n)
  exact ⟨c, cs, hcs, isDigit_zeroPadded width n c (hcs ▸ List.mem_cons_self)⟩

theorem blanks_zeroPadded (width n : Nat) (cs : List Char) :
    blanks (zeroPadded width n ++ cs) = some ((), zeroPadded width n ++ cs) := by
  obtain ⟨c, ds, hcs, hc⟩ := zeroPadded_eq_cons width n
  rw [hcs]
  exact blanks_of_solid (Ron.forall_head?_cons (isBlank_of_isDigit hc) _)

/-- A number reads back from its digits, if they are no more than those that are asked for. -/
theorem digits_zeroPadded {width n : Nat} (hwidth : 0 < width) (hn : n < Nat.pow 10 width)
    (cs : List Char) : digits width (zeroPadded width n ++ cs) = some (n, cs) := by
  have hlength := length_zeroPadded hwidth hn
  have hget : (get : Part (List Char)) (zeroPadded width n ++ cs) =
      some (zeroPadded width n ++ cs, zeroPadded width n ++ cs) := rfl
  have hrun : ((zeroPadded width n ++ cs).take width).takeWhile Char.isDigit = zeroPadded width n := by
    rw [List.take_left' hlength]
    exact List.takeWhile_eq_self_iff.2 (isDigit_zeroPadded width n)
  have hsome : (!(zeroPadded width n).isEmpty) = true := by
    rw [List.isEmpty_eq_false_iff.2 (zeroPadded_ne_nil width n)]
    rfl
  unfold digits
  rw [bind_of_some (blanks_zeroPadded width n cs), bind_of_some hget]
  simp only [hrun]
  rw [bind_of_some (guard_of_true hsome _), List.drop_left, digitsValue_zeroPadded]
  rfl

theorem digitRun_zeroPadded (width n : Nat) {cs : List Char} (h : ∀ c ∈ cs.head?, c.isDigit = false)
    (ds : List Char) : year.digitRun (zeroPadded width n ++ cs) ds = some (n, cs) := by
  have hsome : (!(zeroPadded width n).isEmpty) = true := by
    rw [List.isEmpty_eq_false_iff.2 (zeroPadded_ne_nil width n)]
    rfl
  unfold year.digitRun
  simp only [(Ron.span_of_stop (isDigit_zeroPadded width n) h).1]
  rw [bind_of_some (guard_of_true hsome _), List.drop_left, digitsValue_zeroPadded]
  rfl

theorem year_digit {c : Char} (hc : c.isDigit) (cs : List Char) :
    year (c :: cs) = ((fun n : Nat => (n : Int)) <$> digits 4) (c :: cs) := by
  have hget : (get : Part (List Char)) (c :: cs) = some (c :: cs, c :: cs) := rfl
  unfold year
  rw [bind_of_some (blanks_of_solid (Ron.forall_head?_cons (isBlank_of_isDigit hc) cs)), bind_of_some hget]
  generalize hall : c :: cs = all
  split
  · cases hall
    cases hc
  · cases hall
    cases hc
  · rfl

/-- **A year** reads back from its text. -/
theorem year_text (y : Int) (rest : List Char) :
    year ((yearText y).toList ++ '-' :: rest) = some (y, '-' :: rest) := by
  -- all that matters of the dash is that it is no digit
  have h : ∀ c ∈ ('-' :: rest).head?, c.isDigit = false := Ron.forall_head?_cons (by decide) rest
  generalize '-' :: rest = cs at h ⊢
  unfold yearText
  split
  · rename_i hfour
    simp only [Bool.and_eq_true, decide_eq_true_eq] at hfour
    have hsmall : y.toNat < Nat.pow 10 4 := show _ < 10000 by omega
    have hy : (y.toNat : Int) = y := Int.toNat_of_nonneg hfour.1
    have hdigits := digits_zeroPadded (by decide) hsmall cs
    obtain ⟨c, ds, hds, hc⟩ := zeroPadded_eq_cons 4 y.toNat
    rw [hds, List.cons_append] at hdigits
    rw [toList_padded, hds, List.cons_append, year_digit hc]
    show (digits 4 (c :: (ds ++ cs)) >>= fun p => some ((p.1 : Int), p.2)) = _
    rw [hdigits, ← hy]
    rfl
  · -- a negative year, or one of more than four digits, carries a sign
    rw [String.toList_append, toList_padded, List.append_assoc]
    split
    · have hy : -(y.natAbs : Int) = y := by omega
      show (year.digitRun (zeroPadded 4 y.natAbs ++ cs) _ >>= fun p => some (-(p.1 : Int), p.2)) = _
      rw [digitRun_zeroPadded 4 y.natAbs h]
      exact congrArg (fun y => some (y, cs)) hy
    · have hy : (y.natAbs : Int) = y := by omega
      show (year.digitRun (zeroPadded 4 y.natAbs ++ cs) _ >>= fun p => some ((p.1 : Int), p.2)) = _
      rw [digitRun_zeroPadded 4 y.natAbs h]
      exact congrArg (fun y => some (y, cs)) hy

theorem fraction_of_ne {cs : List Char} (h : ∀ c ∈ cs.head?, c ≠ '.') : fraction cs = some (0, cs) := by
  have hget : (get : Part (List Char)) cs = some (cs, cs) := rfl
  unfold fraction
  rw [bind_of_some hget]
  generalize hall : cs = all
  split
  · exact absurd rfl (h '.' (by rw [hall]; rfl))
  · rfl

theorem fraction_point {width n : Nat} (hwidth : 0 < width) (hnine : width ≤ 9) (hn : n < Nat.pow 10 width)
    {cs : List Char} (h : ∀ c ∈ cs.head?, c.isDigit = false) :
    fraction ('.' :: (zeroPadded width n ++ cs)) = some (n * Nat.pow 10 (9 - width), cs) := by
  have hlength := length_zeroPadded hwidth hn
  have hget : ∀ ds, (get : Part (List Char)) ds = some (ds, ds) := fun _ => rfl
  have hsome : (!(zeroPadded width n).isEmpty) = true := by
    rw [List.isEmpty_eq_false_iff.2 (zeroPadded_ne_nil width n)]
    rfl
  obtain ⟨htake, hdrop⟩ := Ron.span_of_stop (isDigit_zeroPadded width n) h
  have hnine : (zeroPadded width n).take 9 = zeroPadded width n := List.take_of_length_le (by omega)
  unfold fraction
  rw [bind_of_some (hget _)]
  simp only [htake, hdrop, hnine]
  rw [bind_of_some (guard_of_true hsome _), hlength, digitsValue_zeroPadded]
  rfl

/-- **The fraction of a second** reads back from its text. -/
theorem fraction_text {n : Nat} (hn : n < 1000000000) (rest : List Char) :
    fraction ((fractionText n).toList ++ 'Z' :: rest) = some (n, 'Z' :: rest) := by
  have h : ∀ c ∈ ('Z' :: rest).head?, c.isDigit = false := Ron.forall_head?_cons (by decide) rest
  have hpoint : ∀ c ∈ ('Z' :: rest).head?, c ≠ '.' := Ron.forall_head?_cons (by decide) rest
  generalize 'Z' :: rest = cs at h hpoint ⊢
  have hread : ∀ {w m}, 0 < w → w ≤ 9 → m < Nat.pow 10 w → m * Nat.pow 10 (9 - w) = n →
      fraction (("." ++ padded w m).toList ++ cs) = some (n, cs) := fun hw hw' hm hn => by
    rw [String.toList_append, toList_padded]
    exact (fraction_point hw hw' hm h).trans (congrArg (fun n => some (n, cs)) hn)
  unfold fractionText
  split
  · rename_i hzero
    subst hzero
    exact fraction_of_ne hpoint
  split
  · exact hread (by decide) (by decide) (show _ < 1000 by omega) (show _ * 1000000 = _ by omega)
  split
  · exact hread (by decide) (by decide) (show _ < 1000000 by omega) (show _ * 1000 = _ by omega)
  · exact hread (by decide) (by decide) hn (Nat.mul_one n)

theorem offset_zulu : offset ['Z'] = some (0, []) := rfl

end Part

theorem toList_text (t : Instant) : t.text.toList =
    (yearText t.day.year).toList ++ '-' :: (zeroPadded 2 t.day.month ++ '-' :: (zeroPadded 2 t.day.day ++
      'T' :: (zeroPadded 2 (t.secondOfDay / 3600) ++ ':' :: (zeroPadded 2 (t.secondOfDay / 60 % 60) ++
        ':' :: (zeroPadded 2 (t.secondOfDay % 60 + t.nanos / 1000000000) ++
          ((fractionText (t.nanos % 1000000000)).toList ++ ['Z'])))))) := by
  unfold text dayText timeText
  simp only [String.toList_append, toList_padded, List.append_assoc]
  rfl

theorem day_lt_100 {d : CalendarDay} (h : d.isValid = true) : d.month < 100 ∧ d.day < 100 := by
  have hlength : CalendarDay.monthLength d.year d.month ≤ 31 := by
    unfold CalendarDay.monthLength
    split
    · split <;> decide
    all_goals decide
  unfold CalendarDay.isValid at h
  simp only [Bool.and_eq_true, decide_eq_true_eq] at h
  omega

theorem secondOfDay_eq (t : Instant) : (t.secondOfDay : Int) = t.seconds % 86400 := by
  unfold secondOfDay
  rw [Int.fmod_eq_emod_of_nonneg _ (by decide)]
  omega

theorem Valid.leap_eq {t : Instant} (h : t.Valid) :
    (t.secondOfDay % 60 + t.nanos / 1000000000) / 60 = t.nanos / 1000000000 := by
  have hsecond := secondOfDay_eq t
  have hnanos := h.nanos
  have hleap := h.leap
  omega

theorem time_eq (s : Nat) : s / 3600 * 3600 + s / 60 % 60 * 60 + s % 60 = s := by omega

/-- The seconds of an instant are those of its day and those of its time. -/
theorem seconds_eq (t : Instant) : t.day.toEpochDay * 86400 + (t.secondOfDay : Int) - 0 = t.seconds := by
  have hday : t.day.toEpochDay = t.seconds / 86400 :=
    (CalendarDay.toEpochDay_ofEpochDay _).trans (Int.fdiv_eq_ediv_of_nonneg _ (by decide))
  rw [hday, secondOfDay_eq]
  omega

/-- **Every instant** reads back from its text. -/
theorem Valid.legible {t : Instant} (h : t.Valid) : t.Legible := by
  have hvalid : t.day.isValid = true := CalendarDay.isValid_ofEpochDay _
  obtain ⟨hmonth, hday⟩ := day_lt_100 hvalid
  have hnanos := h.nanos
  have hsecond : t.secondOfDay < 86400 := by
    have hsecond := secondOfDay_eq t
    omega
  have hdate : (t.day.isValid && firstYear ≤ t.day.year && t.day.year ≤ lastYear) = true := by
    rw [hvalid, decide_eq_true h.first, decide_eq_true h.last]
    rfl
  have hyears : (decide (firstYear ≤ t.day.year) && decide (t.day.year ≤ lastYear)) = true := by
    rw [decide_eq_true h.first, decide_eq_true h.last]
    rfl
  have htime : (decide (t.secondOfDay / 3600 < 24) && decide (t.secondOfDay / 60 % 60 < 60) &&
      decide (t.secondOfDay % 60 + t.nanos / 1000000000 ≤ 60)) = true := by
    simp only [Bool.and_eq_true, decide_eq_true_eq]
    omega
  -- the parts in the order of the text, none of which takes a character of the next
  have hread : Part.instant t.text.toList = some (t, []) := by
    rw [toList_text]
    unfold Part.instant
    rw [Part.bind_of_some (Part.year_text _ _), Part.bind_of_some (Part.mark_cons rfl _),
      Part.bind_of_some (Part.digits_zeroPadded (by decide) hmonth _),
      Part.bind_of_some (Part.mark_cons rfl _),
      Part.bind_of_some (Part.digits_zeroPadded (by decide) hday _)]
    simp only
    rw [Part.bind_of_some (Part.guard_of_true hdate _),
      Part.bind_of_some (Part.discard_of_some (Part.one_cons rfl _)),
      Part.bind_of_some (Part.digits_zeroPadded (by decide) (show _ < 100 by omega) _),
      Part.bind_of_some (Part.mark_cons rfl _),
      Part.bind_of_some (Part.digits_zeroPadded (by decide) (show _ < 100 by omega) _),
      Part.bind_of_some (Part.mark_cons rfl _),
      Part.bind_of_some (Part.digits_zeroPadded (by decide) (show _ < 100 by omega) _),
      Part.bind_of_some (Part.guard_of_true htime _),
      Part.bind_of_some (Part.fraction_text (Nat.mod_lt _ (by decide)) []),
      Part.bind_of_some (Part.blanks_zulu []), Part.bind_of_some Part.offset_zulu,
      Part.bind_of_some Part.blanks_nil, h.leap_eq, Nat.add_sub_cancel, time_eq, seconds_eq,
      Nat.mod_add_div', Part.bind_of_some (Part.guard_of_true hyears _)]
    rfl
  unfold Legible ofText?
  rw [hread]

end Storyline.Instant
