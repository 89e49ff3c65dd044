import Mathlib.Tactic.IntervalCases
import Storyline.Instant

/-!
# Days and dates

* `yearOfEra_eq`, `dayOfYear_eq`: the year that a day of an era lies in, counted from March, and the day
  of that year;
* `toEpochDay_ofEpochDay`, `isValid_ofEpochDay`: **every day** has a date of the calendar, which stands
  for that day.
-/

namespace Storyline.CalendarDay

/-! ### Years -/

/-- A day of an era: the centuries, the groups of four years, the years and the days before it. Only the
last year of a group may have a day 366, and that of a century if it is the last. -/
structure Era (day century four year rest : Int) : Prop where
  day_eq : day = 36524 * century + 1461 * four + 365 * year + rest
  century_low : 0 ≤ century
  century_high : century ≤ 3
  four_low : 0 ≤ four
  four_high : four ≤ 24
  year_low : 0 ≤ year
  year_high : year ≤ 3
  rest_low : 0 ≤ rest
  rest_high : rest ≤ 365
  leap : rest = 365 → year = 3 ∧ (four = 24 → century = 3)

theorem exists_era {day : Int} (hlow : 0 ≤ day) (hhigh : day < 146097) :
    ∃ century four year rest, Era day century four year rest := by
  obtain ⟨century, hcentury⟩ : ∃ c, c = min 3 (day / 36524) := ⟨_, rfl⟩
  obtain ⟨four, hfour⟩ : ∃ q, q = (day - 36524 * century) / 1461 := ⟨_, rfl⟩
  obtain ⟨year, hyear⟩ : ∃ y, y = min 3 ((day - 36524 * century - 1461 * four) / 365) := ⟨_, rfl⟩
  have hdays : 0 ≤ day - 36524 * century ∧ day - 36524 * century ≤ 36524 := by omega
  have hgroup : 0 ≤ day - 36524 * century - 1461 * four ∧ day - 36524 * century - 1461 * four ≤ 1460 := by
    omega
  exact ⟨century, four, year, day - 36524 * century - 1461 * four - 365 * year, by constructor <;> omega⟩

variable {day century four year rest : Int}

theorem yearOfEra_eq (h : Era day century four year rest) :
    (day - day / 1460 + day / 36524 - day / 146096) / 365 = 100 * century + 4 * four + year := by
  obtain ⟨hday, hc, hc', hf, hf', hy, hy', hr, hr', hleap⟩ := h
  -- the last day of a leap year is the only one that is taken off once more
  obtain ⟨last, hlast⟩ : ∃ e, e = (24 * century + four + 365 * year + rest) / 1460 := ⟨_, rfl⟩
  have hgroups : day / 1460 = 25 * century + four + last := by omega
  have hcenturies : day / 36524 - day / 146096 = century := by
    by_cases hend : day = 146096
    · subst hend
      omega
    · have hrest : day - 36524 * century < 36524 := by omega
      have hcentury : day / 36524 = century := by omega
      have hera : day / 146096 = 0 := by omega
      omega
  have hrest : 0 ≤ rest - last ∧ rest - last ≤ 364 := by omega
  omega

theorem dayOfYear_eq (h : Era day century four year rest) {yearOfEra : Int}
    (hyear : yearOfEra = 100 * century + 4 * four + year) :
    day - (365 * yearOfEra + yearOfEra / 4 - yearOfEra / 100) = rest := by
  obtain ⟨rfl, hc, hc', hf, hf', hy, hy', hr, hr', hleap⟩ := h
  omega

/-! ### Dates -/

/-- The month of a day of a year, both counted from March. -/
def monthOf (d : Nat) : Nat := (5 * d + 2) / 153

/-- The days before a month, counted from March. -/
def daysBefore (m : Nat) : Nat := (153 * m + 2) / 5

theorem monthOf_spec {d : Nat} (hd : d ≤ 365) :
    monthOf d ≤ 11 ∧ daysBefore (monthOf d) ≤ d ∧ d < daysBefore (monthOf d + 1) := by
  unfold daysBefore monthOf
  omega

/-- The date of a day of a year, both counted from March. -/
def inYear (year : Int) (d : Nat) : CalendarDay where
  year := if monthOf d < 10 then year else year + 1
  month := if monthOf d < 10 then monthOf d + 3 else monthOf d - 9
  day := d - daysBefore (monthOf d) + 1

/-- The month and the year of a date, counted from March again. -/
theorem inYear_march (year : Int) {d : Nat} (hd : d ≤ 365) :
    (if (inYear year d).month ≤ 2 then (inYear year d).year - 1 else (inYear year d).year) = year ∧
      (if (inYear year d).month ≤ 2 then (inYear year d).month + 9 else (inYear year d).month - 3) =
        monthOf d := by
  obtain ⟨hm, -, -⟩ := monthOf_spec hd
  unfold inYear
  simp only
  by_cases hlate : monthOf d < 10
  · rw [if_pos hlate, if_pos hlate, if_neg (by omega), if_neg (by omega)]
    omega
  · rw [if_neg hlate, if_neg hlate, if_pos (by omega), if_pos (by omega)]
    omega

/-- **The date of a day** in the years of its era. -/
theorem ofEpochDay_spec (n : Int) : ∃ (era century four year : Int) (d : Nat),
    Era (n + 719468 - 146097 * era) century four year d ∧
      ofEpochDay n = inYear (400 * era + (100 * century + 4 * four + year)) d := by
  have hera : Int.fdiv (n + 719468) 146097 = (n + 719468) / 146097 :=
    Int.fdiv_eq_ediv_of_nonneg _ (by decide)
  have hday : Int.fmod (n + 719468) 146097 = n + 719468 - 146097 * ((n + 719468) / 146097) := by
    rw [Int.fmod_eq_emod_of_nonneg _ (by decide), Int.emod_def]
  have hlow : 0 ≤ n + 719468 - 146097 * ((n + 719468) / 146097) := by omega
  obtain ⟨century, four, year, rest, h⟩ := exists_era hlow (by omega)
  obtain ⟨d, rfl⟩ := Int.eq_ofNat_of_zero_le h.rest_low
  refine ⟨_, century, four, year, d, h, ?_⟩
  unfold ofEpochDay
  simp only [hera, hday, yearOfEra_eq h, dayOfYear_eq h rfl, Int.toNat_natCast]
  obtain ⟨hm, -, -⟩ := monthOf_spec (Int.ofNat_le.1 h.rest_high)
  unfold inYear daysBefore monthOf at *
  congr 1
  split <;> split <;> omega

/-- **The date of a day stands for the day.** -/
theorem toEpochDay_ofEpochDay (n : Int) : (ofEpochDay n).toEpochDay = n := by
  obtain ⟨era, century, four, year, d, hera, hdate⟩ := ofEpochDay_spec n
  have hd : d ≤ 365 := Int.ofNat_le.1 hera.rest_high
  obtain ⟨hyear, hmonth⟩ := inYear_march (400 * era + (100 * century + 4 * four + year)) hd
  obtain ⟨-, hbefore, -⟩ := monthOf_spec hd
  have hdays : (inYear (400 * era + (100 * century + 4 * four + year)) d).day =
      d - daysBefore (monthOf d) + 1 := rfl
  have h400 : (0 : Int) ≤ 400 := by decide
  rw [hdate]
  unfold toEpochDay
  rw [hyear, hmonth, hdays]
  unfold daysBefore at *
  simp only [Int.fdiv_eq_ediv_of_nonneg _ h400, Int.fmod_eq_emod_of_nonneg _ h400]
  obtain ⟨hday, hc, hc', hf, hf', hy, hy', -, -, -⟩ := hera
  omega

/-- The months before the last one are as long as the calendar has them. -/
theorem daysBefore_succ (year : Int) {m : Nat} (hm : m ≤ 10) :
    daysBefore (m + 1) = daysBefore m + monthLength year (if m < 10 then m + 3 else m - 9) := by
  interval_cases m <;> rfl

theorem isLeap_of_era (h : Era day century four year 365) (era : Int) :
    isLeap (400 * era + (100 * century + 4 * four + year) + 1) = true := by
  obtain ⟨-, -, -, hf, hf', -, -, -, -, hleap⟩ := h
  obtain ⟨rfl, hcentury⟩ := hleap rfl
  unfold isLeap
  simp only [Bool.and_eq_true, Bool.or_eq_true, bne_iff_ne, beq_iff_eq]
  by_cases hcenturyEnd : four = 24
  · exact ⟨by omega, .inr (by omega)⟩
  · exact ⟨by omega, .inl (by omega)⟩

/-- **The date of a day is one of the calendar.** -/
theorem isValid_ofEpochDay (n : Int) : (ofEpochDay n).isValid = true := by
  obtain ⟨era, century, four, year, d, hera, hdate⟩ := ofEpochDay_spec n
  have hd : d ≤ 365 := Int.ofNat_le.1 hera.rest_high
  obtain ⟨hm, hbefore, hafter⟩ := monthOf_spec hd
  rw [hdate]
  unfold isValid inYear
  simp only [Bool.and_eq_true, decide_eq_true_eq]
  refine ⟨⟨⟨?_, ?_⟩, Nat.le_add_left 1 _⟩, ?_⟩
  · split <;> omega
  · split <;> omega
  · by_cases hlast : monthOf d ≤ 10
    · generalize (if monthOf d < 10 then _ else _ : Int) = y
      rw [daysBefore_succ y hlast] at hafter
      omega
    · obtain hlast : monthOf d = 11 := by omega
      have hstart : daysBefore 11 = 337 := rfl
      rw [hlast, if_neg (by decide), if_neg (by decide), hstart]
      show _ ≤ if isLeap _ then 29 else 28
      by_cases hleap : d = 365
      · subst hleap
        rw [isLeap_of_era hera]
        exact Nat.le_refl 29
      · split <;> omega

end Storyline.CalendarDay
