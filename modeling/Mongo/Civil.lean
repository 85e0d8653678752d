import Mathlib

/-! Day numbers of the proleptic Gregorian calendar, day 0 being 1970-01-01. A year is counted
from March 1st, so that the leap day ends it, and days are grouped in eras of 400 years of
146097 days. `daysFromCivil` is the closed form of the day number of a date; `civilFromDays`
peels a day number into its era, century, block of four years, year, month and day, and
`daysFromCivil_civilFromDays` says that it inverts `daysFromCivil`. The year of a day number is
found from the day numbers of new year's days (`year_civilFromDays_lt_iff`). -/

namespace Civil

/-- A date of the proleptic Gregorian calendar: the year, the month `1 ..= 12` and the day of
the month. -/
structure Date where
  year : Int
  month : Int
  day : Int
  deriving DecidableEq, Repr

/-- The day number of a date. The day enters linearly, so a day past the end of its month counts
into the next one. -/
def daysFromCivil (date : Date) : Int :=
  let y := if date.month ≤ 2 then date.year - 1 else date.year
  let era := y / 400
  let yoe := y - era * 400
  let doy := (153 * (if date.month > 2 then date.month - 3 else date.month + 9) + 2) / 5 +
    date.day - 1
  let doe := yoe * 365 + yoe / 4 - yoe / 100 + doy
  era * 146097 + doe - 719468

/-- The year of the era and the day of that year (from March 1st) of day `doe` of an era: its
century (the last of an era has a leap day more), its block of four years (the last of a
century has a leap day less) and its year in the block (the last has a leap day more). -/
def yearOfEra (doe : Int) : Int × Int :=
  let c := min (doe / 36524) 3
  let f := (doe - 36524 * c) / 1461
  let r := (doe - 36524 * c) % 1461
  let yr := min (r / 365) 3
  (100 * c + 4 * f + yr, r - 365 * yr)

/-- The month (from March as 0) and the day of the month of a day of the year. -/
def monthOfYear (doy : Int) : Int × Int :=
  let mp := (5 * doy + 2) / 153
  (mp, doy - (153 * mp + 2) / 5 + 1)

/-- The date of a day number. -/
def civilFromDays (z : Int) : Date :=
  let era := (z + 719468) / 146097
  let (yoe, doy) := yearOfEra ((z + 719468) % 146097)
  let (mp, d) := monthOfYear doy
  let m := if mp < 10 then mp + 3 else mp - 9
  ⟨if m ≤ 2 then yoe + era * 400 + 1 else yoe + era * 400, m, d⟩

theorem yearOfEra_spec {doe : Int} (h0 : 0 ≤ doe) (h1 : doe < 146097) :
    0 ≤ (yearOfEra doe).1 ∧ (yearOfEra doe).1 < 400 ∧ 0 ≤ (yearOfEra doe).2 ∧
      (yearOfEra doe).2 ≤ 365 ∧
      365 * (yearOfEra doe).1 + (yearOfEra doe).1 / 4 - (yearOfEra doe).1 / 100 +
        (yearOfEra doe).2 = doe := by
  simp only [yearOfEra]
  generalize hc : min (doe / 36524) 3 = c
  generalize hyr : min ((doe - 36524 * c) % 1461 / 365) 3 = yr
  -- the century, the block and the year in the block, each in its range
  have hc' : 0 ≤ c ∧ c ≤ 3 ∧ 0 ≤ doe - 36524 * c ∧ doe - 36524 * c ≤ 36524 := by omega
  have hf : 0 ≤ (doe - 36524 * c) / 1461 ∧ (doe - 36524 * c) / 1461 ≤ 24 := by omega
  have hyr' : 0 ≤ yr ∧ yr ≤ 3 ∧ 0 ≤ (doe - 36524 * c) % 1461 - 365 * yr ∧
      (doe - 36524 * c) % 1461 - 365 * yr ≤ 365 := by omega
  -- so the leap days before the year are those of its blocks, less those of its centuries
  have h4 : (100 * c + 4 * ((doe - 36524 * c) / 1461) + yr) / 4 =
      25 * c + (doe - 36524 * c) / 1461 := by omega
  have h100 : (100 * c + 4 * ((doe - 36524 * c) / 1461) + yr) / 100 = c := by omega
  refine ⟨by omega, by omega, hyr'.2.2.1, hyr'.2.2.2, ?_⟩
  rw [h4, h100]
  omega

theorem monthOfYear_spec {doy : Int} (h0 : 0 ≤ doy) (h1 : doy ≤ 365) :
    0 ≤ (monthOfYear doy).1 ∧ (monthOfYear doy).1 ≤ 11 ∧ 1 ≤ (monthOfYear doy).2 ∧
      (monthOfYear doy).2 ≤ 31 ∧
      (153 * (monthOfYear doy).1 + 2) / 5 + (monthOfYear doy).2 - 1 = doy := by
  simp only [monthOfYear]
  omega

/-- The parts of a day number: the year of its era and the day of that year, then the month
(from March as 0) and the day of the month, each in its range, and how they add up. -/
theorem civilFromDays_parts (z : Int) : ∃ yoe doy mp d,
    yearOfEra ((z + 719468) % 146097) = (yoe, doy) ∧ monthOfYear doy = (mp, d) ∧
    0 ≤ yoe ∧ yoe < 400 ∧ 0 ≤ mp ∧ mp ≤ 11 ∧ 1 ≤ d ∧ d ≤ 31 ∧
    365 * yoe + yoe / 4 - yoe / 100 + ((153 * mp + 2) / 5 + d - 1) = (z + 719468) % 146097 := by
  have hdoe : 0 ≤ (z + 719468) % 146097 ∧ (z + 719468) % 146097 < 146097 := by omega
  obtain ⟨hy0, hy1, hd0, hd1, hy⟩ := yearOfEra_spec hdoe.1 hdoe.2
  obtain ⟨hm0, hm1, hday0, hday1, hm⟩ := monthOfYear_spec hd0 hd1
  refine ⟨_, _, (monthOfYear (yearOfEra ((z + 719468) % 146097)).2).1,
    (monthOfYear (yearOfEra ((z + 719468) % 146097)).2).2, rfl, rfl, hy0, hy1, hm0, hm1, hday0,
    hday1, ?_⟩
  rw [hm]
  exact hy

/-- The month and the day of a day number are in range. -/
theorem civilFromDays_bounds (z : Int) :
    1 ≤ (civilFromDays z).month ∧ (civilFromDays z).month ≤ 12 ∧
      1 ≤ (civilFromDays z).day ∧ (civilFromDays z).day ≤ 31 := by
  obtain ⟨yoe, doy, mp, d, hp, hq, -, -, hm0, hm1, hd0, hd1, -⟩ := civilFromDays_parts z
  simp only [civilFromDays, hp, hq]
  split_ifs <;> omega

theorem daysFromCivil_civilFromDays (z : Int) : daysFromCivil (civilFromDays z) = z := by
  obtain ⟨yoe, doy, mp, d, hp, hq, hy0, hy1, hm0, hm1, -, -, hsum⟩ := civilFromDays_parts z
  simp only [civilFromDays, daysFromCivil, hp, hq]
  -- the era and the year of the era come back from the year, the day of the year from the
  -- month and the day
  split_ifs <;> omega

/-! ## The year of a day number -/

/-- A date of year `y` or later is on or after the first of January of `y`. -/
theorem daysFromCivil_newYear_le {date : Date} {y : Int} (hy : y ≤ date.year)
    (hm : 1 ≤ date.month) (hm' : date.month ≤ 12) (hd : 1 ≤ date.day) :
    daysFromCivil ⟨y, 1, 1⟩ ≤ daysFromCivil date := by
  simp only [daysFromCivil]
  split_ifs <;> omega

/-- A date of a year before `y` is before the first of January of `y`. -/
theorem daysFromCivil_lt_newYear {date : Date} {y : Int} (hy : date.year < y)
    (hm : 1 ≤ date.month) (hm' : date.month ≤ 12) (hd : date.day ≤ 31) :
    daysFromCivil date < daysFromCivil ⟨y, 1, 1⟩ := by
  simp only [daysFromCivil]
  split_ifs <;> omega

/-- A day number is in a year before `y` exactly when it is before the first of January of
`y`. -/
theorem year_civilFromDays_lt_iff (z y : Int) :
    (civilFromDays z).year < y ↔ z < daysFromCivil ⟨y, 1, 1⟩ := by
  obtain ⟨hm, hm', hd, hd'⟩ := civilFromDays_bounds z
  constructor
  · intro hy
    have := daysFromCivil_lt_newYear hy hm hm' hd'
    rwa [daysFromCivil_civilFromDays] at this
  · intro hz
    by_contra hy
    have := daysFromCivil_newYear_le (not_lt.mp hy) hm hm' hd
    rw [daysFromCivil_civilFromDays] at this
    omega

end Civil
