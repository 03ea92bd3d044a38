import Mathlib.Tactic.Ring
import Mathlib.Data.Int.Basic

/-!
# The proleptic Gregorian calendar

Days are counted from 1970-01-01 as integers, negative before it. `dayFromYear y` is the first day
of the year `y`; `yearFromDay` inverts it by estimating the year from its mean length of
146097 / 400 days and correcting the estimate by at most one (`dayFromYear_le_day`,
`day_lt_dayFromYear_succ`). Months are numbered from 0 and days of a month from 1. The civil date
of a day determines the day (`dayOfCivil_civilOfDay`), so distinct days have distinct dates, and
civil dates compare as their days do (`civilOfDay_before_iff`).
-/

set_option autoImplicit false

namespace AdClick.Library.Gregorian

/-- The day number of the first day of the year. -/
def dayFromYear (y : Int) : Int :=
  365 * (y - 1970) + (y - 1969) / 4 - (y - 1901) / 100 + (y - 1601) / 400

/-- A leap year is divisible by 4, and by 400 when it ends a century. -/
def isLeapYear (y : Int) : Bool := y % 4 == 0 && (y % 100 != 0 || y % 400 == 0)

/-- One in a leap year, zero otherwise. -/
def inLeapYear (y : Int) : Int := if isLeapYear y then 1 else 0

theorem inLeapYear_eq (y : Int) :
    inLeapYear y = if y % 4 = 0 ∧ (y % 100 ≠ 0 ∨ y % 400 = 0) then 1 else 0 := by
  simp [inLeapYear, isLeapYear]

/-- A year has 365 days, a leap year one more. -/
theorem dayFromYear_succ (y : Int) :
    dayFromYear (y + 1) = dayFromYear y + 365 + inLeapYear y := by
  rw [inLeapYear_eq]
  simp only [dayFromYear]
  split <;> omega

theorem dayFromYear_le_of_le {y z : Int} (h : y ≤ z) : dayFromYear y ≤ dayFromYear z := by
  simp only [dayFromYear]
  omega

theorem lt_of_dayFromYear_lt {y z : Int} (h : dayFromYear y < dayFromYear z) : y < z := by
  by_contra hle
  exact Int.not_le.2 h (dayFromYear_le_of_le (Int.not_lt.1 hle))

/-- The mean-length estimate of the year that contains a day; off by at most one. -/
def estimateYear (d : Int) : Int := (d + 719528) * 400 / 146097

/-- The year that contains the day. -/
def yearFromDay (d : Int) : Int :=
  let y := estimateYear d
  if d < dayFromYear y then y - 1
  else if dayFromYear (y + 1) ≤ d then y + 1
  else y

/-- The year before the estimate has begun by the day, the second after it has not. -/
theorem dayFromYear_estimateYear (d : Int) :
    dayFromYear (estimateYear d - 1) ≤ d ∧ d < dayFromYear (estimateYear d + 2) := by
  simp only [dayFromYear, estimateYear]
  omega

/-- A year starts no later than its days. -/
theorem dayFromYear_le_day (d : Int) : dayFromYear (yearFromDay d) ≤ d := by
  have h := dayFromYear_estimateYear d
  simp only [yearFromDay]
  split
  · -- the estimate is a year too late
    exact h.1
  · split
    · assumption
    · omega

/-- A year ends before the next one starts. -/
theorem day_lt_dayFromYear_succ (d : Int) : d < dayFromYear (yearFromDay d + 1) := by
  have h := dayFromYear_estimateYear d
  simp only [yearFromDay]
  split
  · rwa [sub_add_cancel]
  · split
    · -- the estimate is a year too early
      rw [add_assoc]
      exact h.2
    · omega

/-- The day's position in its year, from 0. -/
def dayWithinYear (d : Int) : Int := d - dayFromYear (yearFromDay d)

theorem dayWithinYear_bounds (d : Int) :
    0 ≤ dayWithinYear d ∧ dayWithinYear d < 365 + inLeapYear (yearFromDay d) := by
  have h1 := dayFromYear_le_day d
  have h2 := day_lt_dayFromYear_succ d
  rw [dayFromYear_succ] at h2
  simp only [dayWithinYear]
  omega

/-! ## Months -/

/-- The first day of a month within a year with `leap` leap days (0 or 1). -/
def monthStart (leap : Int) : Nat → Int
  | 0 => 0
  | 1 => 31
  | 2 => 59 + leap
  | 3 => 90 + leap
  | 4 => 120 + leap
  | 5 => 151 + leap
  | 6 => 181 + leap
  | 7 => 212 + leap
  | 8 => 243 + leap
  | 9 => 273 + leap
  | 10 => 304 + leap
  | 11 => 334 + leap
  | _ => 365 + leap

/-- The month that contains the day `n` of a year with `leap` leap days. -/
def monthFromDay (leap n : Int) : Nat :=
  if n < 31 then 0
  else if n < 59 + leap then 1
  else if n < 90 + leap then 2
  else if n < 120 + leap then 3
  else if n < 151 + leap then 4
  else if n < 181 + leap then 5
  else if n < 212 + leap then 6
  else if n < 243 + leap then 7
  else if n < 273 + leap then 8
  else if n < 304 + leap then 9
  else if n < 334 + leap then 10
  else 11

theorem monthFromDay_le (leap n : Int) : monthFromDay leap n ≤ 11 := by
  rw [monthFromDay]
  iterate 11 refine iteInduction (motive := (· ≤ 11)) (fun _ => by decide) fun _ => ?_
  exact le_rfl

/-- The months of a year start one after the other, at most 31 days apart. -/
theorem monthStart_succ_bounds {leap : Int} (hl : leap = 0 ∨ leap = 1) (m : Nat) :
    monthStart leap m ≤ monthStart leap (m + 1) ∧
      monthStart leap (m + 1) ≤ monthStart leap m + 31 := by
  match m with
  | 0 | 1 | 2 | 3 | 4 | 5 | 6 | 7 | 8 | 9 | 10 | 11 | m + 12 =>
    simp only [monthStart]
    omega

theorem monthStart_le_of_le {leap : Int} (hl : leap = 0 ∨ leap = 1) {m k : Nat} (h : m ≤ k) :
    monthStart leap m ≤ monthStart leap k := by
  induction h with
  | refl => exact Int.le_refl _
  | step _ ih => exact Int.le_trans ih (monthStart_succ_bounds hl _).1

/-- A day lies between the start of its month and the start of the next. -/
theorem monthFromDay_bounds {leap n : Int} (h0 : 0 ≤ n) (hn : n < 365 + leap) :
    monthStart leap (monthFromDay leap n) ≤ n ∧
      n < monthStart leap (monthFromDay leap n + 1) := by
  rw [monthFromDay]
  -- one comparison at a time: the ones that failed bound the day from below
  iterate 11
    refine iteInduction
      (motive := fun m => monthStart leap m ≤ n ∧ n < monthStart leap (m + 1)) ?_ ?_
    · intro hlt
      simp only [monthStart]
      omega
    intro hge
  simp only [monthStart]
  omega

/-! ## Civil dates -/

/-- A year, a month from 0 and a day of the month from 1. -/
structure CivilDate where
  year : Int
  month : Nat
  day : Nat
  deriving DecidableEq

/-- The civil date of a day. -/
def civilOfDay (d : Int) : CivilDate :=
  let y := yearFromDay d
  let n := dayWithinYear d
  let m := monthFromDay (inLeapYear y) n
  ⟨y, m, (n - monthStart (inLeapYear y) m).toNat + 1⟩

/-- The day of a civil date. -/
def dayOfCivil (c : CivilDate) : Int :=
  dayFromYear c.year + monthStart (inLeapYear c.year) c.month + (c.day - 1)

theorem inLeapYear_cases (y : Int) : inLeapYear y = 0 ∨ inLeapYear y = 1 := by
  simp only [inLeapYear]
  split
  · exact Or.inr rfl
  · exact Or.inl rfl

theorem monthStart_dayWithinYear_bounds (d : Int) :
    let leap := inLeapYear (yearFromDay d)
    let m := monthFromDay leap (dayWithinYear d)
    monthStart leap m ≤ dayWithinYear d ∧ dayWithinYear d < monthStart leap (m + 1) :=
  monthFromDay_bounds (dayWithinYear_bounds d).1 (dayWithinYear_bounds d).2

/-- The civil date of a day determines the day. -/
theorem dayOfCivil_civilOfDay (d : Int) : dayOfCivil (civilOfDay d) = d := by
  have hm := (monthStart_dayWithinYear_bounds d).1
  have hd : dayWithinYear d = d - dayFromYear (yearFromDay d) := rfl
  simp only [dayOfCivil, civilOfDay]
  push_cast
  rw [Int.toNat_of_nonneg (by omega)]
  omega

theorem civilOfDay_month_le (d : Int) : (civilOfDay d).month ≤ 11 := monthFromDay_le _ _

/-- The number of days of a month. -/
def daysInMonth (y : Int) (m : Nat) : Int :=
  monthStart (inLeapYear y) (m + 1) - monthStart (inLeapYear y) m

/-- The day of a civil date is a day of its month. -/
theorem civilOfDay_day_le (d : Int) :
    (civilOfDay d).day ≤ daysInMonth (civilOfDay d).year (civilOfDay d).month := by
  have hm := monthStart_dayWithinYear_bounds d
  simp only [civilOfDay, daysInMonth]
  omega

theorem civilOfDay_day_bounds (d : Int) : 1 ≤ (civilOfDay d).day ∧ (civilOfDay d).day ≤ 31 := by
  have hday := civilOfDay_day_le d
  have hlen := monthStart_succ_bounds (inLeapYear_cases (civilOfDay d).year) (civilOfDay d).month
  rw [daysInMonth] at hday
  exact ⟨Nat.succ_pos _, by omega⟩

/-- Days within a span of years have their year in the span. -/
theorem civilOfDay_year_bounds (d lo hi : Int) (hlo : dayFromYear lo ≤ d)
    (hhi : d < dayFromYear hi) : lo - 1 < (civilOfDay d).year ∧ (civilOfDay d).year < hi := by
  have hfirst := lt_of_dayFromYear_lt (Int.lt_of_le_of_lt hlo (day_lt_dayFromYear_succ d))
  have hlast := lt_of_dayFromYear_lt (Int.lt_of_le_of_lt (dayFromYear_le_day d) hhi)
  exact ⟨Int.sub_one_lt_iff.2 (Int.lt_add_one_iff.1 hfirst), hlast⟩

/-! ## The order of days -/

theorem yearFromDay_le_of_le {d e : Int} (h : d ≤ e) : yearFromDay d ≤ yearFromDay e := by
  have hbegun : dayFromYear (yearFromDay d) ≤ e := Int.le_trans (dayFromYear_le_day d) h
  have hlt : dayFromYear (yearFromDay d) < dayFromYear (yearFromDay e + 1) :=
    Int.lt_of_le_of_lt hbegun (day_lt_dayFromYear_succ e)
  exact Int.lt_add_one_iff.1 (lt_of_dayFromYear_lt hlt)

theorem monthFromDay_le_of_le {leap n k : Int} (hl : leap = 0 ∨ leap = 1) (h0 : 0 ≤ n)
    (hk : k < 365 + leap) (h : n ≤ k) : monthFromDay leap n ≤ monthFromDay leap k := by
  by_contra hlt
  -- the month after that of the later day would have begun by the earlier day
  have hmonth : monthStart leap (monthFromDay leap k + 1) ≤ monthStart leap (monthFromDay leap n) :=
    monthStart_le_of_le hl (Nat.not_le.1 hlt)
  have hbegun : monthStart leap (monthFromDay leap n) ≤ n :=
    (monthFromDay_bounds h0 (Int.lt_of_le_of_lt h hk)).1
  have hover : k < monthStart leap (monthFromDay leap k + 1) :=
    (monthFromDay_bounds (Int.le_trans h0 h) hk).2
  omega

/-- One civil date comes before another: the years compare first, then the months, then the
days. -/
def CivilDate.Before (c e : CivilDate) : Prop :=
  c.year < e.year ∨ c.year = e.year ∧ (c.month < e.month ∨ c.month = e.month ∧ c.day < e.day)

theorem civilOfDay_before {d e : Int} (h : d < e) : (civilOfDay d).Before (civilOfDay e) := by
  rcases Int.lt_or_eq_of_le (yearFromDay_le_of_le (Int.le_of_lt h)) with hy | hy
  · exact Or.inl hy
  · refine Or.inr ⟨hy, ?_⟩
    have hd := dayWithinYear_bounds d
    have he := dayWithinYear_bounds e
    have hmd := monthStart_dayWithinYear_bounds d
    have hme := monthStart_dayWithinYear_bounds e
    dsimp only at hmd hme
    have hday : dayWithinYear d < dayWithinYear e := by
      rw [dayWithinYear, dayWithinYear, hy]
      omega
    simp only [civilOfDay]
    rw [hy] at hd hmd ⊢
    rcases Nat.lt_or_eq_of_le (monthFromDay_le_of_le (inLeapYear_cases _) hd.1 he.2
      (Int.le_of_lt hday)) with hm | hm
    · exact Or.inl hm
    · refine Or.inr ⟨hm, ?_⟩
      rw [hm] at hmd ⊢
      omega

/-- Civil dates compare as the days they are the dates of. -/
theorem civilOfDay_before_iff {d e : Int} : (civilOfDay d).Before (civilOfDay e) ↔ d < e := by
  constructor
  · intro h
    rcases lt_trichotomy d e with hlt | rfl | hgt
    · exact hlt
    · simp only [CivilDate.Before] at h
      omega
    · have hback := civilOfDay_before hgt
      simp only [CivilDate.Before] at h hback
      omega
  · exact civilOfDay_before

theorem civilOfDay_injective {d e : Int} (h : civilOfDay d = civilOfDay e) : d = e := by
  rw [← dayOfCivil_civilOfDay d, h, dayOfCivil_civilOfDay]

end AdClick.Library.Gregorian
