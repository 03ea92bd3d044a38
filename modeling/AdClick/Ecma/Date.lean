import AdClick.Library.FixedDigits
import AdClick.Library.Gregorian
import Mathlib.Tactic.NormNum

/-!
# ECMAScript dates

The part of `Date` that the services call: `new Date(text)`, `getTime`, `setSeconds` and
`toISOString`. A time value is an integer number of milliseconds since 1970-01-01T00:00:00Z within
`±maxTime`; an invalid date is `none` (the NaN time value), and only `toISOString` throws on it.

A `Host` supplies what the language leaves to the environment: the process time zone, as a fixed
offset of whole minutes (zero in the service containers), and the reading of texts other than the
form that `toISOString` writes. The form that `toISOString` writes reads back as the time value it
was written from (`newDate_isoString`), so it is injective (`isoString_injective`).
-/

set_option autoImplicit false

namespace AdClick.Ecma

open AdClick.Library AdClick.Library.Gregorian

/-- The errors the modelled built-ins throw. -/
inductive JsError where
  | rangeError
  | typeError
  deriving DecidableEq

def msPerMinute : Int := 60000

def msPerDay : Int := 86400000

/-- The largest absolute time value. -/
def maxTime : Int := 8640000000000000

/-- A finite time value. -/
@[ext] structure TimeValue where
  ms : Int
  lower : -maxTime ≤ ms
  upper : ms ≤ maxTime
  deriving DecidableEq

/-- A `Date` is its time value; `none` is an invalid date. -/
abbrev Date := Option TimeValue

def timeClip (t : Int) : Date :=
  if h : -maxTime ≤ t ∧ t ≤ maxTime then some ⟨t, h.1, h.2⟩ else none

@[simp] theorem timeClip_ms (t : TimeValue) : timeClip t.ms = some t :=
  dif_pos ⟨t.lower, t.upper⟩

/-! ## Fields of a time value -/

def dayFromTime (t : Int) : Int := t / msPerDay

def hourFromTime (t : Int) : Int := t / 3600000 % 24

def minFromTime (t : Int) : Int := t / 60000 % 60

def secFromTime (t : Int) : Int := t / 1000 % 60

def msFromTime (t : Int) : Int := t % 1000

def makeTime (hour min sec ms : Int) : Int := hour * 3600000 + min * 60000 + sec * 1000 + ms

def makeDate (day time : Int) : Int := day * msPerDay + time

/-- A time value is its day and its time within the day. -/
theorem makeDate_fields (t : Int) :
    makeDate (dayFromTime t)
      (makeTime (hourFromTime t) (minFromTime t) (secFromTime t) (msFromTime t)) = t := by
  simp only [makeDate, makeTime, dayFromTime, hourFromTime, minFromTime, secFromTime, msFromTime,
    msPerDay]
  omega

theorem hourFromTime_bounds (t : Int) : 0 ≤ hourFromTime t ∧ hourFromTime t < 24 := by
  simp only [hourFromTime]
  omega

theorem minFromTime_bounds (t : Int) : 0 ≤ minFromTime t ∧ minFromTime t < 60 := by
  simp only [minFromTime]
  omega

theorem secFromTime_bounds (t : Int) : 0 ≤ secFromTime t ∧ secFromTime t < 60 := by
  simp only [secFromTime]
  omega

theorem msFromTime_bounds (t : Int) : 0 ≤ msFromTime t ∧ msFromTime t < 1000 := by
  simp only [msFromTime]
  omega

/-! ## The ISO form -/

/-- Four digits for the years 0 to 9999, else a sign and six digits. -/
def yearChars (y : Int) : List Char :=
  if 0 ≤ y ∧ y ≤ 9999 then fixedDigits 4 y.toNat
  else (if y < 0 then '-' else '+') :: fixedDigits 6 y.natAbs

/-- The date half of the ISO form, `YYYY-MM-DD`. -/
def dateChars (t : Int) : List Char :=
  let c := civilOfDay (dayFromTime t)
  yearChars c.year ++ ('-' :: fixedDigits 2 (c.month + 1) ++ '-' :: fixedDigits 2 c.day)

/-- Hour and minute, `HH:mm`. -/
def clockChars (t : Int) : List Char :=
  fixedDigits 2 (hourFromTime t).toNat ++ ':' :: fixedDigits 2 (minFromTime t).toNat

/-- The time half of the ISO form, `HH:mm:ss.sssZ`. -/
def timeChars (t : Int) : List Char :=
  clockChars t ++ (':' :: fixedDigits 2 (secFromTime t).toNat ++
    ('.' :: fixedDigits 3 (msFromTime t).toNat ++ ['Z']))

/-- `YYYY-MM-DDTHH:mm:ss.sssZ`. -/
def isoChars (t : Int) : List Char := dateChars t ++ 'T' :: timeChars t

def isoString (t : TimeValue) : String := String.ofList (isoChars t.ms)

/-- `Date.prototype.toISOString`. -/
def toISOString : Date → Except JsError String
  | none => .error .rangeError
  | some t => .ok (isoString t)

/-! ## Reading the ISO form -/

def readYear : List Char → Option (Int × List Char)
  | '+' :: cs => (readDigits 6 cs).map fun p => (p.1, p.2)
  | '-' :: cs => (readDigits 6 cs).map fun p => (-p.1, p.2)
  | cs => (readDigits 4 cs).map fun p => (p.1, p.2)

def expect (c : Char) : List Char → Option (List Char)
  | [] => none
  | d :: cs => if d = c then some cs else none

/-- The instant a text in the shape of the ISO form denotes. -/
def readIso (cs : List Char) : Option Int := do
  let (year, cs) ← readYear cs
  let cs ← expect '-' cs
  let (month, cs) ← readDigits 2 cs
  let cs ← expect '-' cs
  let (day, cs) ← readDigits 2 cs
  let cs ← expect 'T' cs
  let (hour, cs) ← readDigits 2 cs
  let cs ← expect ':' cs
  let (min, cs) ← readDigits 2 cs
  let cs ← expect ':' cs
  let (sec, cs) ← readDigits 2 cs
  let cs ← expect '.' cs
  let (ms, cs) ← readDigits 3 cs
  let _ ← expect 'Z' cs
  return makeDate (dayOfCivil ⟨year, month - 1, day⟩) (makeTime hour min sec ms)

theorem digit_ne_sign {c : Char} (h : c.isDigit = true) : c ≠ '+' ∧ c ≠ '-' := by
  constructor
  · rintro rfl
    cases h
  · rintro rfl
    cases h

/-- The year field reads back for every year of at most six digits. -/
theorem readYear_yearChars {y : Int} (hlo : -1000000 < y) (hhi : y < 1000000) (rest : List Char) :
    readYear (yearChars y ++ rest) = some (y, rest) := by
  simp only [yearChars]
  split
  · -- four digits: the reader looks for a sign first, and a digit is none
    rename_i hy
    have hread : readDigits 4 (fixedDigits 4 y.toNat ++ rest) = some (y.toNat, rest) :=
      readDigits_fixedDigits (by omega) rest
    cases hd : fixedDigits 4 y.toNat with
    | nil =>
      have hlen := length_fixedDigits 4 y.toNat
      rw [hd] at hlen
      cases hlen
    | cons c cs =>
      have hc : c ∈ fixedDigits 4 y.toNat := by
        rw [hd]
        exact List.mem_cons_self
      obtain ⟨hplus, hminus⟩ := digit_ne_sign (isDigit_of_mem_fixedDigits hc)
      rw [hd] at hread
      simp only [List.cons_append] at hread ⊢
      simp only [readYear]
      split
      · rename_i heq
        exact absurd (List.cons.inj heq).1 hplus
      · rename_i heq
        exact absurd (List.cons.inj heq).1 hminus
      · rw [hread]
        simp [Int.toNat_of_nonneg hy.1]
  · -- a sign and six digits
    have hread : readDigits 6 (fixedDigits 6 y.natAbs ++ rest) = some (y.natAbs, rest) :=
      readDigits_fixedDigits (by omega) rest
    by_cases hneg : y < 0
    · simp only [if_pos hneg, List.cons_append, readYear, hread, Option.map_some]
      congr 2
      omega
    · simp only [if_neg hneg, List.cons_append, readYear, hread, Option.map_some]
      congr 2
      omega

/-- Every time value has a year of at most six digits. -/
theorem year_bounds (t : TimeValue) :
    -1000000 < (civilOfDay (dayFromTime t.ms)).year ∧
      (civilOfDay (dayFromTime t.ms)).year < 1000000 := by
  have hlo := t.lower
  have hhi := t.upper
  simp only [maxTime] at hlo hhi
  have hfirst : dayFromYear (-999998) ≤ dayFromTime t.ms := by
    simp only [dayFromYear, dayFromTime, msPerDay]
    omega
  have hlast : dayFromTime t.ms < dayFromYear 1000000 := by
    simp only [dayFromYear, dayFromTime, msPerDay]
    omega
  obtain ⟨hge, hlt⟩ := civilOfDay_year_bounds _ _ _ hfirst hlast
  exact ⟨by omega, hlt⟩

@[simp] theorem expect_cons (c : Char) (cs : List Char) : expect c (c :: cs) = some cs := by
  simp [expect]

/-- A field that reads leaves the rest of the text to the rest of the reader. -/
theorem bind_of_eq_some {α β : Type} {x : Option α} {a : α} {f : α → Option β} {b : Option β}
    (hx : x = some a) (h : f a = b) : x >>= f = b := by
  rw [hx]
  exact h

/-- The ISO form of a time value denotes the time value. -/
theorem readIso_isoChars (t : TimeValue) : readIso (isoChars t.ms) = some t.ms := by
  obtain ⟨hylo, hyhi⟩ := year_bounds t
  have hmonth := civilOfDay_month_le (dayFromTime t.ms)
  have hday := civilOfDay_day_bounds (dayFromTime t.ms)
  have hhour := hourFromTime_bounds t.ms
  have hmin := minFromTime_bounds t.ms
  have hsec := secFromTime_bounds t.ms
  have hms := msFromTime_bounds t.ms
  have hcivil := dayOfCivil_civilOfDay (dayFromTime t.ms)
  have hfields := makeDate_fields t.ms
  simp only [isoChars, dateChars, timeChars, clockChars, List.cons_append, List.append_assoc]
  generalize civilOfDay (dayFromTime t.ms) = c at *
  -- the reader consumes the fields and separators in the order in which they were written
  apply bind_of_eq_some (readYear_yearChars hylo hyhi _)
  apply bind_of_eq_some (expect_cons _ _)
  apply bind_of_eq_some (readDigits_fixedDigits (by omega) _)
  apply bind_of_eq_some (expect_cons _ _)
  apply bind_of_eq_some (readDigits_fixedDigits (by omega) _)
  apply bind_of_eq_some (expect_cons _ _)
  apply bind_of_eq_some (readDigits_fixedDigits (by omega) _)
  apply bind_of_eq_some (expect_cons _ _)
  apply bind_of_eq_some (readDigits_fixedDigits (by omega) _)
  apply bind_of_eq_some (expect_cons _ _)
  apply bind_of_eq_some (readDigits_fixedDigits (by omega) _)
  apply bind_of_eq_some (expect_cons _ _)
  apply bind_of_eq_some (readDigits_fixedDigits (by omega) _)
  apply bind_of_eq_some (expect_cons _ _)
  -- and the fields make up the time value again
  simp only [Nat.add_sub_cancel, Int.toNat_of_nonneg hhour.1, Int.toNat_of_nonneg hmin.1,
    Int.toNat_of_nonneg hsec.1, Int.toNat_of_nonneg hms.1, hcivil, hfields]
  rfl

theorem isoChars_injective {t u : TimeValue} (h : isoChars t.ms = isoChars u.ms) : t = u := by
  have ht := readIso_isoChars t
  rw [h, readIso_isoChars u] at ht
  exact TimeValue.ext (Option.some.inj ht).symm

theorem isoString_injective {t u : TimeValue} (h : isoString t = isoString u) : t = u :=
  isoChars_injective (String.ofList_injective h)

/-! ## The characters of the ISO form -/

theorem mem_yearChars {y : Int} {c : Char} (h : c ∈ yearChars y) :
    c.isDigit = true ∨ c = '-' ∨ c = '+' := by
  simp only [yearChars] at h
  split at h
  · exact Or.inl (isDigit_of_mem_fixedDigits h)
  · rcases List.mem_cons.1 h with hc | hc
    · split at hc
      · exact Or.inr (Or.inl hc)
      · exact Or.inr (Or.inr hc)
    · exact Or.inl (isDigit_of_mem_fixedDigits hc)

theorem mem_dateChars {t : Int} {c : Char} (h : c ∈ dateChars t) :
    c.isDigit = true ∨ c = '-' ∨ c = '+' := by
  simp only [dateChars, List.mem_append, List.mem_cons] at h
  rcases h with hy | (hdash | hm) | hdash | hd
  · exact mem_yearChars hy
  · exact Or.inr (Or.inl hdash)
  · exact Or.inl (isDigit_of_mem_fixedDigits hm)
  · exact Or.inr (Or.inl hdash)
  · exact Or.inl (isDigit_of_mem_fixedDigits hd)

theorem mem_timeChars {t : Int} {c : Char} (h : c ∈ timeChars t) :
    c.isDigit = true ∨ c ∈ [':', '.', 'Z'] := by
  simp only [timeChars, clockChars, List.mem_append, List.mem_cons, List.not_mem_nil,
    or_false] at h ⊢
  rcases h with (hd | rfl | hd) | (rfl | hd) | (rfl | hd) | rfl
  all_goals first
    | exact Or.inl (isDigit_of_mem_fixedDigits hd)
    | simp

/-- A character that is no digit and none of the signs, letters and punctuation of the ISO form
does not occur in it. -/
theorem not_mem_isoChars {t : Int} {c : Char} (hd : c.isDigit = false)
    (hc : c ∉ ['-', '+', 'T', ':', '.', 'Z']) : c ∉ isoChars t := by
  intro h
  have hd' : c.isDigit ≠ true := by simp [hd]
  -- the date half, the separator, the time half
  rcases List.mem_append.1 h with h | h
  · rcases mem_dateChars h with h | rfl | rfl
    · exact hd' h
    · exact hc (by decide)
    · exact hc (by decide)
  · rcases List.mem_cons.1 h with rfl | h
    · exact hc (by decide)
    · rcases mem_timeChars h with h | h
      · exact hd' h
      · exact hc (List.mem_append_right ['-', '+', 'T'] h)

theorem length_yearChars (y : Int) : (yearChars y).length = 4 ∨ (yearChars y).length = 7 := by
  simp only [yearChars]
  split
  · exact Or.inl (length_fixedDigits 4 _)
  · exact Or.inr (congrArg Nat.succ (length_fixedDigits 6 _))

theorem length_dateChars (t : Int) : (dateChars t).length = 10 ∨ (dateChars t).length = 13 := by
  rcases length_yearChars (civilOfDay (dayFromTime t)).year with h | h
  · exact Or.inl (by simp [dateChars, h])
  · exact Or.inr (by simp [dateChars, h])

theorem length_clockChars (t : Int) : (clockChars t).length = 5 := by simp [clockChars]

/-- At the start of a minute the time half of the ISO form is the clock followed by zeros. -/
theorem timeChars_of_aligned {t : Int} (h : t % msPerMinute = 0) :
    timeChars t = clockChars t ++ [':', '0', '0', '.', '0', '0', '0', 'Z'] := by
  have hsec : secFromTime t = 0 := by
    simp only [msPerMinute] at h
    simp only [secFromTime]
    omega
  have hms : msFromTime t = 0 := by
    simp only [msPerMinute] at h
    simp only [msFromTime]
    omega
  -- what is left to write is the text of two zeros
  rw [timeChars, hsec, hms]
  rfl

/-! ## The order of the ISO form -/

/-- In the years 0 to 9999 the date has 10 characters. -/
theorem dateChars_of_year {t : Int} (hlo : 0 ≤ (civilOfDay (dayFromTime t)).year)
    (hhi : (civilOfDay (dayFromTime t)).year ≤ 9999) :
    dateChars t = fixedDigits 4 (civilOfDay (dayFromTime t)).year.toNat ++
      ('-' :: fixedDigits 2 ((civilOfDay (dayFromTime t)).month + 1) ++
        '-' :: fixedDigits 2 (civilOfDay (dayFromTime t)).day) := by
  rw [dateChars, yearChars, if_pos ⟨hlo, hhi⟩]

/-- In the years 0 to 9999 dates compare as the days they are the dates of. -/
theorem dateChars_append_lt_iff {t u : Int} (htlo : 0 ≤ (civilOfDay (dayFromTime t)).year)
    (hthi : (civilOfDay (dayFromTime t)).year ≤ 9999)
    (hulo : 0 ≤ (civilOfDay (dayFromTime u)).year)
    (huhi : (civilOfDay (dayFromTime u)).year ≤ 9999) (xs ys : List Char) :
    dateChars t ++ xs < dateChars u ++ ys ↔
      dayFromTime t < dayFromTime u ∨ dayFromTime t = dayFromTime u ∧ xs < ys := by
  have hdate : civilOfDay (dayFromTime t) = civilOfDay (dayFromTime u) ↔
      dayFromTime t = dayFromTime u := ⟨civilOfDay_injective, congrArg civilOfDay⟩
  have htmonth := civilOfDay_month_le (dayFromTime t)
  have humonth := civilOfDay_month_le (dayFromTime u)
  have htday := civilOfDay_day_bounds (dayFromTime t)
  have huday := civilOfDay_day_bounds (dayFromTime u)
  rw [← civilOfDay_before_iff, ← hdate, dateChars_of_year htlo hthi, dateChars_of_year hulo huhi]
  generalize civilOfDay (dayFromTime t) = c at *
  generalize civilOfDay (dayFromTime u) = e at *
  -- year, month and day stand in the order in which they compare
  simp only [List.cons_append, List.append_assoc]
  rw [fixedDigits_append_lt_iff (by omega) (by omega), List.cons_lt_cons_self,
    fixedDigits_append_lt_iff (by omega) (by omega), List.cons_lt_cons_self,
    fixedDigits_append_lt_iff (by omega) (by omega), CivilDate.Before]
  generalize (xs < ys) = rest
  cases c
  cases e
  simp only [CivilDate.mk.injEq] at *
  grind

/-- Clocks compare by the hour, then the minute. -/
theorem clockChars_append_lt_iff (t u : Int) (xs ys : List Char) :
    clockChars t ++ xs < clockChars u ++ ys ↔
      hourFromTime t < hourFromTime u ∨ hourFromTime t = hourFromTime u ∧
        (minFromTime t < minFromTime u ∨ minFromTime t = minFromTime u ∧ xs < ys) := by
  have hthour := hourFromTime_bounds t
  have huhour := hourFromTime_bounds u
  have htmin := minFromTime_bounds t
  have humin := minFromTime_bounds u
  rw [clockChars, clockChars]
  simp only [List.cons_append, List.append_assoc]
  rw [fixedDigits_append_lt_iff (by omega) (by omega), List.cons_lt_cons_self,
    fixedDigits_append_lt_iff (by omega) (by omega)]
  generalize (xs < ys) = rest
  grind

/-! ## The host -/

/-- What the language leaves to the environment: the offset of local time from UTC in minutes, which
is the same at all times, and what texts other than the ISO form of a time value read as. -/
structure Host where
  offsetMinutes : Int
  parseOther : String → Date

/-- A host in UTC that reads no text but the ISO form. -/
def utcHost : Host := ⟨0, fun _ => none⟩

namespace Host

variable (host : Host)

/-- `new Date(text)`: the ISO form of a time value reads as that time value. -/
def newDate (text : String) : Date :=
  match (readIso text.toList).bind timeClip with
  -- a text that `toISOString` would write another way, such as a day past the end of its month,
  -- is left to the host
  | some t => if isoString t = text then some t else host.parseOther text
  | none => host.parseOther text

def localTime (t : Int) : Int := t + host.offsetMinutes * msPerMinute

def utc (t : Int) : Int := t - host.offsetMinutes * msPerMinute

/-- `Date.prototype.setSeconds`: the seconds and milliseconds are replaced in local time. -/
def setSeconds (d : Date) (sec ms : Int) : Date :=
  d.bind fun tv =>
    let t := host.localTime tv.ms
    timeClip (host.utc
      (makeDate (dayFromTime t) (makeTime (hourFromTime t) (minFromTime t) sec ms)))

/-- What `toISOString` writes reads back as the time value it was written from. -/
@[simp] theorem newDate_isoString (t : TimeValue) : host.newDate (isoString t) = some t := by
  have h : (readIso (isoString t).toList).bind timeClip = some t := by
    rw [isoString, String.toList_ofList, readIso_isoChars]
    exact timeClip_ms t
  simp only [newDate]
  rw [h]
  simp

end Host

end AdClick.Ecma
