import AdClick.Window.CheckedFlush

/-!
# The time column of the table

A flush writes the start of a window as a text of 19 characters. For the instants of the years 0 to
9999 this column is a faithful image of the tumbling windows, in every time zone with one offset of
whole minutes (`timeColumn`): the text reads back as the start of the window, and texts
compare as the starts do. What the code computes for an instant is said once
(`windowStartOf_iff`), and the parts of `TimeColumn` follow from it.

The column keeps the windows of an ad apart only where the key of a bucket splits back into the ad
and the window. The rows of an ad are apart exactly when its id contains no `|`
(`timeColumn_and_rowsApart_iff`).
-/

set_option autoImplicit false

namespace AdClick.Window

open AdClick.Library AdClick.Ecma AdClick.Library.Gregorian

/-- An instant of the years 0 to 9999, in milliseconds since 1970. -/
structure Instant where
  ms : Int
  lower : 0 ≤ (civilOfDay (dayFromTime ms)).year
  upper : (civilOfDay (dayFromTime ms)).year ≤ 9999

namespace Instant

/-- The years 0 to 9999 are within the range of a `Date`. -/
theorem ms_bounds (t : Instant) : -maxTime ≤ t.ms ∧ t.ms ≤ maxTime := by
  have hfirst : dayFromYear 0 ≤ dayFromTime t.ms :=
    Int.le_trans (dayFromYear_le_of_le t.lower) (dayFromYear_le_day _)
  have hlast : dayFromTime t.ms < dayFromYear 10000 :=
    Int.lt_of_lt_of_le (day_lt_dayFromYear_succ _)
      (dayFromYear_le_of_le (Int.add_le_add_right t.upper 1))
  simp only [dayFromYear, dayFromTime, msPerDay] at hfirst hlast
  simp only [maxTime]
  omega

def value (t : Instant) : TimeValue := ⟨t.ms, t.ms_bounds.1, t.ms_bounds.2⟩

/-- The window of an instant begins in a year of 0 to 9999. -/
theorem window_year (t : Instant) :
    0 ≤ (civilOfDay (dayFromTime t.value.window.start.ms)).year ∧
      (civilOfDay (dayFromTime t.value.window.start.ms)).year ≤ 9999 := by
  rw [TimeValue.window_start, TimeValue.dayFromTime_floorMinute]
  exact ⟨t.lower, t.upper⟩

end Instant

/-! ## What the column is for -/

/-- `w` is the start of the tumbling window of `t`. -/
def IsWindowStart (w t : Int) : Prop := w % msPerMinute = 0 ∧ w ≤ t ∧ t < w + msPerMinute

/-- `YYYY-MM-DD HH:MM:00`. -/
def windowShape : List (Char → Bool) :=
  digits 4 ++ ((· == '-') :: digits 2) ++ ((· == '-') :: digits 2) ++ ((· == ' ') :: digits 2) ++
    ((· == ':') :: digits 2) ++ [(· == ':'), (· == '0'), (· == '0')]

/-- The instant whose date and time in UTC are the fields of a text `YYYY-MM-DD HH:MM:SS`. -/
def readDateTime (text : String) : Option Int := do
  let (year, cs) ← readDigits 4 text.toList
  let cs ← expect '-' cs
  let (month, cs) ← readDigits 2 cs
  let cs ← expect '-' cs
  let (day, cs) ← readDigits 2 cs
  let cs ← expect ' ' cs
  let (hour, cs) ← readDigits 2 cs
  let cs ← expect ':' cs
  let (min, cs) ← readDigits 2 cs
  let cs ← expect ':' cs
  let (sec, cs) ← readDigits 2 cs
  let date : CivilDate := ⟨year, month - 1, day⟩
  -- nothing is left, and there is such a day and such a time of day
  if cs = [] ∧ (1 ≤ month ∧ month ≤ 12) ∧ (1 ≤ day ∧ day ≤ daysInMonth date.year date.month) ∧
      hour < 24 ∧ min < 60 ∧ sec < 60 then
    some (makeDate (dayOfCivil date) (makeTime hour min sec 0))
  else none

/-- From the ISO form of the instant the code computes the text `windowStart`, which denotes `w`. -/
structure WindowStartOf (host : Host) (t : Instant) (windowStart : String) (w : Int) : Prop where
  computed : toWindowStart host (isoString t.value) = .ok windowStart
  denotes : (host.newDate windowStart).map TimeValue.ms = some w

/-- The time column is a faithful, order-preserving image of the tumbling windows. The texts are
ASCII, so their order by code units is their order by characters. -/
structure TimeColumn (host : Host) : Prop where
  defined : ∀ t, ∃ windowStart w, WindowStartOf host t windowStart w
  unique : ∀ {t s w}, WindowStartOf host t s w → ∀ v, IsWindowStart v t.ms ↔ v = w
  idempotent : ∀ {t s w}, WindowStartOf host t s w → toWindowStart host s = .ok s
  monotone : ∀ {t s w u r v}, WindowStartOf host t s w → WindowStartOf host u r v →
    t.ms ≤ u.ms → w ≤ v
  shape : ∀ {t s w}, WindowStartOf host t s w →
    (toClickHouseDateTime s).length = 19 ∧
      fits windowShape (toClickHouseDateTime s).toList = true
  readsBack : ∀ {t s w}, WindowStartOf host t s w → readDateTime (toClickHouseDateTime s) = some w
  ordered : ∀ {t s w u r v}, WindowStartOf host t s w → WindowStartOf host u r v →
    (toClickHouseDateTime s < toClickHouseDateTime r ↔ w < v)
  shared : ∀ {t s w u r v}, WindowStartOf host t s w → WindowStartOf host u r v →
    (toClickHouseDateTime s = toClickHouseDateTime r ↔
      ∃ x, IsWindowStart x t.ms ∧ IsWindowStart x u.ms)

/-- Whatever the counts, the rows of two distinct windows of the ad have distinct sorting keys. -/
def RowsApart (host : Host) (adId : String) : Prop :=
  ∀ {t s w u r v} (n m : Nat), WindowStartOf host t s w → WindowStartOf host u r v →
    (rowOf (adId ++ "|" ++ s, n)).key = (rowOf (adId ++ "|" ++ r, m)).key → w = v

/-! ## What the code computes -/

/-- The window start of an instant is the ISO form of the start of its minute. -/
theorem windowStartOf_iff {host : Host} {t : Instant} {s : String} {w : Int} :
    WindowStartOf host t s w ↔
      s = isoString t.value.window.start ∧ w = t.value.window.start.ms := by
  have hcode : toWindowStart host (isoString t.value) =
      .ok (isoString t.value.window.start) := by
    rw [toWindowStart, Host.isoMinute_eq, Host.newDate_isoString]
    rfl
  constructor
  · rintro ⟨hs, hw⟩
    rw [hcode] at hs
    cases hs
    rw [Host.newDate_isoString] at hw
    exact ⟨rfl, (Option.some.inj hw).symm⟩
  · rintro ⟨rfl, rfl⟩
    refine ⟨hcode, ?_⟩
    rw [Host.newDate_isoString]
    rfl

theorem isWindowStart_iff (t : Instant) (v : Int) :
    IsWindowStart v t.ms ↔ v = t.value.window.start.ms := by
  constructor
  · rintro ⟨haligned, hle, hlt⟩
    exact (TimeValue.floorMinute_unique (t := t.value) haligned hle hlt).symm
  · rintro rfl
    exact ⟨t.value.window.aligned, t.value.floorMinute_bounds⟩

theorem toWindowStart_window (host : Host) (window : MinuteWindow) :
    toWindowStart host (isoString window.start) = .ok (isoString window.start) := by
  rw [toWindowStart, Host.isoMinute_eq, Host.newDate_isoString]
  simp only [TimeValue.floorMinute_of_aligned window.aligned]

/-! ## The text of a window -/

/-- The text has one character for each place of `YYYY-MM-DD HH:MM:00`. -/
theorem fits_windowShape (t : Instant) :
    fits windowShape (toClickHouseDateTime (isoString t.value.window.start)).toList = true := by
  rw [toClickHouseDateTime_of_year t.window_year.1 t.window_year.2,
    dateChars_of_year t.window_year.1 t.window_year.2, clockChars]
  -- field by field and separator by separator
  simp only [windowShape, List.append_assoc, List.cons_append, fits_field, fits, beq_self_eq_true,
    Bool.and_self]

/-- The fields of the text make up the start of the window again. -/
theorem readDateTime_window (t : Instant) :
    readDateTime (toClickHouseDateTime (isoString t.value.window.start)) =
      some t.value.window.start.ms := by
  have htext := toClickHouseDateTime_of_year t.window_year.1 t.window_year.2
  obtain ⟨hylo, hyhi⟩ := t.window_year
  have hfields := makeDate_fields_of_aligned t.value.window.aligned
  generalize t.value.window.start.ms = w at *
  have hmonth := civilOfDay_month_le (dayFromTime w)
  have hday := civilOfDay_day_bounds (dayFromTime w)
  have hdayle := civilOfDay_day_le (dayFromTime w)
  have hhour := hourFromTime_bounds w
  have hmin := minFromTime_bounds w
  have hzeros : readDigits 2 ['0', '0'] = some (0, []) := by decide
  rw [← dayOfCivil_civilOfDay (dayFromTime w)] at hfields
  rw [readDateTime, htext, dateChars_of_year hylo hyhi, clockChars]
  simp only [List.cons_append, List.append_assoc]
  generalize civilOfDay (dayFromTime w) = c at *
  -- the reader consumes the fields and separators in the order in which they were written
  apply bind_of_eq_some (readDigits_fixedDigits (by omega) _)
  apply bind_of_eq_some (expect_cons _ _)
  apply bind_of_eq_some (readDigits_fixedDigits (by omega) _)
  apply bind_of_eq_some (expect_cons _ _)
  apply bind_of_eq_some (readDigits_fixedDigits (by omega) _)
  apply bind_of_eq_some (expect_cons _ _)
  apply bind_of_eq_some (readDigits_fixedDigits (by omega) _)
  apply bind_of_eq_some (expect_cons _ _)
  apply bind_of_eq_some (readDigits_fixedDigits (by omega) _)
  apply bind_of_eq_some (expect_cons _ _)
  apply bind_of_eq_some hzeros
  -- it finds a day of the calendar and a time of day, which make up the start again
  simp only [Nat.add_sub_cancel, Int.toNat_of_nonneg hylo, Int.toNat_of_nonneg hhour.1,
    Int.toNat_of_nonneg hmin.1]
  rw [if_pos ⟨trivial, by omega, ⟨hday.1, hdayle⟩, by omega, by omega, by decide⟩]
  exact congrArg some hfields

/-- There is a 29 February in the year 2000, and none in 1900. -/
example : readDateTime "2000-02-29 23:59:00" = some 951868740000 ∧
    readDateTime "1900-02-29 23:59:00" = none := by decide

/-- Texts compare as the starts of the windows. -/
theorem toClickHouseDateTime_lt_iff (t u : Instant) :
    toClickHouseDateTime (isoString t.value.window.start) <
        toClickHouseDateTime (isoString u.value.window.start) ↔
      t.value.window.start.ms < u.value.window.start.ms := by
  obtain ⟨htlo, hthi⟩ := t.window_year
  obtain ⟨hulo, huhi⟩ := u.window_year
  rw [String.lt_iff, toClickHouseDateTime_of_year htlo hthi, toClickHouseDateTime_of_year hulo huhi,
    dateChars_append_lt_iff htlo hthi hulo huhi, List.cons_lt_cons_self, clockChars_append_lt_iff,
    MinuteWindow.start_lt_iff]
  -- after the minutes the texts are the same
  simp only [List.lt_irrefl, and_false, or_false]

theorem toClickHouseDateTime_eq_iff (t u : Instant) :
    toClickHouseDateTime (isoString t.value.window.start) =
        toClickHouseDateTime (isoString u.value.window.start) ↔
      t.value.window.start.ms = u.value.window.start.ms := by
  constructor
  · intro h
    rw [toClickHouseDateTime_injective h]
  · intro h
    rw [TimeValue.ext h]

/-- In every time zone with one offset of whole minutes the column is a faithful, order-preserving
image. -/
theorem timeColumn (host : Host) : TimeColumn host where
  defined t := ⟨_, _, windowStartOf_iff.2 ⟨rfl, rfl⟩⟩
  unique := by
    intro t s w h v
    rcases windowStartOf_iff.1 h with ⟨-, rfl⟩
    exact isWindowStart_iff t v
  idempotent := by
    intro t s w h
    rcases windowStartOf_iff.1 h with ⟨rfl, -⟩
    exact toWindowStart_window host _
  monotone := by
    intro t s w u r v h k hle
    rcases windowStartOf_iff.1 h with ⟨-, rfl⟩
    rcases windowStartOf_iff.1 k with ⟨-, rfl⟩
    exact TimeValue.floorMinute_mono hle
  shape := by
    intro t s w h
    rcases windowStartOf_iff.1 h with ⟨rfl, -⟩
    refine ⟨?_, fits_windowShape t⟩
    rw [← String.length_toList, length_of_fits (fits_windowShape t)]
    rfl
  readsBack := by
    intro t s w h
    rcases windowStartOf_iff.1 h with ⟨rfl, rfl⟩
    exact readDateTime_window t
  ordered := by
    intro t s w u r v h k
    rcases windowStartOf_iff.1 h with ⟨rfl, rfl⟩
    rcases windowStartOf_iff.1 k with ⟨rfl, rfl⟩
    exact toClickHouseDateTime_lt_iff t u
  shared := by
    intro t s w u r v h k
    rcases windowStartOf_iff.1 h with ⟨rfl, rfl⟩
    rcases windowStartOf_iff.1 k with ⟨rfl, rfl⟩
    simp only [isWindowStart_iff]
    rw [toClickHouseDateTime_eq_iff]
    constructor
    · intro hsame
      exact ⟨_, rfl, hsame⟩
    · rintro ⟨x, rfl, hsame⟩
      exact hsame

/-! ## The rows of an ad -/

/-- The key of an ad id with a `|` splits inside the ad id, so the window is not in its row. -/
theorem rowKey_of_bar {adId : String} (hbar : '|' ∈ adId.toList) (s r : String) (n m : Nat) :
    (rowOf (adId ++ "|" ++ s, n)).key = (rowOf (adId ++ "|" ++ r, m)).key := by
  obtain ⟨first, second, parts, hsplit⟩ := split_of_mem hbar
  have hsep : "|" = String.singleton '|' := by decide
  have hkey : ∀ (text : String) (k : Nat), (rowOf (adId ++ "|" ++ text, k)).key =
      (first, toClickHouseDateTime second) := by
    intro text k
    have hparts : split (adId ++ "|" ++ text) '|' =
        first :: second :: (parts ++ split text '|') := by
      rw [hsep, split_append, hsplit]
      rfl
    rw [rowOf, Row.key, keyAdId, keyWindowStart, hparts]
    rfl
  rw [hkey, hkey]

/-- 40 seconds past 10:05 and past 10:06. -/
def pastFive : Instant := ⟨1781258740000, by decide, by decide⟩

def pastSix : Instant := ⟨1781258800000, by decide, by decide⟩

theorem rowsApart_iff {host : Host} {adId : String} : RowsApart host adId ↔ '|' ∉ adId.toList := by
  constructor
  · intro h hbar
    have hsame := h 1 1 (windowStartOf_iff.2 ⟨rfl, rfl⟩) (windowStartOf_iff.2 ⟨rfl, rfl⟩)
      (rowKey_of_bar hbar (isoString pastFive.value.window.start)
        (isoString pastSix.value.window.start) 1 1)
    exact absurd hsame (by decide)
  · intro hbar t s w u r v n m h k heq
    rcases windowStartOf_iff.1 h with ⟨rfl, rfl⟩
    rcases windowStartOf_iff.1 k with ⟨rfl, rfl⟩
    have hrow : ∀ (window : MinuteWindow) (count : Nat),
        (rowOf (adId ++ "|" ++ isoString window.start, count)).key = rowKey adId window := by
      intro window count
      exact congrArg Row.key (rowOf_windowKey hbar window count)
    rw [hrow, hrow] at heq
    rw [(rowKey_injective heq).2]

/-- The column is faithful whatever the ad, and the windows of an ad have distinct rows exactly when
its id contains no `|`. -/
theorem timeColumn_and_rowsApart_iff (host : Host) (adId : String) :
    TimeColumn host ∧ (RowsApart host adId ↔ '|' ∉ adId.toList) :=
  ⟨timeColumn host, rowsApart_iff⟩

/-- An ad id whose second fragment is a date and time. -/
def datedAdId : String := "ad-1|2026-06-12T10:05:00.000Z"

/-- Two clicks of the ad in two windows. -/
def twoMinutes : List Op :=
  [.record ⟨"c-1", datedAdId, "2026-06-12T10:05:40.000Z"⟩,
    .record ⟨"c-2", datedAdId, "2026-06-12T10:06:40.000Z"⟩, .flush]

/-- The two windows get one sorting key, so one of the two counts is lost. -/
theorem windows_of_datedAdId_collapse :
    ¬ RowsApart utcHost datedAdId ∧
      (Store.empty.runChecked utcHost twoMinutes).table =
        [⟨"ad-1", "2026-06-12 10:05:00", 1⟩, ⟨"ad-1", "2026-06-12 10:05:00", 1⟩] ∧
      tableCount (Store.empty.runChecked utcHost twoMinutes).table
        ("ad-1", "2026-06-12 10:05:00") = some 1 := by
  have htable : (Store.empty.runChecked utcHost twoMinutes).table =
      [⟨"ad-1", "2026-06-12 10:05:00", 1⟩, ⟨"ad-1", "2026-06-12 10:05:00", 1⟩] := by decide
  refine ⟨?_, htable, ?_⟩
  · intro h
    exact absurd (rowsApart_iff.1 h) (by decide)
  · -- the collapsed table keeps the row that came last
    rw [htable]
    decide

end AdClick.Window
