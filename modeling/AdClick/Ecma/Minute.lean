import AdClick.Ecma.Date

/-!
# One-minute tumbling windows

Both services truncate an event time to its minute by clearing the seconds of a `Date` and writing
it as ISO text (`Host.isoMinute`), and count under the key `${label}|${windowStart}` (`minuteKey`).
The ISO text of a window contains no `|`, so a key determines its label and its window, whatever the
label contains (`minuteKey_injective`).
-/

set_option autoImplicit false

namespace AdClick.Ecma

open AdClick.Library

/-- The start of the minute that contains the instant. -/
def TimeValue.floorMinute (t : TimeValue) : TimeValue where
  ms := t.ms / msPerMinute * msPerMinute
  lower := by
    have h := t.lower
    unfold maxTime at *
    unfold msPerMinute
    omega
  upper := by
    have h := t.upper
    unfold maxTime at *
    unfold msPerMinute
    omega

theorem TimeValue.floorMinute_ms (t : TimeValue) :
    t.floorMinute.ms = t.ms / msPerMinute * msPerMinute := rfl

/-- An instant lies within the minute that starts at its truncation. -/
theorem TimeValue.floorMinute_bounds (t : TimeValue) :
    t.floorMinute.ms ≤ t.ms ∧ t.ms < t.floorMinute.ms + msPerMinute := by
  rw [floorMinute_ms]
  simp only [msPerMinute]
  omega

/-- The truncation is the only multiple of a minute whose minute contains the instant. -/
theorem TimeValue.floorMinute_unique {t : TimeValue} {w : Int} (hw : w % msPerMinute = 0)
    (hle : w ≤ t.ms) (hlt : t.ms < w + msPerMinute) : t.floorMinute.ms = w := by
  rw [floorMinute_ms]
  simp only [msPerMinute] at *
  omega

/-- The start of a minute is on the day of the minute. -/
theorem TimeValue.dayFromTime_floorMinute (t : TimeValue) :
    dayFromTime t.floorMinute.ms = dayFromTime t.ms := by
  rw [floorMinute_ms]
  simp only [dayFromTime, msPerDay, msPerMinute]
  omega

theorem TimeValue.floorMinute_mono {t u : TimeValue} (h : t.ms ≤ u.ms) :
    t.floorMinute.ms ≤ u.floorMinute.ms := by
  rw [floorMinute_ms, floorMinute_ms]
  simp only [msPerMinute]
  omega

theorem TimeValue.floorMinute_of_aligned {t : TimeValue} (h : t.ms % msPerMinute = 0) :
    t.floorMinute = t := by
  apply TimeValue.ext
  exact floorMinute_unique h (Int.le_refl _) (Int.lt_add_of_pos_right _ (by decide))

/-- The start of a 1-minute tumbling window. -/
@[ext] structure MinuteWindow where
  start : TimeValue
  aligned : start.ms % msPerMinute = 0
  deriving DecidableEq

/-- The window that contains the instant. -/
def TimeValue.window (t : TimeValue) : MinuteWindow where
  start := t.floorMinute
  aligned := by
    rw [floorMinute_ms]
    unfold msPerMinute
    omega

@[simp] theorem TimeValue.window_start (t : TimeValue) : t.window.start = t.floorMinute := rfl

/-- The instants of a window are the minute from its start. -/
theorem TimeValue.window_eq_iff (t : TimeValue) (w : MinuteWindow) :
    t.window = w ↔ w.start.ms ≤ t.ms ∧ t.ms < w.start.ms + msPerMinute := by
  constructor
  · rintro rfl
    exact t.floorMinute_bounds
  · rintro ⟨hle, hlt⟩
    exact MinuteWindow.ext (TimeValue.ext (floorMinute_unique w.aligned hle hlt))

/-- The start of a minute is its day, its hour and its minute. -/
theorem makeDate_fields_of_aligned {t : Int} (h : t % msPerMinute = 0) :
    makeDate (dayFromTime t) (makeTime (hourFromTime t) (minFromTime t) 0 0) = t := by
  simp only [msPerMinute] at h
  simp only [makeDate, makeTime, dayFromTime, hourFromTime, minFromTime, msPerDay]
  omega

/-- Starts of minutes compare by the day, then the hour, then the minute. -/
theorem MinuteWindow.start_lt_iff (w v : MinuteWindow) :
    w.start.ms < v.start.ms ↔
      dayFromTime w.start.ms < dayFromTime v.start.ms ∨
        dayFromTime w.start.ms = dayFromTime v.start.ms ∧
          (hourFromTime w.start.ms < hourFromTime v.start.ms ∨
            hourFromTime w.start.ms = hourFromTime v.start.ms ∧
              minFromTime w.start.ms < minFromTime v.start.ms) := by
  have hw := w.aligned
  have hv := v.aligned
  simp only [msPerMinute] at hw hv
  simp only [dayFromTime, hourFromTime, minFromTime, msPerDay]
  omega

/-- Clearing the seconds truncates to the minute, in every zone of whole minutes. -/
theorem Host.setSeconds_zero (host : Host) (t : TimeValue) :
    host.setSeconds (some t) 0 0 = some t.floorMinute := by
  have h : host.utc (makeDate (dayFromTime (host.localTime t.ms))
      (makeTime (hourFromTime (host.localTime t.ms)) (minFromTime (host.localTime t.ms)) 0 0)) =
        t.floorMinute.ms := by
    rw [TimeValue.floorMinute_ms]
    -- an offset of whole minutes moves no minute boundary
    simp only [Host.utc, Host.localTime, makeDate, makeTime, dayFromTime, hourFromTime,
      minFromTime, msPerDay, msPerMinute]
    omega
  show timeClip _ = _
  rw [h, timeClip_ms]

/-- Parses an ISO timestamp, clears its seconds and milliseconds, and writes it back. -/
def Host.isoMinute (host : Host) (iso : String) : Except JsError String :=
  toISOString (host.setSeconds (host.newDate iso) 0 0)

/-- A text that is no date throws; any other gives the start of its minute. -/
theorem Host.isoMinute_eq (host : Host) (iso : String) :
    host.isoMinute iso =
      match host.newDate iso with
      | none => .error .rangeError
      | some t => .ok (isoString t.floorMinute) := by
  simp only [isoMinute]
  cases host.newDate iso with
  | none => rfl
  | some t =>
    rw [setSeconds_zero]
    rfl

/-! ## Keys -/

/-- The key of a label and a window. -/
def minuteKey (label : String) (window : MinuteWindow) : String :=
  label ++ "|" ++ isoString window.start

theorem bar_not_mem_isoString (t : TimeValue) : '|' ∉ (isoString t).toList := by
  rw [isoString, String.toList_ofList]
  exact not_mem_isoChars (by decide) (by decide)

/-- Keys are injective, whatever the label: the window fragment is free of `|`. -/
theorem minuteKey_injective {a b : String} {w v : MinuteWindow}
    (h : minuteKey a w = minuteKey b v) : a = b ∧ w = v := by
  have hchars := congrArg String.toList h
  have hjoin : ∀ (s : String) (u : MinuteWindow),
      (minuteKey s u).toList = s.toList ++ '|' :: (isoString u.start).toList := by
    intro s u
    simp [minuteKey]
  rw [hjoin, hjoin,
    append_cons_inj_last (bar_not_mem_isoString w.start) (bar_not_mem_isoString v.start)] at hchars
  obtain ⟨hab, hwv⟩ := hchars
  exact ⟨String.toList_inj.1 hab,
    MinuteWindow.ext (isoString_injective (String.toList_inj.1 hwv))⟩

end AdClick.Ecma
