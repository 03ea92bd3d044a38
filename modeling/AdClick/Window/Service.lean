import AdClick.Ecma.Minute
import AdClick.Ecma.Text
import AdClick.Library.InsertionMap
import AdClick.Library.UpsertLog

/-!
# The windowed aggregation service

`WindowService` counts clicks in memory under the key `${adId}|${windowStart}`, where the window
start is the ISO form of the event time truncated to the minute (`record`), and turns the counters
into the rows of a batch insert by splitting the keys again (`flushRows`). A flush copies the
buckets into a batch before it awaits the insert (`flushBatch`) and clears the whole map when the
insert reports success (`flushSettled`).

The table `ad_click_counts` is a `ReplacingMergeTree()` without a version column, ordered by
`(adId, windowStart)`: per key the last inserted row is kept (`tableCount`).

`record_eq` is the specification of `record`: a text that is no date throws and leaves the buckets
alone, any other bumps one counter. `rowOf_windowKey` and `rowKey_injective` say that, for ad ids
free of `|`, distinct pairs of an ad and a window have distinct rows.
-/

set_option autoImplicit false

namespace AdClick.Window

open AdClick.Library AdClick.Ecma

/-- One click envelope of the `ad-clicks` topic. -/
structure ClickEnvelope where
  clickId : String
  adId : String
  eventTime : String
  deriving DecidableEq

/-- The in-memory accumulator: key `${adId}|${windowStart}`, value count. -/
abbrev Buckets := InsertionMap String Nat

/-- A row of `ad_click_counts`, and an entry of the snapshot. -/
structure Row where
  adId : String
  windowStart : String
  count : Nat
  deriving DecidableEq

/-! ## The code -/

/-- Truncates an ISO timestamp to the 1-minute boundary. -/
def toWindowStart (host : Host) (iso : String) : Except JsError String :=
  host.isoMinute iso

/-- Strips the `T` and what follows the seconds from an ISO timestamp. -/
def toClickHouseDateTime (iso : String) : String := substring (replace iso 'T' ' ') 0 19

/-- Records one click event into its bucket. -/
def record (host : Host) (envelope : ClickEnvelope) : EStateM JsError Buckets Unit := do
  let windowStart ← liftExcept (toWindowStart host envelope.eventTime)
  let key := envelope.adId ++ "|" ++ windowStart
  let buckets ← get
  let prev := (buckets.get? key).getD 0
  set (buckets.set key (prev + 1))

/-- The ad id fragment of a bucket key. -/
def keyAdId (key : String) : String := (split key '|').getD 0 ""

/-- The window fragment of a bucket key. -/
def keyWindowStart (key : String) : String := (split key '|').getD 1 ""

/-- The row that a flush builds from one bucket. -/
def rowOf (bucket : String × Nat) : Row where
  adId := keyAdId bucket.1
  windowStart := toClickHouseDateTime (keyWindowStart bucket.1)
  count := bucket.2

/-- The rows of a batch insert. -/
def flushRows (buckets : Buckets) : List Row := buckets.entries.map rowOf

/-- What a call of `flush` hands to the insert; nothing when there are no buckets. -/
def flushBatch (buckets : Buckets) : Option Buckets :=
  if buckets.size = 0 then none else some buckets

/-- What an insert reports to the `flush` that awaits it. -/
inductive InsertResult where
  | success
  | failure
  deriving DecidableEq

/-- The rest of `flush` once the insert has settled: a success clears the map, a failure is
logged. -/
def flushSettled : InsertResult → Buckets → Buckets
  | .success, _ => .empty
  | .failure, buckets => buckets

/-- The current in-memory buckets. -/
def snapshot (buckets : Buckets) : List Row :=
  buckets.entries.map fun bucket => ⟨keyAdId bucket.1, keyWindowStart bucket.1, bucket.2⟩

/-! ## The table -/

/-- The sorting key `(adId, windowStart)`. -/
def Row.key (row : Row) : String × String := (row.adId, row.windowStart)

/-- The count of the collapsed row under a sorting key. -/
def tableCount (table : List Row) (key : String × String) : Option Nat :=
  (collapse Row.key table key).map Row.count

/-! ## Specification of `record` -/

/-- The window of a click: its event time truncated to the minute. -/
def windowOf (host : Host) (envelope : ClickEnvelope) : Option MinuteWindow :=
  (host.newDate envelope.eventTime).map TimeValue.window

/-- The bucket key of an ad and a window. -/
def windowKey (adId : String) (window : MinuteWindow) : String := minuteKey adId window

/-- The bucket key a click is recorded under. -/
def keyOf (host : Host) (envelope : ClickEnvelope) : Option String :=
  (windowOf host envelope).map (windowKey envelope.adId)

/-- `record` bumps the counter of the click's bucket, or throws before it touches the map. -/
theorem record_eq (host : Host) (envelope : ClickEnvelope) (buckets : Buckets) :
    record host envelope buckets =
      match keyOf host envelope with
      | none => .error .rangeError buckets
      | some key => .ok () (buckets.increment key) := by
  simp only [record, keyOf, windowOf]
  rw [toWindowStart, Host.isoMinute_eq]
  cases host.newDate envelope.eventTime with
  | none => rfl
  | some t => rfl

/-- The buckets after a call of `record`, whether it returned or threw. -/
def afterRecord (host : Host) (envelope : ClickEnvelope) (buckets : Buckets) : Buckets :=
  match record host envelope buckets with
  | .ok _ buckets' => buckets'
  | .error _ buckets' => buckets'

theorem afterRecord_eq (host : Host) (envelope : ClickEnvelope) (buckets : Buckets) :
    afterRecord host envelope buckets = buckets.tally (keyOf host envelope).toList := by
  unfold afterRecord
  rw [record_eq]
  cases keyOf host envelope with
  | none => rfl
  | some key => rfl

/-- The buckets after a sequence of calls of `record`. -/
def recordAll (host : Host) (clicks : List ClickEnvelope) (buckets : Buckets) : Buckets :=
  clicks.foldl (fun b click => afterRecord host click b) buckets

/-- A sequence of records adds to every bucket the number of clicks with its key. -/
theorem recordAll_eq (host : Host) (clicks : List ClickEnvelope) (buckets : Buckets) :
    recordAll host clicks buckets = buckets.tally (clicks.filterMap (keyOf host)) := by
  induction clicks generalizing buckets with
  | nil => rfl
  | cons click clicks ih =>
    show recordAll host clicks (afterRecord host click buckets) = _
    rw [ih, afterRecord_eq, ← InsertionMap.tally_append, List.filterMap_cons]
    cases keyOf host click with
    | none => rfl
    | some key => rfl

/-! ## Keys and rows -/

/-- Bucket keys are injective, whatever the ad id. -/
theorem windowKey_injective {a b : String} {w v : MinuteWindow}
    (h : windowKey a w = windowKey b v) : a = b ∧ w = v :=
  minuteKey_injective h

/-- The sorting key under which an ad and a window are stored. -/
def rowKey (adId : String) (window : MinuteWindow) : String × String :=
  (adId, toClickHouseDateTime (isoString window.start))

/-- The parts of a key are the parts of the ad id, and the window. -/
theorem split_windowKey (adId : String) (window : MinuteWindow) :
    split (windowKey adId window) '|' = split adId '|' ++ [isoString window.start] := by
  have hsep : "|" = String.singleton '|' := by decide
  rw [windowKey, minuteKey, hsep, split_append,
    split_of_not_mem (bar_not_mem_isoString window.start)]

/-- The key of an ad id free of `|` splits back into the ad id and the window. -/
theorem keyAdId_windowKey {adId : String} (h : '|' ∉ adId.toList) (window : MinuteWindow) :
    keyAdId (windowKey adId window) = adId := by
  rw [keyAdId, split_windowKey, split_of_not_mem h]
  rfl

theorem keyWindowStart_windowKey {adId : String} (h : '|' ∉ adId.toList) (window : MinuteWindow) :
    keyWindowStart (windowKey adId window) = isoString window.start := by
  rw [keyWindowStart, split_windowKey, split_of_not_mem h]
  rfl

/-- Whatever the key, its ad id fragment is free of `|`. -/
theorem bar_not_mem_keyAdId (key : String) : '|' ∉ (keyAdId key).toList := by
  unfold keyAdId
  cases hsplit : split key '|' with
  | nil => exact absurd hsplit (split_ne_nil key '|')
  | cons adId parts =>
    have hmem : adId ∈ split key '|' := by
      rw [hsplit]
      exact List.mem_cons_self
    exact not_mem_of_mem_split hmem

theorem rowOf_windowKey {adId : String} (h : '|' ∉ adId.toList) (window : MinuteWindow) (n : Nat) :
    rowOf (windowKey adId window, n) =
      ⟨adId, toClickHouseDateTime (isoString window.start), n⟩ := by
  rw [rowOf, keyAdId_windowKey h, keyWindowStart_windowKey h]

/-- All characters of a window start are in the basic plane. -/
theorem isBasic_of_mem {t : Int} {c : Char} (h : c ∈ dateChars t ++ ' ' :: timeChars t) :
    isBasic c = true := by
  rcases List.mem_append.1 h with h | h
  · rcases mem_dateChars h with h | rfl | rfl
    · exact isBasic_of_isDigit h
    · rfl
    · rfl
  · rcases List.mem_cons.1 h with rfl | h
    · rfl
    · rcases mem_timeChars h with h | h
      · exact isBasic_of_isDigit h
      · simp only [List.mem_cons, List.not_mem_nil, or_false] at h
        rcases h with rfl | rfl | rfl <;> rfl

/-- What reaches the table of a window start: its date, a blank, and the time cut off so that the
text has 19 characters. -/
theorem toClickHouseDateTime_isoString (t : TimeValue) :
    (toClickHouseDateTime (isoString t)).toList =
      dateChars t.ms ++ ' ' :: (timeChars t.ms).take (18 - (dateChars t.ms).length) := by
  have hT : 'T' ∉ dateChars t.ms := by
    intro h
    rcases mem_dateChars h with h | h | h
    all_goals revert h; decide
  have hlen : (dateChars t.ms).length ≤ 18 := by
    rcases length_dateChars t.ms with h | h <;> omega
  have hsub : 19 - (dateChars t.ms).length = 18 - (dateChars t.ms).length + 1 := by omega
  have hreplaced : (replace (isoString t) 'T' ' ').toList =
      dateChars t.ms ++ ' ' :: timeChars t.ms := by
    rw [replace, isoString, String.toList_ofList, String.toList_ofList, isoChars,
      replaceChars_append_cons hT]
  rw [toClickHouseDateTime, substring, hreplaced, String.toList_ofList, dropUnits, Nat.sub_zero,
    takeUnits_eq_take fun c hc => isBasic_of_mem hc, List.take_append,
    List.take_of_length_le (Nat.le_succ_of_le hlen), hsub, List.take_succ_cons]

theorem blank_not_mem_dateChars (t : Int) : ' ' ∉ dateChars t := by
  intro h
  rcases mem_dateChars h with h | h | h
  all_goals revert h; decide

/-- The text of a window in the table determines the window. -/
theorem toClickHouseDateTime_injective {w v : MinuteWindow}
    (h : toClickHouseDateTime (isoString w.start) = toClickHouseDateTime (isoString v.start)) :
    w = v := by
  have hchars := congrArg String.toList h
  rw [toClickHouseDateTime_isoString, toClickHouseDateTime_isoString,
    append_cons_inj_first (blank_not_mem_dateChars _) (blank_not_mem_dateChars _)] at hchars
  obtain ⟨hdate, htime⟩ := hchars
  -- The cut keeps at least the clock, and at the start of a minute nothing else varies.
  have hclock : clockChars w.start.ms = clockChars v.start.ms := by
    have hcut : 5 ≤ 18 - (dateChars v.start.ms).length := by
      rcases length_dateChars v.start.ms with h | h <;> omega
    have htake := congrArg (List.take 5) htime
    rw [hdate, List.take_take, List.take_take, Nat.min_eq_left hcut,
      timeChars_of_aligned w.aligned, timeChars_of_aligned v.aligned,
      List.take_left' (length_clockChars _), List.take_left' (length_clockChars _)] at htake
    exact htake
  apply MinuteWindow.ext
  apply isoChars_injective
  rw [isoChars, isoChars, hdate, timeChars_of_aligned w.aligned, timeChars_of_aligned v.aligned,
    hclock]

/-- Distinct pairs of an ad and a window have distinct rows. -/
theorem rowKey_injective {a b : String} {w v : MinuteWindow} (h : rowKey a w = rowKey b v) :
    a = b ∧ w = v := by
  obtain ⟨hab, hwv⟩ := Prod.mk.inj h
  exact ⟨hab, toClickHouseDateTime_injective hwv⟩

end AdClick.Window
