import AdClick.Ecma.Minute
import AdClick.Ecma.Number
import AdClick.Ecma.Value
import AdClick.Library.InsertionMap
import Mathlib.Data.List.Induction

/-!
# The watermark service

`WatermarkService.process` classifies one click: late, when its event time is further behind the
watermark than the tolerance; else fraud, when its IP has by now more clicks in its minute than the
threshold; else accepted. The watermark is the largest event time of the clicks that were not late.

Every conversion that can throw precedes the first write, so a call that throws leaves the state as
it was (`step_of_invalid_date`, `step_of_invalid_ip`); for an envelope with a date and a text for an
IP, `step_of_isLate` and `step_of_not_isLate` say what the call does.
-/

set_option autoImplicit false

namespace AdClick.Watermark

open AdClick.Library AdClick.Ecma

/-- One click envelope emitted by ingest-api; `ip` and `payload` are as decoded. -/
structure ClickEnvelope where
  clickId : String
  adId : String
  ip : JsValue
  payload : JsValue
  eventTime : String

/-- The classification of a processed click. -/
inductive Status where
  | accepted
  | late
  | fraud
  deriving DecidableEq

structure ProcessedClick where
  clickId : String
  adId : String
  ip : JsValue
  eventTime : String
  status : Status
  lateMs : Option Int
  reason : Option String

/-- The two settings read from the environment. -/
structure Config where
  watermarkToleranceMs : Int
  fraudThreshold : Int

/-- The settings when the environment has none. -/
def Config.default : Config := ⟨30000, 5⟩

structure State where
  watermarkMs : TimeValue
  ipWindowCounts : InsertionMap String Nat
  processed : List ProcessedClick

/-- A service that has processed nothing. -/
def State.fresh : State := ⟨⟨0, by decide, by decide⟩, .empty, []⟩

structure Stats where
  accepted : Nat
  late : Nat
  fraud : Nat
  deriving DecidableEq

structure Snapshot where
  watermarkIso : String
  processed : List ProcessedClick
  stats : Stats

/-! ## The code -/

/-- Truncates an ISO timestamp to the 1-minute boundary. -/
def toWindowStart (host : Host) (iso : String) : Except JsError String := host.isoMinute iso

/-- The IP of the envelope, else of the payload, else `"unknown"`. -/
def resolvedIp (envelope : ClickEnvelope) : JsValue :=
  (envelope.ip.coalesce (envelope.payload.optionalGet "ip")).coalesce (.str "unknown")

/-- Comparisons with the time value of an invalid date are false. -/
def isBefore (date : Date) (ms : Int) : Bool := date.any fun t => t.ms < ms

/-- `eventTime` is further behind the watermark than the tolerance. -/
def isLate (config : Config) (s : State) (eventMs : Date) : Bool :=
  0 < s.watermarkMs.ms &&
    isBefore eventMs (numberValue (s.watermarkMs.ms - config.watermarkToleranceMs))

/-- The distance of an event time to the watermark; `none` is the NaN of an invalid date. -/
def msBehind (s : State) (eventMs : Date) : Option Int :=
  eventMs.map fun t => numberValue (s.watermarkMs.ms - t.ms)

/-- Advances the watermark to a later event time. -/
def advance (watermarkMs : TimeValue) (eventMs : Date) : TimeValue :=
  match eventMs with
  | some t => if watermarkMs.ms < t.ms then t else watermarkMs
  | none => watermarkMs

def lateReason (config : Config) (lateMs : Int) : String :=
  let toleranceMs := config.watermarkToleranceMs
  s!"eventTime is {lateMs}ms behind watermark (tolerance {toleranceMs}ms)"

def fraudReason (config : Config) (ip : String) (ipCount : Nat) (windowStart : String) : String :=
  let threshold := config.fraudThreshold
  s!"IP {ip} sent {ipCount} clicks in window {windowStart} (threshold {threshold})"

/-- Processes one click event: advances the watermark, checks for late data and fraud, and records
the result. -/
def process (host : Host) (config : Config) (envelope : ClickEnvelope) :
    EStateM JsError State ProcessedClick := do
  let ip := resolvedIp envelope
  let eventMs := host.newDate envelope.eventTime
  let windowStart ← liftExcept (toWindowStart host envelope.eventTime)
  let ipText ← liftExcept ip.toText
  let windowKey := ipText ++ "|" ++ windowStart
  let s ← get
  let mut status := Status.accepted
  let mut lateMs := none
  let mut reason := none
  if isLate config s eventMs then
    lateMs := msBehind s eventMs
    status := .late
    reason := lateMs.map (lateReason config)
  else
    let ipCount := (s.ipWindowCounts.get? windowKey).getD 0 + 1
    set { s with
      watermarkMs := advance s.watermarkMs eventMs
      ipWindowCounts := s.ipWindowCounts.set windowKey ipCount }
    if config.fraudThreshold < ipCount then
      status := .fraud
      reason := some (fraudReason config ipText ipCount windowStart)
  let result : ProcessedClick := {
    clickId := envelope.clickId
    adId := envelope.adId
    ip := ip
    eventTime := envelope.eventTime
    status := status
    lateMs := lateMs
    reason := reason }
  modify fun s => { s with processed := s.processed ++ [result] }
  return result

/-- Counts one entry of the log. -/
def Stats.bump (stats : Stats) : Status → Stats
  | .accepted => { stats with accepted := stats.accepted + 1 }
  | .late => { stats with late := stats.late + 1 }
  | .fraud => { stats with fraud := stats.fraud + 1 }

/-- The status totals of the log. -/
def stats (processed : List ProcessedClick) : Stats :=
  processed.foldl (fun stats p => stats.bump p.status) ⟨0, 0, 0⟩

/-- A snapshot of all processed clicks. -/
def snapshot (s : State) : Snapshot where
  watermarkIso := if s.watermarkMs.ms = 0 then "none" else isoString s.watermarkMs
  processed := s.processed
  stats := stats s.processed

/-- The entries of the log with a status. -/
def totalOf (status : Status) (processed : List ProcessedClick) : Nat :=
  processed.countP fun p => p.status = status

theorem stats_eq (processed : List ProcessedClick) :
    stats processed =
      ⟨totalOf .accepted processed, totalOf .late processed, totalOf .fraud processed⟩ := by
  induction processed using List.reverseRecOn with
  | nil => rfl
  | append_singleton processed p ih =>
    have hsnoc : stats (processed ++ [p]) = (stats processed).bump p.status := by
      rw [stats, List.foldl_append]
      rfl
    rw [hsnoc, ih]
    simp only [totalOf]
    simp only [List.countP_append, List.countP_singleton]
    cases p.status <;> rfl

/-- Every entry has one of the three statuses. -/
theorem totalOf_sum (processed : List ProcessedClick) :
    totalOf .accepted processed + totalOf .late processed + totalOf .fraud processed =
      processed.length := by
  induction processed with
  | nil => rfl
  | cons p processed ih =>
    simp only [totalOf] at ih ⊢
    simp only [List.countP_cons, List.length_cons, ← ih]
    cases p.status <;> simp <;> omega

/-! ## Calls as steps -/

/-- A conversion that returns hands its value and the state to the rest of the call. -/
theorem liftExcept_ok_bind {α β : Type} (a : α) (f : α → EStateM JsError State β) (s : State) :
    (liftExcept (.ok a : Except JsError α) >>= f) s = f a s := rfl

/-- A read hands the state to the rest of the call and leaves it. -/
theorem get_bind {β : Type} (f : State → EStateM JsError State β) (s : State) :
    (get >>= f) s = f s s := rfl

/-- One call of `process`: the state it leaves and what it returns or throws. -/
def step (host : Host) (config : Config) (s : State) (envelope : ClickEnvelope) :
    State × Except JsError ProcessedClick :=
  match process host config envelope s with
  | .ok result s' => (s', .ok result)
  | .error err s' => (s', .error err)

/-- A text that is no date throws before anything is written. -/
theorem step_of_invalid_date {host : Host} {config : Config} {envelope : ClickEnvelope}
    (h : host.newDate envelope.eventTime = none) (s : State) :
    step host config s envelope = (s, .error .rangeError) := by
  unfold step process toWindowStart
  rw [Host.isoMinute_eq, h]
  rfl

/-- An IP that has no text throws before anything is written. -/
theorem step_of_invalid_ip {host : Host} {config : Config} {envelope : ClickEnvelope}
    {t : TimeValue} {err : JsError} (htime : host.newDate envelope.eventTime = some t)
    (htext : (resolvedIp envelope).toText = .error err) (s : State) :
    step host config s envelope = (s, .error err) := by
  unfold step process toWindowStart
  rw [Host.isoMinute_eq, htime, htext]
  rfl

section Valid

variable {host : Host} {config : Config} {envelope : ClickEnvelope} {t : TimeValue} {text : String}
  {s : State}

/-- A late call appends to the log and writes nothing else. -/
theorem step_of_isLate (htime : host.newDate envelope.eventTime = some t)
    (htext : (resolvedIp envelope).toText = .ok text)
    (hlate : isLate config s (some t) = true) :
    let lateMs := numberValue (s.watermarkMs.ms - t.ms)
    let result : ProcessedClick := ⟨envelope.clickId, envelope.adId, resolvedIp envelope,
      envelope.eventTime, .late, some lateMs, some (lateReason config lateMs)⟩
    step host config s envelope =
      ({ s with processed := s.processed ++ [result] }, .ok result) := by
  unfold step process toWindowStart
  rw [Host.isoMinute_eq, htime, htext]
  simp only [liftExcept_ok_bind, get_bind, hlate, if_true]
  rfl

/-- Any other call advances the watermark, counts the click and compares the count with the
threshold. -/
theorem step_of_not_isLate (htime : host.newDate envelope.eventTime = some t)
    (htext : (resolvedIp envelope).toText = .ok text)
    (hlate : isLate config s (some t) = false) :
    let windowStart := isoString t.floorMinute
    let windowKey := text ++ "|" ++ windowStart
    let ipCount := s.ipWindowCounts.count windowKey + 1
    let result : ProcessedClick := ⟨envelope.clickId, envelope.adId, resolvedIp envelope,
      envelope.eventTime, if config.fraudThreshold < ipCount then .fraud else .accepted, none,
      if config.fraudThreshold < ipCount then
        some (fraudReason config text ipCount windowStart) else none⟩
    step host config s envelope =
      ({ watermarkMs := advance s.watermarkMs (some t)
         ipWindowCounts := s.ipWindowCounts.increment windowKey
         processed := s.processed ++ [result] }, .ok result) := by
  intro windowStart windowKey ipCount result
  unfold step process toWindowStart
  rw [Host.isoMinute_eq, htime, htext]
  simp only [liftExcept_ok_bind, get_bind, hlate]
  by_cases hfraud : config.fraudThreshold <
      ((s.ipWindowCounts.get? (text ++ "|" ++ isoString t.floorMinute)).getD 0 + 1 : Nat)
  · have hresult : result = ⟨envelope.clickId, envelope.adId, resolvedIp envelope,
        envelope.eventTime, .fraud, none,
        some (fraudReason config text ipCount windowStart)⟩ := by
      simp only [result, if_pos (show config.fraudThreshold < ipCount from hfraud)]
    rw [hresult]
    simp only [Bool.false_eq_true, if_false, if_pos hfraud]
    rfl
  · have hresult : result = ⟨envelope.clickId, envelope.adId, resolvedIp envelope,
        envelope.eventTime, .accepted, none, none⟩ := by
      simp only [result, if_neg (show ¬ config.fraudThreshold < ipCount from hfraud)]
    rw [hresult]
    simp only [Bool.false_eq_true, if_false, if_neg hfraud]
    rfl

end Valid

end AdClick.Watermark
