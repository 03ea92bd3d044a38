import AdClick.Watermark.Classifier
import AdClick.Watermark.Service

/-!
# The watermark service as a classifier

An envelope with a date and a text for an IP is a click of the classifier: its time is the event
time and its key is the pair of the IP and the minute. The service keeps its counts under texts; as
distinct pairs have distinct texts, the counts it holds are a function of the pair
(`State.tracker`), and `process` does to it what `classify` does (`step_event`,
`tracker_afterEvents`).

What `process` returns and logs is determined by the envelope and the verdict (`Event.result`), and
the map of counts is the old one with the keys of the counted clicks tallied.
-/

set_option autoImplicit false

namespace AdClick.Watermark

open AdClick.Library AdClick.Ecma

/-- An envelope with a parseable event time and a text for an IP. -/
structure Event (host : Host) where
  envelope : ClickEnvelope
  time : TimeValue
  ip : String
  parses : host.newDate envelope.eventTime = some time
  resolves : resolvedIp envelope = .str ip

/-- The window that an entry of the log was counted in, or would have been. -/
def windowOf (host : Host) (p : ProcessedClick) : Option MinuteWindow :=
  (host.newDate p.eventTime).map TimeValue.window

/-- The settled status of the `n`-th counted click of a key. -/
def Config.quota (config : Config) (n : Nat) : Status :=
  if config.fraudThreshold < n then .fraud else .accepted

variable {host : Host}

namespace Event

/-- The pair of an IP and a minute that the event is counted under. -/
def pair (e : Event host) : String × MinuteWindow := (e.ip, e.time.window)

/-- The text of the pair. -/
def windowKey (e : Event host) : String := minuteKey e.ip e.time.window

def click (e : Event host) : Click (String × MinuteWindow) := ⟨e.time.ms, e.pair⟩

/-- What `process` returns for the event under a verdict. -/
def result (config : Config) (e : Event host) (v : Verdict) : ProcessedClick where
  clickId := e.envelope.clickId
  adId := e.envelope.adId
  ip := .str e.ip
  eventTime := e.envelope.eventTime
  status :=
    match v with
    | .late _ => .late
    | .counted n => config.quota n
  lateMs :=
    match v with
    | .late behind => some (numberValue behind)
    | .counted _ => none
  reason :=
    match v with
    | .late behind => some (lateReason config (numberValue behind))
    | .counted n =>
      if config.fraudThreshold < n then
        some (fraudReason config e.ip n (isoString e.time.window.start))
      else none

/-- The key that a verdict counts. -/
def countedKey? : Event host × Verdict → Option String
  | (e, .counted _) => some e.windowKey
  | (_, .late _) => none

end Event

theorem windowOf_result (config : Config) (e : Event host) (v : Verdict) :
    windowOf host (e.result config v) = some e.time.window := by
  show (host.newDate e.envelope.eventTime).map _ = _
  rw [e.parses]
  rfl

/-- The counts of the service as a function of the pair. -/
def State.tracker (s : State) : Tracker (String × MinuteWindow) where
  watermark := s.watermarkMs.ms
  count := fun pair => s.ipWindowCounts.count (minuteKey pair.1 pair.2)

/-! ## One call -/

theorem natAbs_ms_lt (t : TimeValue) : t.ms.natAbs < 2 ^ 53 := by
  have hlower := t.lower
  have hupper := t.upper
  simp only [maxTime] at hlower hupper
  omega

/-- No rounding shows in the comparison with the watermark. -/
theorem isLate_iff {config : Config} {s : State} {t : TimeValue} :
    isLate config s (some t) = true ↔
      Late config.watermarkToleranceMs s.tracker.watermark t.ms := by
  simp only [isLate, isBefore, Option.any_some, Bool.and_eq_true, decide_eq_true_eq]
  rw [lt_numberValue_iff (natAbs_ms_lt t)]
  rfl

theorem advance_ms (wm t : TimeValue) : (advance wm (some t)).ms = max wm.ms t.ms := by
  have h : advance wm (some t) = if wm.ms < t.ms then t else wm := rfl
  rw [h]
  split
  · rename_i hlt
    exact (max_eq_right hlt.le).symm
  · rename_i hle
    exact (max_eq_left (not_lt.1 hle)).symm

/-- The state after an event that is not late, up to the log. -/
def State.bump (s : State) (e : Event host) : State where
  watermarkMs := advance s.watermarkMs (some e.time)
  ipWindowCounts := s.ipWindowCounts.increment e.windowKey
  processed := s.processed

def State.log (s : State) (p : ProcessedClick) : State := { s with processed := s.processed ++ [p] }

@[simp] theorem tracker_log (s : State) (p : ProcessedClick) : (s.log p).tracker = s.tracker := rfl

theorem tracker_bump (s : State) (e : Event host) :
    (s.bump e).tracker = s.tracker.bump e.click := by
  ext pair
  · exact advance_ms s.watermarkMs e.time
  · show (s.ipWindowCounts.increment e.windowKey).count _ = s.ipWindowCounts.count _ + _
    rw [InsertionMap.count_increment]
    -- the texts of two pairs are equal exactly when the pairs are
    apply congrArg (s.ipWindowCounts.count (minuteKey pair.1 pair.2) + ·)
    apply if_congr _ rfl rfl
    constructor
    · intro h
      obtain ⟨hip, hwindow⟩ := minuteKey_injective h
      exact Prod.ext hip hwindow
    · intro h
      rw [h]
      rfl

theorem step_of_late {config : Config} {s : State} {e : Event host}
    (h : Late config.watermarkToleranceMs s.watermarkMs.ms e.time.ms) :
    step host config s e.envelope =
      (s.log (e.result config (.late (s.watermarkMs.ms - e.time.ms))),
        .ok (e.result config (.late (s.watermarkMs.ms - e.time.ms)))) := by
  have htext : (resolvedIp e.envelope).toText = .ok e.ip := by
    rw [e.resolves, JsValue.toText_str]
  rw [step_of_isLate e.parses htext (isLate_iff.2 h), e.resolves]
  rfl

theorem step_of_not_late {config : Config} {s : State} {e : Event host}
    (h : ¬ Late config.watermarkToleranceMs s.watermarkMs.ms e.time.ms) :
    step host config s e.envelope =
      ((s.bump e).log (e.result config (.counted (s.ipWindowCounts.count e.windowKey + 1))),
        .ok (e.result config (.counted (s.ipWindowCounts.count e.windowKey + 1)))) := by
  have htext : (resolvedIp e.envelope).toText = .ok e.ip := by
    rw [e.resolves, JsValue.toText_str]
  have hlate : isLate config s (some e.time) = false := by
    rw [Bool.eq_false_iff]
    intro htrue
    exact h (isLate_iff.1 htrue)
  rw [step_of_not_isLate e.parses htext hlate, e.resolves]
  rfl

/-- One call returns and logs what the verdict of the classifier says, and leaves the tracker of the
classifier. -/
theorem step_event (config : Config) (s : State) (e : Event host) :
    let verdict := (classify config.watermarkToleranceMs s.tracker e.click).2
    (step host config s e.envelope).2 = .ok (e.result config verdict) ∧
      (step host config s e.envelope).1.tracker =
        (classify config.watermarkToleranceMs s.tracker e.click).1 ∧
      (step host config s e.envelope).1.processed = s.processed ++ [e.result config verdict] ∧
      (step host config s e.envelope).1.ipWindowCounts =
        s.ipWindowCounts.tally (Event.countedKey? (e, verdict)).toList := by
  intro verdict
  by_cases h : Late config.watermarkToleranceMs s.watermarkMs.ms e.time.ms
  · have hclassify : classify config.watermarkToleranceMs s.tracker e.click =
        (s.tracker, .late (s.watermarkMs.ms - e.time.ms)) := classify_of_late h
    rw [step_of_late h, show verdict = _ from congrArg Prod.snd hclassify, hclassify]
    exact ⟨rfl, rfl, rfl, rfl⟩
  · have hclassify : classify config.watermarkToleranceMs s.tracker e.click =
        (s.tracker.bump e.click, .counted (s.ipWindowCounts.count e.windowKey + 1)) :=
      classify_of_not_late h
    rw [step_of_not_late h, show verdict = _ from congrArg Prod.snd hclassify, hclassify]
    exact ⟨rfl, tracker_bump s e, rfl, rfl⟩

/-! ## Whole runs -/

/-- The verdicts of the classifier on the events, from the tracker of a state. -/
def verdicts (config : Config) (s : State) (es : List (Event host)) : List Verdict :=
  outputs (classify config.watermarkToleranceMs) s.tracker (es.map Event.click)

/-- The events with their verdicts. -/
def judged (config : Config) (s : State) (es : List (Event host)) : List (Event host × Verdict) :=
  es.zip (verdicts config s es)

/-- The log entries of the events. -/
def resultsOf (config : Config) (s : State) (es : List (Event host)) : List ProcessedClick :=
  (judged config s es).map fun q => q.1.result config q.2

/-- The keys of the counted events, in order. -/
def countedKeys (config : Config) (s : State) (es : List (Event host)) : List String :=
  (judged config s es).filterMap Event.countedKey?

/-- The state after the calls for the events. -/
def afterEvents (config : Config) (s : State) (es : List (Event host)) : State :=
  after (step host config) s (es.map Event.envelope)

theorem judged_cons (config : Config) (s : State) (e : Event host) (es : List (Event host)) :
    judged config s (e :: es) =
      (e, (classify config.watermarkToleranceMs s.tracker e.click).2) ::
        judged config (step host config s e.envelope).1 es := by
  simp only [judged, verdicts]
  rw [List.map_cons, outputs_cons, (step_event config s e).2.1, List.zip_cons_cons]

/-- A run of the service is a run of the classifier. -/
theorem tracker_afterEvents (config : Config) (s : State) (es : List (Event host)) :
    (afterEvents config s es).tracker =
      after (classify config.watermarkToleranceMs) s.tracker (es.map Event.click) := by
  induction es generalizing s with
  | nil => rfl
  | cons e es ih =>
    rw [List.map_cons, after_cons, ← (step_event config s e).2.1]
    exact ih (step host config s e.envelope).1

/-- A run returns, in order, the results of the verdicts. -/
theorem outputs_events (config : Config) (s : State) (es : List (Event host)) :
    outputs (step host config) s (es.map Event.envelope) = (resultsOf config s es).map .ok := by
  induction es generalizing s with
  | nil => rfl
  | cons e es ih =>
    rw [resultsOf, judged_cons, List.map_cons, outputs_cons, ih, (step_event config s e).1]
    rfl

/-- A run appends to the log what it returns. -/
theorem processed_afterEvents (config : Config) (s : State) (es : List (Event host)) :
    (afterEvents config s es).processed = s.processed ++ resultsOf config s es := by
  induction es generalizing s with
  | nil => exact (List.append_nil s.processed).symm
  | cons e es ih =>
    have hstep := (step_event config s e).2.2.1
    rw [resultsOf, judged_cons, List.map_cons, List.append_cons, ← hstep]
    exact ih (step host config s e.envelope).1

/-- A run tallies the keys of the counted events. -/
theorem counts_afterEvents (config : Config) (s : State) (es : List (Event host)) :
    (afterEvents config s es).ipWindowCounts =
      s.ipWindowCounts.tally (countedKeys config s es) := by
  induction es generalizing s with
  | nil => rfl
  | cons e es ih =>
    have hstep := (step_event config s e).2.2.2
    have hrest := ih (step host config s e.envelope).1
    rw [hstep, ← InsertionMap.tally_append] at hrest
    apply hrest.trans
    apply congrArg s.ipWindowCounts.tally
    rw [countedKeys, countedKeys, judged_cons, List.filterMap_cons]
    cases Event.countedKey? (e, _) with
    | none => rfl
    | some key => rfl

/-! ## Runs with malformed calls -/

/-- The IP of the envelope is a text, or absent and `"unknown"`. -/
def TextIp (envelope : ClickEnvelope) : Prop := ∃ ip, resolvedIp envelope = .str ip

theorem TextIp.toText {envelope : ClickEnvelope} (h : TextIp envelope) :
    ∃ text, (resolvedIp envelope).toText = .ok text := by
  obtain ⟨ip, hip⟩ := h
  exact ⟨ip, by rw [hip, JsValue.toText_str]⟩

/-- Calls that throw change nothing, so a run whose envelopes have a text for an IP is the run of
its well-formed envelopes. -/
theorem exists_events (host : Host) (es : List ClickEnvelope) (hip : ∀ e ∈ es, TextIp e) :
    ∃ evs : List (Event host),
      evs.map Event.envelope = es.filter (fun e => (host.newDate e.eventTime).isSome) ∧
      ∀ config s, after (step host config) s es = afterEvents config s evs := by
  induction es with
  | nil => exact ⟨[], rfl, fun _ _ => rfl⟩
  | cons e es ih =>
    obtain ⟨evs, hevs, hafter⟩ := ih fun d hd => hip d (List.mem_cons_of_mem e hd)
    obtain ⟨ip, hresolves⟩ := hip e List.mem_cons_self
    cases htime : host.newDate e.eventTime with
    | none =>
      -- the call throws, and the events are those of the other calls
      refine ⟨evs, ?_, ?_⟩
      · rw [hevs, List.filter_cons, htime]
        rfl
      · intro config s
        rw [after_cons, step_of_invalid_date htime]
        exact hafter config s
    | some time =>
      refine ⟨⟨e, time, ip, htime, hresolves⟩ :: evs, ?_, ?_⟩
      · rw [List.map_cons, hevs, List.filter_cons, htime]
        rfl
      · intro config s
        rw [after_cons, hafter]
        rfl

end AdClick.Watermark
