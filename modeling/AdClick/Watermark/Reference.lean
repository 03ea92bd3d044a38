import AdClick.Watermark.Refinement

/-!
# The stateless classification

What the status of the `i`-th click should be, read off the list of clicks: late if there is a
largest earlier time and the click is further behind it than the tolerance, else the number of
clicks of its key up to itself that are not late. The classifier agrees with it at every position
(`outputs_eq_reference`), and so does the service (`process_refines_reference`).

Times are Numbers: the distance that a late click carries is the exact one rounded to a double,
which shows when the two times are more than `2 ^ 53` milliseconds apart (`lateMs_is_rounded`).
-/

set_option autoImplicit false

namespace AdClick.Watermark

open AdClick.Library AdClick.Ecma

universe u

section Reference

variable {κ : Type u} (tolerance : Int) (cs : List (Click κ))

/-- The `i`-th click is late with respect to the clicks before it. -/
def lateAt (i : Nat) : Bool :=
  cs[i]?.any fun c => Late tolerance (largest 0 (cs.take i)) c.time

theorem lateAt_iff {tolerance : Int} {cs : List (Click κ)} {i : Nat} {c : Click κ}
    (h : cs[i]? = some c) :
    lateAt tolerance cs i = true ↔ Late tolerance (largest 0 (cs.take i)) c.time := by
  simp [lateAt, h]

variable [DecidableEq κ]

/-- The number of the first `n` clicks that are not late and have the key. -/
def onTimeCount (k : κ) (n : Nat) : Nat :=
  (List.range n).countP fun j => !lateAt tolerance cs j && cs[j]?.any fun c => c.key = k

/-- The verdict on the `i`-th click. -/
def reference (i : Nat) : Option Verdict :=
  cs[i]?.map fun c =>
    if lateAt tolerance cs i then .late (largest 0 (cs.take i) - c.time)
    else .counted (onTimeCount tolerance cs c.key (i + 1))

variable {tolerance}

theorem onTimeCount_succ (k : κ) (i : Nat) :
    onTimeCount tolerance cs k (i + 1) = onTimeCount tolerance cs k i +
      if !lateAt tolerance cs i && cs[i]?.any fun c => c.key = k then 1 else 0 := by
  rw [onTimeCount, List.range_succ, List.countP_append, List.countP_singleton]
  rfl

/-- One click from the state after the clicks before it. -/
theorem classify_after_take (htol : 0 ≤ tolerance) {i : Nat} {c : Click κ} (hc : cs[i]? = some c) :
    classify tolerance (after (classify tolerance) .start (cs.take i)) c =
      if lateAt tolerance cs i then
        (after (classify tolerance) .start (cs.take i), .late (largest 0 (cs.take i) - c.time))
      else
        ((after (classify tolerance) .start (cs.take i)).bump c,
          .counted ((after (classify tolerance) .start (cs.take i)).count c.key + 1)) := by
  have hwatermark : (after (classify tolerance) .start (cs.take i)).watermark =
      largest 0 (cs.take i) := after_watermark htol .start (cs.take i)
  cases hlate : lateAt tolerance cs i with
  | true =>
    have h := (lateAt_iff hc).1 hlate
    rw [← hwatermark] at h
    rw [classify_of_late h, hwatermark]
    rfl
  | false =>
    have h : ¬ Late tolerance (after (classify tolerance) .start (cs.take i)).watermark c.time := by
      rw [hwatermark, ← lateAt_iff hc, hlate]
      exact Bool.false_ne_true
    rw [classify_of_not_late h]
    rfl

/-- The classifier has counted, of every key, the clicks that are not late. -/
theorem count_after_take (htol : 0 ≤ tolerance) (k : κ) (i : Nat) :
    (after (classify tolerance) .start (cs.take i)).count k = onTimeCount tolerance cs k i := by
  induction i with
  | zero => rfl
  | succ i ih =>
    rw [List.take_add_one, after_append, onTimeCount_succ, ← ih]
    cases hc : cs[i]? with
    | none => simp -- past the end nothing more is counted
    | some c =>
      show (classify tolerance _ c).1.count k = _
      rw [classify_after_take cs htol hc]
      cases lateAt tolerance cs i with
      | true => simp
      | false => simp [Tracker.bump, eq_comm]

/-- The verdicts of the classifier are those of the reference. -/
theorem outputs_eq_reference (htol : 0 ≤ tolerance) (i : Nat) :
    (outputs (classify tolerance) .start cs)[i]? = reference tolerance cs i := by
  rw [outputs_getElem?, reference]
  cases hc : cs[i]? with
  | none => rfl
  | some c =>
    rw [Option.map_some, Option.map_some, classify_after_take cs htol hc, count_after_take cs htol]
    cases hlate : lateAt tolerance cs i with
    | true => rfl
    | false => simp [onTimeCount_succ, hlate, hc]

end Reference

/-! ## The service -/

variable {host : Host}

/-- The largest event time before the `i`-th event, or zero. -/
def earlierMax (es : List (Event host)) (i : Nat) : Int :=
  largest 0 ((es.map Event.click).take i)

/-- The `i`-th event is late with respect to the events before it. -/
def IsLateAt (config : Config) (es : List (Event host)) (i : Nat) (e : Event host) : Prop :=
  0 < earlierMax es i ∧ e.time.ms < earlierMax es i - config.watermarkToleranceMs

/-- The events up to the `i`-th that are not late and share its IP and its minute. -/
def onTimeRank (config : Config) (es : List (Event host)) (i : Nat) (e : Event host) : Nat :=
  onTimeCount config.watermarkToleranceMs (es.map Event.click) e.pair (i + 1)

/-- The log entry that the stateless classification prescribes for the `i`-th event. -/
structure MatchesReference (config : Config) (es : List (Event host)) (i : Nat) (e : Event host)
    (p : ProcessedClick) : Prop where
  clickId : p.clickId = e.envelope.clickId
  adId : p.adId = e.envelope.adId
  eventTime : p.eventTime = e.envelope.eventTime
  late_iff : p.status = .late ↔ IsLateAt config es i e
  fraud_iff : p.status = .fraud ↔
    ¬ IsLateAt config es i e ∧ config.fraudThreshold < onTimeRank config es i e
  accepted_iff : p.status = .accepted ↔
    ¬ IsLateAt config es i e ∧ ¬ config.fraudThreshold < onTimeRank config es i e
  lateMs_eq : p.status = .late →
    p.lateMs = some (numberValue (earlierMax es i - e.time.ms))
  lateMs_exact : p.status = .late → earlierMax es i - e.time.ms ≤ 2 ^ 53 →
    p.lateMs = some (earlierMax es i - e.time.ms)
  tolerance_lt : p.status = .late →
    config.watermarkToleranceMs < 2 ^ 53 ∨ earlierMax es i - e.time.ms ≤ 2 ^ 53 →
    ∃ ms, p.lateMs = some ms ∧ config.watermarkToleranceMs < ms
  lateMs_isSome : p.lateMs.isSome ↔ p.status = .late
  reason_isSome : p.reason.isSome ↔ p.status ≠ .accepted

theorem reference_event {config : Config} {es : List (Event host)} {i : Nat} {e : Event host}
    (h : es[i]? = some e) :
    reference config.watermarkToleranceMs (es.map Event.click) i =
      some (if lateAt config.watermarkToleranceMs (es.map Event.click) i then
          .late (earlierMax es i - e.time.ms)
        else .counted (onTimeRank config es i e)) := by
  rw [reference, List.getElem?_map, h]
  rfl

theorem isLateAt_iff (config : Config) {es : List (Event host)} {i : Nat} {e : Event host}
    (h : es[i]? = some e) :
    lateAt config.watermarkToleranceMs (es.map Event.click) i = true ↔ IsLateAt config es i e := by
  have hclick : (es.map Event.click)[i]? = some e.click := by
    rw [List.getElem?_map, h]
    rfl
  exact lateAt_iff hclick

/-- The distance of a late event is at least zero, so that up to `2 ^ 53` it is a Number. -/
theorem numberValue_behind {config : Config} (htol : 0 ≤ config.watermarkToleranceMs)
    {es : List (Event host)} {i : Nat} {e : Event host} (h : IsLateAt config es i e)
    (hle : earlierMax es i - e.time.ms ≤ 2 ^ 53) :
    numberValue (earlierMax es i - e.time.ms) = earlierMax es i - e.time.ms := by
  have hlt := h.2
  exact numberValue_of_le (by omega)

/-- Rounding does not bring the distance of a late event down to a tolerance below `2 ^ 53`. -/
theorem tolerance_lt_behind {config : Config} (htol : 0 ≤ config.watermarkToleranceMs)
    {es : List (Event host)} {i : Nat} {e : Event host} (h : IsLateAt config es i e)
    (hsmall : config.watermarkToleranceMs < 2 ^ 53 ∨ earlierMax es i - e.time.ms ≤ 2 ^ 53) :
    config.watermarkToleranceMs < numberValue (earlierMax es i - e.time.ms) := by
  have hlt := h.2
  by_cases hle : earlierMax es i - e.time.ms ≤ 2 ^ 53
  · rw [numberValue_behind htol h hle]
    omega
  · -- rounding stays at `2 ^ 53` or above, and the tolerance is below
    have hround := le_numberValue (x := earlierMax es i - e.time.ms) (by omega)
    omega

/-- The result of the reference verdict is the prescribed entry. -/
theorem matchesReference_result {config : Config} (htol : 0 ≤ config.watermarkToleranceMs)
    {es : List (Event host)} {i : Nat} {e : Event host} {v : Verdict} (h : es[i]? = some e)
    (hv : reference config.watermarkToleranceMs (es.map Event.click) i = some v) :
    MatchesReference config es i e (e.result config v) := by
  have hiff := isLateAt_iff config h
  rw [reference_event h] at hv
  cases hlate : lateAt config.watermarkToleranceMs (es.map Event.click) i with
  | true =>
    -- the verdict carries the exact distance, and the entry the rounded one
    rw [hlate] at hv hiff
    have hin := hiff.1 rfl
    have hexact := numberValue_behind htol hin
    have htolerance := tolerance_lt_behind htol hin
    cases hv
    constructor <;> simp +contextual [Event.result, hin, hexact, htolerance]
  | false =>
    rw [hlate] at hv hiff
    have hnot : ¬ IsLateAt config es i e := by
      intro hin
      exact Bool.false_ne_true (hiff.2 hin)
    cases hv
    by_cases hfraud : config.fraudThreshold < onTimeRank config es i e
    · constructor <;> simp [Event.result, Config.quota, hnot, hfraud]
    · constructor <;> simp [Event.result, Config.quota, hnot, hfraud]

/-- The log after the events, entry by entry. -/
theorem processed_fresh {config : Config} {es : List (Event host)} {i : Nat} {e : Event host}
    {v : Verdict} (he : es[i]? = some e) (hv : (verdicts config .fresh es)[i]? = some v) :
    (afterEvents config .fresh es).processed[i]? = some (e.result config v) := by
  have hjudged : (judged config .fresh es)[i]? = some (e, v) :=
    List.getElem?_zip_eq_some.2 ⟨he, hv⟩
  rw [processed_afterEvents]
  show ((judged config .fresh es).map _)[i]? = _
  rw [List.getElem?_map, hjudged]
  rfl

/-- The last instant that a `Date` can hold. -/
def lastInstant : Event utcHost where
  envelope := ⟨"c-1", "ad-1", .undefined, .undefined, "+275760-09-13T00:00:00.000Z"⟩
  time := ⟨8640000000000000, by decide, by decide⟩
  ip := "unknown"
  parses := by decide
  resolves := rfl

/-- The second instant that a `Date` can hold. -/
def secondInstant : Event utcHost where
  envelope := ⟨"c-2", "ad-1", .str "10.0.0.1", .undefined, "-271821-04-20T00:00:00.001Z"⟩
  time := ⟨-8639999999999999, by decide, by decide⟩
  ip := "10.0.0.1"
  parses := by decide
  resolves := rfl

/-- The two instants are 17279999999999999 milliseconds apart, which no double holds: the log says
one millisecond more. -/
theorem lateMs_is_rounded :
    ∃ p, (afterEvents .default .fresh [lastInstant, secondInstant]).processed[1]? = some p ∧
      p.status = .late ∧ p.lateMs = some 17280000000000000 ∧
      p.lateMs ≠ some (earlierMax [lastInstant, secondInstant] 1 - secondInstant.time.ms) :=
  ⟨_, rfl, rfl, by decide, by decide⟩

/-- From a fresh service, the calls return and log the stateless classification, the watermark is
the largest event time, and the stats are the status totals. -/
theorem process_refines_reference (host : Host) (config : Config)
    (htol : 0 ≤ config.watermarkToleranceMs) (es : List (Event host)) :
    outputs (step host config) .fresh (es.map Event.envelope) =
        (afterEvents config .fresh es).processed.map .ok ∧
      (afterEvents config .fresh es).processed.length = es.length ∧
      (∀ i e, es[i]? = some e → ∃ p, (afterEvents config .fresh es).processed[i]? = some p ∧
        MatchesReference config es i e p) ∧
      (afterEvents config .fresh es).watermarkMs.ms = largest 0 (es.map Event.click) ∧
      (snapshot (afterEvents config .fresh es)).stats =
        ⟨totalOf .accepted (afterEvents config .fresh es).processed,
          totalOf .late (afterEvents config .fresh es).processed,
          totalOf .fraud (afterEvents config .fresh es).processed⟩ ∧
      totalOf .accepted (afterEvents config .fresh es).processed +
          totalOf .late (afterEvents config .fresh es).processed +
          totalOf .fraud (afterEvents config .fresh es).processed = es.length := by
  have hprocessed : (afterEvents config .fresh es).processed = resultsOf config .fresh es :=
    processed_afterEvents config .fresh es
  have hlength : (afterEvents config .fresh es).processed.length = es.length := by
    rw [hprocessed, resultsOf, List.length_map, judged, List.length_zip, verdicts, length_outputs,
      List.length_map, Nat.min_self]
  refine ⟨?_, hlength, ?_, ?_, stats_eq _, ?_⟩
  · rw [outputs_events, hprocessed]
  · intro i e h
    have hv : (verdicts config .fresh es)[i]? = _ :=
      (outputs_eq_reference (es.map Event.click) htol i).trans (reference_event h)
    exact ⟨_, processed_fresh h hv, matchesReference_result htol h (reference_event h)⟩
  · have hwatermark := congrArg Tracker.watermark (tracker_afterEvents config .fresh es)
    exact hwatermark.trans (after_watermark htol .start (es.map Event.click))
  · rw [totalOf_sum, hlength]

/-- The late click leaves the watermark at the first one. -/
theorem reference_of_instants :
    (afterEvents .default .fresh [lastInstant, secondInstant]).processed.length = 2 ∧
      (afterEvents .default .fresh [lastInstant, secondInstant]).watermarkMs.ms =
        8640000000000000 := by
  obtain ⟨-, hlength, -, hwatermark, -⟩ :=
    process_refines_reference utcHost .default (by decide) [lastInstant, secondInstant]
  exact ⟨hlength, hwatermark⟩

end AdClick.Watermark
