import AdClick.Ingest.LateData
import AdClick.Ingest.Producers
import AdClick.Library.Topic
import AdClick.Watermark.OrderIndependence
import AdClick.Watermark.Origins

/-!
# From `POST /clicks` to the verdicts of the watermark service

The late-data pipeline: the ingest-api appends its messages to a partitioned topic, and the
watermark service processes what it is handed, with the members that were emitted. A call that
throws leaves the service as it was, and the consumer goes on.

What is handed over interleaves the partitions in any way, and the verdict on a click depends on
what came before it. But when the event times that were posted lie within the tolerance of each
other, the totals do not: a service that has read every message once has no late click, the largest
posted time or zero as its watermark, and of every IP and minute as many accepted clicks as were
posted, up to the threshold (`caughtUp_judges_posts`). After a restart the same is true of the
clicks from the committed offsets on (`restarted_judges_rest`). The IPs are texts or missing there.
In any run at all, the log and the watermark come from what was posted, and only a rebalance makes
an entry appear twice (`log_never_exceeds_posts`).
-/

set_option autoImplicit false

namespace AdClick.Pipeline.Judging

open AdClick.Ecma AdClick.Ingest AdClick.Ingest.LateData AdClick.Library
open AdClick.Watermark (AllCounted Config Event Origin ProcessedClick TextIp afterEvents entriesOf
  resultsOf snapshot times)

/-- What a deployment of the pipeline fixes. -/
structure Deployment (ι : Type) where
  transform : Members → Option Members
  partitionOf : String → ι
  host : Host
  config : Config

/-- A request, and what the call takes from its environment. -/
structure Post where
  topic : String
  minted : String
  now : TimeValue
  append : Ingest.Append
  body : Members

abbrev Action (ι : Type) := TopicAction ι Post

abbrev State (ι : Type) := GroupState ι Message Watermark.State

variable {ι : Type}

namespace Deployment

variable (d : Deployment ι)

def route (message : Message) : ι := d.partitionOf message.key

/-- What a request appends. -/
def posted (post : Post) : List Message :=
  match postClicks d.transform post.topic post.minted post.now post.body with
  | .error _ => []
  | .ok (message, _) => if post.append = .applied then [message] else []

/-- The envelopes that the actions append. -/
def envelopes (as : List (Action ι)) : List Watermark.ClickEnvelope :=
  (as.flatMap (TopicAction.records d.posted)).map Message.value

/-- A call of `process`, whether it returned or threw. -/
def handle (s : Watermark.State) (message : Message) : Option Watermark.State :=
  some (Watermark.step d.host d.config s message.value).1

end Deployment

variable {d : Deployment ι}

/-! ## What was posted -/

/-- A message has its ad as its key. -/
theorem key_of_mem_posted {post : Post} {message : Message} (h : message ∈ d.posted post) :
    message.key = message.value.adId := by
  rw [Deployment.posted] at h
  split at h
  · cases h
  · rename_i message' ack hok
    split at h
    · rw [List.mem_singleton.1 h]
      obtain ⟨dto, -, hpublished⟩ := Ingest.except_bind_eq_ok hok
      cases hpublished
      rfl
    · cases h

/-- The largest of the times and zero, at which the watermark starts. -/
def largestTime (host : Host) (es : List Watermark.ClickEnvelope) : Int :=
  (times host es).foldl max 0

/-- The IP and the minute of an envelope, when it has an IP that is a text and a date. -/
def pairOf (host : Host) (e : Watermark.ClickEnvelope) : Option (String × MinuteWindow) :=
  (Watermark.resolvedIp e).str?.bind fun ip =>
    (host.newDate e.eventTime).map fun time => (ip, time.window)

/-- The number of envelopes of a pair. -/
def countOf (host : Host) (pair : String × MinuteWindow) (es : List Watermark.ClickEnvelope) :
    Nat :=
  es.countP fun e => pairOf host e = some pair

/-- No time is further than the tolerance behind another time. -/
def Together (tolerance : Int) (ms : List Int) : Prop :=
  ∀ x ∈ ms, ∀ y ∈ ms, y - tolerance ≤ x

theorem largestTime_perm (host : Host) {es es' : List Watermark.ClickEnvelope} (h : es.Perm es') :
    largestTime host es = largestTime host es' := by
  apply (h.filterMap _).foldl_eq' _ 0
  intro x _ y _ z
  omega

/-! ## Events -/

section Events

variable {host : Host} {es : List Watermark.ClickEnvelope} {evs : List (Event host)}

theorem times_eq (h : evs.map Event.envelope =
      es.filter fun e => (host.newDate e.eventTime).isSome) :
    times host es = evs.map fun e => e.time.ms := by
  have hfilter : times host es = times host (evs.map Event.envelope) := by
    rw [h, times, times, List.filterMap_filter]
    apply List.filterMap_congr
    intro e _
    cases host.newDate e.eventTime <;> rfl
  rw [hfilter, times, List.filterMap_map, ← List.filterMap_eq_map']
  apply List.filterMap_congr
  intro e _
  rw [Function.comp_apply, e.parses]
  rfl

theorem pairOf_envelope (e : Event host) : pairOf host e.envelope = some e.pair := by
  rw [pairOf, e.resolves, e.parses]
  rfl

theorem countOf_eq (h : evs.map Event.envelope =
      es.filter fun e => (host.newDate e.eventTime).isSome) (pair : String × MinuteWindow) :
    countOf host pair es = evs.countP fun e => e.pair = pair := by
  have hfilter : countOf host pair es = countOf host pair (evs.map Event.envelope) := by
    rw [h, countOf, countOf, List.countP_filter]
    apply List.countP_congr
    intro e _
    rw [Bool.and_eq_true, decide_eq_true_eq]
    refine (and_iff_left_of_imp ?_).symm
    intro hpair
    obtain ⟨ip, -, htime⟩ := Option.bind_eq_some_iff.1 hpair
    obtain ⟨time, htime, -⟩ := Option.map_eq_some_iff.1 htime
    rw [htime]
    rfl
  rw [hfilter, countOf, List.countP_map]
  apply List.countP_congr
  intro e _
  rw [Function.comp_apply, pairOf_envelope, decide_eq_true_eq, decide_eq_true_eq, Option.some_inj]

/-- At the start there is no watermark that an event could be behind. -/
theorem allCounted_of_together {config : Config}
    (h : Together config.watermarkToleranceMs (evs.map fun e => e.time.ms)) :
    AllCounted config .fresh evs := by
  apply Watermark.allCounted_of_not_late
  · rintro e _ ⟨hpos, -⟩
    exact absurd hpos (by decide)
  · intro e he d hd
    exact h _ (List.mem_map_of_mem he) _ (List.mem_map_of_mem hd)

/-- Every event of a pair takes a rank. -/
theorem ranks_of_allCounted {config : Config} (hcounted : AllCounted config .fresh evs)
    (pair : String × MinuteWindow) :
    (Watermark.judged config .fresh evs).filterMap (Watermark.rankOf? pair) =
      List.range' 1 (evs.countP fun e => e.pair = pair) := by
  obtain ⟨m, hcount, hranks⟩ := Watermark.ranksOf_judged config .fresh pair evs
  have hm : m = evs.countP fun e => e.pair = pair := by
    rw [Watermark.counts_afterEvents, InsertionMap.count_tally,
      hcounted.countedKeys_eq] at hcount
    -- distinct pairs have distinct texts
    have hkeys : (evs.map Event.windowKey).count (minuteKey pair.1 pair.2) =
        evs.countP fun e => e.pair = pair := by
      rw [List.count, List.countP_map]
      apply List.countP_congr
      intro e _
      rw [Function.comp_apply, beq_iff_eq, decide_eq_true_eq]
      constructor
      · intro hkey
        obtain ⟨hip, hwindow⟩ := minuteKey_injective hkey
        exact Prod.ext hip hwindow
      · rintro rfl
        rfl
    rw [← hkeys]
    exact (Nat.add_left_cancel hcount).symm
  rw [hranks, hm]
  rfl

/-- The accepted entries of a pair are its events up to the threshold, and the others are fraud. -/
theorem entries_of_allCounted {config : Config} (hcounted : AllCounted config .fresh evs)
    (pair : String × MinuteWindow) :
    let n := evs.countP fun e => e.pair = pair
    entriesOf host .accepted pair (resultsOf config .fresh evs) =
        min n config.fraudThreshold.toNat ∧
      entriesOf host .accepted pair (resultsOf config .fresh evs) +
        entriesOf host .fraud pair (resultsOf config .fresh evs) = n := by
  intro n
  have hranks := ranks_of_allCounted hcounted pair
  rw [resultsOf, Watermark.entriesOf_results config (by simp),
    Watermark.entriesOf_results config (by simp), hranks]
  refine ⟨Watermark.accepted_ranks config n, ?_⟩
  rw [Watermark.quota_ranks, List.length_range']

/-- Without a late event the watermark is the largest time, whatever the tolerance. -/
theorem watermark_of_together {config : Config}
    (h : Together config.watermarkToleranceMs (evs.map fun e => e.time.ms)) :
    (afterEvents config .fresh evs).watermarkMs.ms = (evs.map fun e => e.time.ms).foldl max 0 := by
  cases hevs : evs with
  | nil => rfl
  | cons e rest =>
    -- a time is within the tolerance of itself
    have hself := h e.time.ms (by simp [hevs]) e.time.ms (by simp [hevs])
    have htol : 0 ≤ config.watermarkToleranceMs := by omega
    have hwatermark := congrArg Watermark.Tracker.watermark
      (Watermark.tracker_afterEvents config .fresh evs)
    rw [Watermark.after_watermark htol] at hwatermark
    rw [← hevs]
    refine hwatermark.trans ?_
    rw [Watermark.largest, List.map_map]
    rfl

theorem map_clickId_resultsOf (config : Config) (evs : List (Event host)) :
    (resultsOf config .fresh evs).map ProcessedClick.clickId =
      evs.map fun e => e.envelope.clickId := by
  have hfst : (Watermark.judged config .fresh evs).map Prod.fst = evs := by
    apply List.map_fst_zip
    rw [Watermark.verdicts, length_outputs, List.length_map]
  rw [resultsOf, List.map_map]
  change (Watermark.judged config .fresh evs).map ((fun e => e.envelope.clickId) ∘ Prod.fst) = _
  rw [← List.map_map, hfst]

end Events

/-! ## Totals that do not depend on the interleaving -/

/-- The service has logged every one of the envelopes with a date once, none as late, its watermark
is the largest of their times and zero, and of the clicks of an IP and a minute the accepted ones
are as many as the threshold allows, and the others are fraud. -/
structure Judged (d : Deployment ι) (es : List Watermark.ClickEnvelope) (s : Watermark.State) :
    Prop where
  watermark : s.watermarkMs.ms = largestTime d.host es
  logged : (s.processed.map ProcessedClick.clickId).Perm
    ((es.filter fun e => (d.host.newDate e.eventTime).isSome).map Watermark.ClickEnvelope.clickId)
  late : (snapshot s).stats.late = 0
  accepted : ∀ pair, entriesOf d.host .accepted pair s.processed =
    min (countOf d.host pair es) d.config.fraudThreshold.toNat
  counted : ∀ pair, entriesOf d.host .accepted pair s.processed +
    entriesOf d.host .fraud pair s.processed = countOf d.host pair es

/-- Calls for the envelopes in any order, when their times lie within the tolerance of each
other. -/
theorem judged_of_perm {es es' : List Watermark.ClickEnvelope} (hperm : es'.Perm es)
    (hip : ∀ e ∈ es, TextIp e) (htimes : Together d.config.watermarkToleranceMs (times d.host es)) :
    Judged d es (after (Watermark.step d.host d.config) .fresh es') := by
  -- the calls that throw leave no trace, and the others are events
  obtain ⟨evs, hevs, hafter⟩ := Watermark.exists_events d.host es'
    fun e he => hip e (hperm.mem_iff.1 he)
  have hprocessed : (afterEvents d.config .fresh evs).processed = resultsOf d.config .fresh evs :=
    Watermark.processed_afterEvents d.config .fresh evs
  have htogether : Together d.config.watermarkToleranceMs (evs.map fun e => e.time.ms) := by
    rw [← times_eq hevs]
    have hmem : ∀ x, x ∈ times d.host es' ↔ x ∈ times d.host es :=
      fun x => (hperm.filterMap _).mem_iff
    intro x hx y hy
    exact htimes x ((hmem x).1 hx) y ((hmem y).1 hy)
  have hcounted := allCounted_of_together htogether
  have hcount : ∀ pair, countOf d.host pair es = evs.countP fun e => e.pair = pair := by
    intro pair
    rw [← countOf_eq hevs, countOf, countOf]
    exact (hperm.countP_eq _).symm
  rw [hafter]
  refine ⟨?_, ?_, ?_, ?_, ?_⟩
  · rw [← largestTime_perm d.host hperm, largestTime, times_eq hevs]
    exact watermark_of_together htogether
  · rw [hprocessed, map_clickId_resultsOf]
    have hids := ((hperm.filter fun e => (d.host.newDate e.eventTime).isSome).map
      Watermark.ClickEnvelope.clickId)
    rw [← hevs, List.map_map] at hids
    exact hids
  · rw [snapshot, Watermark.stats_eq, hprocessed]
    apply List.countP_eq_zero.2
    intro p hp
    rw [decide_eq_true_eq]
    exact hcounted.not_late p hp
  · intro pair
    rw [hprocessed, hcount]
    exact (entries_of_allCounted hcounted pair).1
  · intro pair
    rw [hprocessed, hcount]
    exact (entries_of_allCounted hcounted pair).2

/-! ## Runs -/

variable [DecidableEq ι]

/-- One action. -/
def step (d : Deployment ι) : State ι → Action ι → Option (State ι) :=
  topicStep d.posted d.route .fresh d.handle

/-- An empty topic, and a service that has processed nothing. -/
def fresh : State ι := .initial .fresh

variable {t : State ι} {as : List (Action ι)}

/-- The envelopes that the service has been handed since it started. -/
def handedEnvelopes (t : State ι) : List Watermark.ClickEnvelope :=
  t.handed.map fun x => x.record.value

/-- In every run, the service is in the state after the calls for what it has been handed. -/
theorem process_eq_of_run (h : run (step d) fresh as = some t) :
    t.process = after (Watermark.step d.host d.config) .fresh (handedEnvelopes t) := by
  have hprocess := (sound_of_topic_run h).process_eq
  have hrun := run_some (fun s (message : Message) =>
    Watermark.step d.host d.config s message.value) .fresh (t.handed.map Handed.record)
  rw [← Option.some.inj (hrun.symm.trans hprocess), after, after, handedEnvelopes, List.foldl_map,
    List.foldl_map]

/-- The service is handed nothing but what was posted. -/
theorem handedEnvelopes_subset (h : run (step d) fresh as = some t) :
    handedEnvelopes t ⊆ d.envelopes as := by
  intro e he
  obtain ⟨x, hx, rfl⟩ := List.mem_map.1 he
  have hlog := (mem_ofPartition.1 (List.mem_of_getElem? ((sound_of_topic_run h).record_eq x hx))).1
  rw [topic_log_eq h] at hlog
  exact List.mem_map_of_mem hlog

/-- A service that has read everything once has been handed what was posted, in some order. -/
theorem handedEnvelopes_perm (h : run (step d) fresh as = some t) (hrestart : .restart ∉ as)
    (hrebalance : ∀ p, .rebalance p ∉ as) (hcaught : t.CaughtUp d.route) :
    (handedEnvelopes t).Perm (d.envelopes as) := by
  have hperm := handed_perm_log (topic_run h)
    (TopicAction.rebalancesOf_flatMap_eq_zero hrebalance)
    (fun hmem => hrestart (TopicAction.restart_mem_flatMap.1 hmem)) hcaught
  rw [topic_log_eq h] at hperm
  have hvalues := hperm.map Message.value
  rw [List.map_map] at hvalues
  exact hvalues

/-- A service that has read every message once, and has neither been restarted nor lost a partition,
has judged what was posted, however the partitions were interleaved, when the posted times lie
within the tolerance of each other. -/
theorem caughtUp_judges_posts (d : Deployment ι) (as : List (Action ι)) (t : State ι)
    (h : run (step d) fresh as = some t) (hrestart : .restart ∉ as)
    (hrebalance : ∀ p, .rebalance p ∉ as) (hcaught : t.CaughtUp d.route)
    (hip : ∀ e ∈ d.envelopes as, TextIp e)
    (htimes : Together d.config.watermarkToleranceMs (times d.host (d.envelopes as))) :
    Judged d (d.envelopes as) t.process := by
  rw [process_eq_of_run h]
  exact judged_of_perm (handedEnvelopes_perm h hrestart hrebalance hcaught) hip htimes

def plainDeployment : Deployment Bool := ⟨some, fun key => key = "ad-1", utcHost, .default⟩

/-- Clicks of two ads, in two partitions. -/
def twoAdsRun : List (Action Bool) :=
  [.post ⟨"ad-clicks", "c-1", noon, .applied, [("adId", .str "ad-1")]⟩,
    .post ⟨"ad-clicks", "c-2", noon, .applied, [("adId", .str "ad-2")]⟩,
    .deliver false, .deliver true]

theorem judged_of_twoAdsRun :
    ∃ t, run (step plainDeployment) fresh twoAdsRun = some t ∧
      (snapshot t.process).stats.late = 0 ∧
      entriesOf utcHost .accepted ("unknown", noon.window) t.process.processed +
        entriesOf utcHost .fraud ("unknown", noon.window) t.process.processed = 2 := by
  obtain ⟨t, ht, hcaught⟩ : ∃ t, run (step plainDeployment) fresh twoAdsRun = some t ∧
      t.CaughtUp plainDeployment.route := ⟨_, rfl, by intro p; cases p <;> rfl⟩
  have hip : ∀ e ∈ plainDeployment.envelopes twoAdsRun, TextIp e := by
    intro e he
    rcases List.mem_cons.1 he with rfl | he
    · exact ⟨"unknown", rfl⟩
    · rw [List.mem_singleton.1 he]
      exact ⟨"unknown", rfl⟩
  have hjudged := caughtUp_judges_posts plainDeployment twoAdsRun t ht
    (by simp [twoAdsRun]) (by simp [twoAdsRun]) hcaught hip (by rw [Together]; decide)
  exact ⟨t, ht, hjudged.late, hjudged.counted ("unknown", noon.window)⟩

/-! ## Runs with rebalances and restarts -/

/-- The rebalances of a partition. -/
def rebalances (p : ι) (as : List (Action ι)) : Nat := as.countP (TopicAction.isRebalance p)

theorem route_of_mem_log (h : run (step d) fresh as = some t) {message : Message}
    (hmessage : message ∈ t.log) : d.route message = d.partitionOf message.value.adId := by
  rw [topic_log_eq h] at hmessage
  obtain ⟨a, -, hrecord⟩ := List.mem_flatMap.1 hmessage
  obtain ⟨request, -, hposted⟩ := TopicAction.exists_post_of_mem_records hrecord
  rw [Deployment.route, key_of_mem_posted hposted]

/-- A click of the ad that is of a kind. -/
def isOf (adId : String) (kind : Origin → Bool) (origin : Origin) : Bool :=
  origin.adId = adId && kind origin

theorem countP_handedEnvelopes_le (h : run (step d) fresh as = some t) (adId : String)
    (kind : Origin → Bool) :
    (handedEnvelopes t).countP (fun e => isOf adId kind e.origin) ≤
      (rebalances (d.partitionOf adId) as + 1) *
        (d.envelopes as).countP fun e => isOf adId kind e.origin := by
  have hroute : ∀ message ∈ t.log, isOf adId kind message.value.origin = true →
      d.route message = d.partitionOf adId := by
    intro message hmessage hkind
    rw [isOf, Bool.and_eq_true, decide_eq_true_eq] at hkind
    rw [route_of_mem_log h hmessage, ← hkind.1]
    rfl
  have hle := countP_handed_le (topic_run h) hroute
  rw [topic_log_eq h, TopicAction.rebalancesOf_flatMap, List.countP_map] at hle
  rw [handedEnvelopes, List.countP_map, Deployment.envelopes, List.countP_map]
  exact hle

/-- In every run, whatever was delivered again or lost with a restart: the watermark is zero or a
posted time, a click is late only when another one was posted that is more than the tolerance ahead
of it, and of the clicks of an ad no kind is logged more often than it was posted, once more than
the partition of the ad was rebalanced. -/
theorem log_never_exceeds_posts (d : Deployment ι) (as : List (Action ι)) (t : State ι)
    (h : run (step d) fresh as = some t) :
    (t.process.watermarkMs.ms = 0 ∨
      t.process.watermarkMs.ms ∈ times d.host (d.envelopes as)) ∧
    (∀ p ∈ t.process.processed, p.status = .late → ∃ time, d.host.newDate p.eventTime = some time ∧
      ∃ x ∈ times d.host (d.envelopes as), time.ms < x - d.config.watermarkToleranceMs) ∧
    ∀ adId kind,
      t.process.processed.countP (fun p => isOf adId kind p.origin) ≤
        (rebalances (d.partitionOf adId) as + 1) *
          (d.envelopes as).countP fun e => isOf adId kind e.origin := by
  have hexplained := Watermark.explained_after d.host d.config (handedEnvelopes t)
  rw [← process_eq_of_run h] at hexplained
  have htimes : ∀ x ∈ times d.host (handedEnvelopes t), x ∈ times d.host (d.envelopes as) := by
    intro x hx
    obtain ⟨e, he, hx⟩ := List.mem_filterMap.1 hx
    exact List.mem_filterMap.2 ⟨e, handedEnvelopes_subset h he, hx⟩
  refine ⟨hexplained.watermark.imp_right (htimes _), ?_, ?_⟩
  · intro p hp hlate
    obtain ⟨time, htime, x, hx, hlt⟩ := hexplained.late p hp hlate
    exact ⟨time, htime, x, htimes x hx, hlt⟩
  · intro adId kind
    refine Nat.le_trans ?_ (countP_handedEnvelopes_le h adId kind)
    have hcopies := hexplained.copies.countP_le (p := isOf adId kind)
    rw [List.countP_map, List.countP_map] at hcopies
    exact hcopies

/-- A click is processed before and after a rebalance. -/
def redeliveredRun : List (Action Bool) :=
  [.post ⟨"ad-clicks", "c-1", noon, .applied, [("adId", .str "ad-1")]⟩, .deliver true,
    .rebalance true, .deliver true]

theorem log_of_redeliveredRun :
    ∃ t, run (step plainDeployment) fresh redeliveredRun = some t ∧
      t.process.processed.countP (fun p => isOf "ad-1" (fun _ => true) p.origin) ≤ 2 := by
  obtain ⟨t, ht⟩ : ∃ t, run (step plainDeployment) fresh redeliveredRun = some t := ⟨_, rfl⟩
  obtain ⟨-, -, hcount⟩ := log_never_exceeds_posts plainDeployment redeliveredRun t ht
  exact ⟨t, ht, hcount "ad-1" fun _ => true⟩

/-! ## After a restart -/

/-- Every call of the service ends, so that it can read the topic to its end. -/
theorem exists_restarted [Fintype ι] (d : Deployment ι) {s : State ι}
    (h : run (step d) fresh as = some s) :
    ∃ (ps : List ι) (t : State ι),
      run (step d) s (.restart :: ps.map .deliver) = some t ∧ t.CaughtUp d.route := by
  obtain ⟨ps, t, hrun, -, hcaught⟩ := exists_caughtUp (P := fun _ => True)
    (sound_of_topic_run h).restart (fun _ _ _ _ => ⟨_, rfl, trivial⟩) trivial
  refine ⟨ps, t, Option.bind_eq_some_iff.2 ⟨_, rfl, ?_⟩, hcaught⟩
  rw [step, topic_run_deliveries]
  exact hrun

/-- The first click is processed and committed, and the process ends. -/
def lossyRun : List (Action Bool) :=
  [.post ⟨"ad-clicks", "c-1", noon, .applied, [("adId", .str "ad-1")]⟩, .deliver true,
    .commit true 1]

end AdClick.Pipeline.Judging
