import AdClick.Counter.ClicksOfAd
import AdClick.Pipeline.Counting

/-!
# What the counting pipeline guarantees

At every moment of every run the consumer has counted no more for an ad than clicks were posted for
it (`counts_never_exceed_posts`), it can always catch up (`consumer_catches_up`), and the records of
an ad reach it in the order of the posts (`ad_keeps_its_order`). While the process is not restarted,
a consumer that has caught up holds what one delivery of every record would have left, whatever was
delivered twice and in whatever order the partitions were read (`caughtUp_counts_once`); so it has
counted what was acknowledged, as far as the appends took effect (`caughtUp_counts_acknowledged`).

The counts live in the process, the offsets in the group. A consumer that was restarted counts for
an ad only what its partition holds behind the offset that was committed before
(`committed_is_not_counted_again`), and so its count is complete exactly when every click id of the
ad comes again from the offset it started at (`restarted_count_complete_iff`).
-/

set_option autoImplicit false

namespace AdClick.Pipeline

open AdClick.Counter AdClick.Ecma AdClick.Ingest AdClick.Library

variable {ι : Type} [DecidableEq ι] {d : Deployment ι} {t : State d} {as : List (Action ι)}

/-! ## The Go stack on the three partitions of the topic -/

def goDeployment : Deployment (Fin 3) where
  language := .go
  json _ payload := some payload
  writer := ⟨fun _ _ => [], fun _ => rfl⟩
  numberText coefficient _ := toString coefficient
  partitionOf key := Fin.ofNat 3 key.length

/-- A request without a payload, whose append takes effect. -/
def postOf (clickId adId : String) : Action (Fin 3) :=
  .post ⟨⟨"ad-clicks", "minted", "2026-06-12T10:05:34.123Z", .applied⟩,
    ⟨some clickId, some adId, none⟩, 0⟩

/-- Two clicks of an ad, the first of which is delivered again after a rebalance. -/
def rebalancedRun : List (Action (Fin 3)) :=
  [postOf "c-1" "ad-1", .deliver 1, postOf "c-2" "ad-1", .rebalance 1, .deliver 1, .deliver 1]

theorem exists_rebalancedRun :
    ∃ t, run (step goDeployment) (fresh goDeployment) rebalancedRun = some t := ⟨_, rfl⟩

/-- The first of two clicks is delivered and committed. -/
def committedRun : List (Action (Fin 3)) := [postOf "c-1" "ad-1", .deliver 1, .commit 1 1]

/-- Then the process is restarted, and the second click is delivered. -/
def restartedRun : List (Action (Fin 3)) := [.restart, postOf "c-2" "ad-1", .deliver 1]

theorem exists_committedRun :
    ∃ s t, run (step goDeployment) (fresh goDeployment) committedRun = some s ∧
      run (step goDeployment) s restartedRun = some t := ⟨_, _, rfl, rfl⟩

/-- A run after which all partitions have been read to their ends. -/
theorem caughtUp_of_all {as : List (Action (Fin 3))} {t : State goDeployment}
    (h : run (step goDeployment) (fresh goDeployment) as = some t)
    (hall : (run (step goDeployment) (fresh goDeployment) as).all fun t =>
      ∀ p, t.position p = (ofPartition Entry.partition p t.log).length) :
    t.CaughtUp Entry.partition := by
  intro p
  rw [h, Option.all_some] at hall
  exact of_decide_eq_true hall p

/-! ## What the consumer has been handed -/

theorem mem_entries_of_mem_handed (h : run (step d) (fresh d) as = some t) {entry : Entry ι}
    (hentry : entry ∈ t.handed.map Handed.record) : entry ∈ d.entries as := by
  rw [← log_eq h]
  exact (sound h).mem_log_of_mem_handed hentry

theorem mem_clicks_of_mem_handedClicks (h : run (step d) (fresh d) as = some t)
    {click : Counter.ClickEnvelope} (hclick : click ∈ handedClicks t) : click ∈ d.clicks as := by
  obtain ⟨x, hx, rfl⟩ := List.mem_map.1 hclick
  exact List.mem_map_of_mem (mem_entries_of_mem_handed h (List.mem_map_of_mem hx))

/-- In every run, whatever was redelivered and however often the process was restarted: the ids seen
are ids of posted clicks, and the count of an ad is at most the number of ids that were posted for
it. What a counter shows is no greater either. -/
theorem counts_never_exceed_posts (d : Deployment ι) (as : List (Action ι)) (t : State d)
    (h : run (step d) (fresh d) as = some t) :
    ∃ c : CounterService Nat, t.process = d.holding c ∧
      (∀ clickId ∈ c.seen, clickId ∈ (d.clicks as).map Counter.ClickEnvelope.clickId) ∧
      (∀ adId, c.counts.count adId ≤ idsOfAd (d.clicks as) adId) ∧
      ∀ adId, d.countOf t.process adId ≤ idsOfAd (d.clicks as) adId := by
  have hcount : ∀ adId, (afterDeliveries d.language (handedClicks t)).counts.count adId ≤
      idsOfAd (d.clicks as) adId := by
    intro adId
    rw [count_afterDeliveries]
    exact distinctClicks_le fun _ hclick => mem_clicks_of_mem_handedClicks h hclick
  refine ⟨afterDeliveries d.language (handedClicks t), process_eq_of_run h, ?_, hcount, ?_⟩
  · intro clickId hseen
    rw [seen_afterDeliveries, List.mem_toFinset] at hseen
    obtain ⟨click, hclick, rfl⟩ := List.mem_map.1 hseen
    exact List.mem_map_of_mem (mem_clicks_of_mem_handedClicks h hclick)
  · intro adId
    rw [process_eq_of_run h]
    exact (countOf_holding_le _ adId).trans (Int.ofNat_le.2 (hcount adId))

theorem counts_of_rebalancedRun :
    ∃ t, run (step goDeployment) (fresh goDeployment) rebalancedRun = some t ∧
      goDeployment.countOf t.process "ad-1" ≤ 2 := by
  obtain ⟨t, ht⟩ := exists_rebalancedRun
  obtain ⟨-, -, -, -, hcount⟩ := counts_never_exceed_posts goDeployment rebalancedRun t ht
  exact ⟨t, ht, hcount "ad-1"⟩

/-- From every state of every run the consumer catches up by deliveries alone. -/
theorem consumer_catches_up [Fintype ι] (d : Deployment ι) (as : List (Action ι)) (t : State d)
    (h : run (step d) (fresh d) as = some t) :
    ∃ (ps : List ι) (u : State d), run (step d) t (ps.map .deliver) = some u ∧ u.log = t.log ∧
      u.CaughtUp Entry.partition := by
  have hhandle : ∀ (process : d.loop.State) (entry : Entry ι),
      (∃ c, process = d.holding c) → entry ∈ t.log →
        ∃ process', d.handle process entry = some process' ∧ ∃ c, process' = d.holding c := by
    rintro process entry ⟨c, rfl⟩ hentry
    rw [log_eq h] at hentry
    exact ⟨_, handle_of_mem_entries hentry c, _, rfl⟩
  obtain ⟨ps, u, hrun, hlog, hcaught⟩ :=
    exists_caughtUp (sound h) hhandle ⟨_, process_eq_of_run h⟩
  exact ⟨ps, u, (topic_run_deliveries ps).trans hrun, hlog, hcaught⟩

theorem catchUp_of_committedRun :
    ∃ s t, run (step goDeployment) (fresh goDeployment) committedRun = some s ∧
      run (step goDeployment) s restartedRun = some t ∧
      ∃ (ps : List (Fin 3)) (u : State goDeployment),
        run (step goDeployment) s (ps.map .deliver) = some u ∧ u.CaughtUp Entry.partition := by
  obtain ⟨s, t, hs, ht⟩ := exists_committedRun
  obtain ⟨ps, u, hrun, -, hcaught⟩ := consumer_catches_up goDeployment committedRun s hs
  exact ⟨s, t, hs, ht, ps, u, hrun, hcaught⟩

/-! ## The order of an ad -/

/-- The entries whose value is for the ad. -/
def ofAd (adId : String) (entries : List (Entry ι)) : List (Entry ι) :=
  entries.filter fun entry => entry.record.value.adId = some adId

/-- All entries of an ad are in its partition. -/
theorem ofAd_ofPartition (h : run (step d) (fresh d) as = some t) (adId : String) :
    ofAd adId (ofPartition Entry.partition (d.partitionOf adId) t.log) =
      ofAd adId (d.entries as) := by
  rw [log_eq h, ofAd, ofAd, ofPartition, List.filter_filter]
  apply List.filter_congr
  intro entry hentry
  by_cases had : entry.record.value.adId = some adId
  · have hpartition := partition_of_mem_entries hentry had
    simp [had, hpartition]
  · simp [had]

/-- In every run, the records of an ad reach the process through one partition, and those that reach
it for the first time are a segment of those that were posted for the ad, in the order of the posts;
and they are the first ones as long as the process was not restarted. -/
theorem ad_keeps_its_order (d : Deployment ι) (as : List (Action ι)) (t : State d)
    (h : run (step d) (fresh d) as = some t) (adId : String) :
    (∀ x ∈ t.handed, x.record.record.value.adId = some adId → x.partition = d.partitionOf adId) ∧
      ofAd adId (t.firstRecords (d.partitionOf adId)) <:+: ofAd adId (d.entries as) ∧
      (.restart ∉ as →
        ofAd adId (t.firstRecords (d.partitionOf adId)) <+: ofAd adId (d.entries as)) := by
  refine ⟨?_, ?_, ?_⟩
  · intro x hx had
    have hpartition := (mem_ofPartition.1 (List.mem_of_getElem? ((sound h).record_eq x hx))).2
    rw [← hpartition]
    exact partition_of_mem_entries (mem_entries_of_mem_handed h (List.mem_map_of_mem hx)) had
  · rw [(sound h).firstRecords_eq, ← ofAd_ofPartition h]
    apply List.IsInfix.filter
    exact (List.take_prefix _ _).isInfix.trans (List.drop_suffix _ _).isInfix
  · intro hrestart
    rw [(sound h).firstRecords_eq, ← ofAd_ofPartition h, topic_started_eq_zero h hrestart,
      List.drop_zero]
    apply List.IsPrefix.filter
    exact List.take_prefix _ _

theorem order_of_rebalancedRun :
    ∃ t, run (step goDeployment) (fresh goDeployment) rebalancedRun = some t ∧
      ofAd "ad-1" (t.firstRecords 1) <+: ofAd "ad-1" (goDeployment.entries rebalancedRun) := by
  obtain ⟨t, ht⟩ := exists_rebalancedRun
  obtain ⟨-, -, hprefix⟩ := ad_keeps_its_order goDeployment rebalancedRun t ht "ad-1"
  exact ⟨t, ht, hprefix (by simp [rebalancedRun, postOf])⟩

/-! ## A process that was not restarted -/

/-- The consumer as if every record had been delivered once, in the order of the posts. -/
def deliveredOnce (d : Deployment ι) (as : List (Action ι)) : CounterService Nat :=
  afterDeliveries d.language (d.clicks as)

theorem mem_handedClicks_iff (h : run (step d) (fresh d) as = some t)
    (hrestart : .restart ∉ as) (hcaught : t.CaughtUp Entry.partition)
    (click : Counter.ClickEnvelope) : click ∈ handedClicks t ↔ click ∈ d.clicks as := by
  constructor
  · exact mem_clicks_of_mem_handedClicks h
  · intro hclick
    obtain ⟨entry, hentry, rfl⟩ := List.mem_map.1 hclick
    have hhanded : entry ∈ t.handed.map Handed.record := by
      rw [(sound h).mem_records_iff hcaught, topic_started_eq_zero h hrestart, List.drop_zero,
        log_eq h]
      exact mem_ofPartition.2 ⟨hentry, rfl⟩
    obtain ⟨x, hx, rfl⟩ := List.mem_map.1 hhanded
    exact List.mem_map_of_mem hx

/-- The total of an ad is then the number of ids that were posted for it. -/
theorem count_of_caughtUp (h : run (step d) (fresh d) as = some t) (hrestart : .restart ∉ as)
    (hcaught : t.CaughtUp Entry.partition) (had : AdOfClick (d.clicks as)) (adId : String) :
    (afterDeliveries d.language (handedClicks t)).counts.count adId =
      idsOfAd (d.clicks as) adId := by
  have hsame := mem_handedClicks_iff h hrestart hcaught
  rw [count_afterDeliveries,
    distinctClicks_eq_idsOfAd (had.of_subset fun click hclick => (hsame click).1 hclick)]
  exact idsOfAd_congr fun clickId => hsame _

/-- A consumer that has caught up and was not restarted has seen the posted ids, and its counters
hold these totals as far as they can: the counts sum up to the number of the posted ids, whatever
was delivered twice; and when click ids determine ads, they are the counts of one delivery of every
record, so that a count shows the number of ids that were posted for the ad if it fits in 32
bits. -/
theorem caughtUp_counts_once (d : Deployment ι) (as : List (Action ι)) (t : State d)
    (h : run (step d) (fresh d) as = some t) (hrestart : .restart ∉ as)
    (hcaught : t.CaughtUp Entry.partition) :
    ∃ c : CounterService Nat, t.process = d.holding c ∧
      c.seen = (deliveredOnce d as).seen ∧ c.counts.values.sum = distinctIds (d.clicks as) ∧
      c.duplicates + distinctIds (d.clicks as) = t.handed.length ∧
      (AdOfClick (d.clicks as) →
        (∀ adId, c.counts.get? adId = (deliveredOnce d as).counts.get? adId) ∧
        ∀ adId, idsOfAd (d.clicks as) adId < 2 ^ 31 →
          d.countOf t.process adId = idsOfAd (d.clicks as) adId) := by
  have hsame := mem_handedClicks_iff h hrestart hcaught
  refine ⟨afterDeliveries d.language (handedClicks t), process_eq_of_run h, ?_, ?_, ?_, ?_⟩
  · rw [deliveredOnce, seen_afterDeliveries, seen_afterDeliveries]
    ext clickId
    simp only [List.mem_toFinset, List.mem_map]
    exact exists_congr fun click => and_congr_left fun _ => hsame click
  · rw [sum_counts_afterDeliveries]
    exact distinctIds_congr hsame
  · rw [← distinctIds_congr hsame, duplicates_afterDeliveries, handedClicks, List.length_map]
  · intro had
    have had' := had.of_subset fun click hclick => (hsame click).1 hclick
    constructor
    · intro adId
      -- the ids of every ad are the same, as both have seen the same clicks
      rw [deliveredOnce, get?_afterDeliveries, get?_afterDeliveries,
        distinctClicks_congr had' hsame adId]
    · intro adId hrange
      have hcount := count_of_caughtUp h hrestart hcaught had adId
      rw [process_eq_of_run h, Deployment.counted, countOf_holding_of_lt (by omega), hcount]

/-- The redelivered click is counted once. -/
theorem once_of_rebalancedRun :
    ∃ t, run (step goDeployment) (fresh goDeployment) rebalancedRun = some t ∧
      ∃ c : CounterService Nat, t.process = goDeployment.holding c ∧
        c.counts.values.sum = 2 := by
  obtain ⟨t, ht⟩ := exists_rebalancedRun
  obtain ⟨c, hprocess, -, hsum, -⟩ := caughtUp_counts_once goDeployment rebalancedRun t ht
    (by simp [rebalancedRun, postOf]) (caughtUp_of_all ht (by decide))
  exact ⟨t, ht, c, hprocess, hsum⟩

/-- A consumer that has caught up and was not restarted has seen the click id of every request that
was acknowledged and whose append took effect, and counts its ad when click ids determine ads. The
acknowledgement of the C# service alone is enough. -/
theorem caughtUp_counts_acknowledged (d : Deployment ι) (as : List (Action ι)) (t : State d)
    (h : run (step d) (fresh d) as = some t) (hrestart : .restart ∉ as)
    (hcaught : t.CaughtUp Entry.partition) (post : Post ι) (hpost : .post post ∈ as)
    (log log' : List (Record Members)) (ack : Ack)
    (hack : serve d.json post.call post.request d.language log = .ok ack log')
    (happlied : post.call.append = .applied ∨ d.language = .csharp) :
    ∃ c : CounterService Nat, t.process = d.holding c ∧ ack.clickId ∈ c.seen ∧
      (AdOfClick (d.clicks as) → 0 < c.counts.count ack.adId ∧
        (idsOfAd (d.clicks as) ack.adId < 2 ^ 31 → 0 < d.countOf t.process ack.adId)) := by
  have hsame := mem_handedClicks_iff h hrestart hcaught
  have hclick := (hsame _).2 (mem_clicks_of_ok hpost hack happlied)
  refine ⟨afterDeliveries d.language (handedClicks t), process_eq_of_run h, ?_, ?_⟩
  · rw [seen_afterDeliveries, List.mem_toFinset]
    exact List.mem_map_of_mem (f := Counter.ClickEnvelope.clickId) hclick
  · intro had
    have hcount := count_of_caughtUp h hrestart hcaught had ack.adId
    have hpos : 0 < idsOfAd (d.clicks as) ack.adId := by
      rw [idsOfAd]
      exact List.length_pos_of_mem (mem_idListOfAd.2 ((hsame _).1 hclick))
    constructor
    · rw [hcount]
      exact hpos
    · intro hrange
      rw [process_eq_of_run h, Deployment.counted, countOf_holding_of_lt (by omega), hcount]
      exact Int.natCast_pos.2 hpos

/-- The click of the first answer has been seen. -/
theorem acknowledged_of_rebalancedRun :
    ∃ t, run (step goDeployment) (fresh goDeployment) rebalancedRun = some t ∧
      ∃ c : CounterService Nat, t.process = goDeployment.holding c ∧ "c-1" ∈ c.seen := by
  obtain ⟨t, ht⟩ := exists_rebalancedRun
  obtain ⟨c, hprocess, hseen, -⟩ := caughtUp_counts_acknowledged goDeployment rebalancedRun t ht
    (by simp [rebalancedRun, postOf]) (caughtUp_of_all ht (by decide)) _ List.mem_cons_self []
    _ ⟨"accepted", "ad-clicks", "c-1", "ad-1"⟩ rfl (Or.inl rfl)
  exact ⟨t, ht, c, hprocess, hseen⟩

/-! ## A process that was restarted -/

/-- The clicks that the partition of an ad holds from an offset on. -/
def clicksFrom (t : State d) (offset : ι → Nat) (adId : String) : List Counter.ClickEnvelope :=
  ((ofPartition Entry.partition (d.partitionOf adId) t.log).drop
    (offset (d.partitionOf adId))).map fun entry => clickOf entry.record

/-- A click of an ad that was handed over was posted behind where the process has started. -/
theorem mem_clicksFrom_of_mem_handedClicks (h : run (step d) (fresh d) as = some t)
    {clickId adId : String} (hnull : d.language = .java → adId ≠ "null")
    (hhanded : ⟨clickId, adId⟩ ∈ handedClicks t) :
    ⟨clickId, adId⟩ ∈ clicksFrom t t.started adId := by
  obtain ⟨x, hx, hclick⟩ := List.mem_map.1 hhanded
  have hmem : x.record ∈ t.handed.map Handed.record := List.mem_map_of_mem hx
  have hentry := mem_entries_of_mem_handed h hmem
  -- it was handed over from its partition, which is that of the ad
  have hdrop := (sound h).mem_drop_of_mem_handed hmem
  rw [partition_of_mem_entries hentry (adId_of_clickOf hentry hclick hnull)] at hdrop
  rw [← hclick]
  exact List.mem_map_of_mem hdrop

/-- What was committed at some moment, a process that is started later does not count: its count of
an ad is at most the number of ids that the partition of the ad holds from the committed offset
on. -/
theorem committed_is_not_counted_again (d : Deployment ι) (as bs : List (Action ι)) (s t : State d)
    (h : run (step d) (fresh d) as = some s) (h' : run (step d) s bs = some t)
    (hrestart : .restart ∈ bs) (adId : String) (hnull : d.language = .java → adId ≠ "null") :
    d.countOf t.process adId ≤ idsOfAd (clicksFrom t s.committed adId) adId := by
  have hall : run (step d) (fresh d) (as ++ bs) = some t := by
    rw [run_append, h]
    exact h'
  have hstarted := committed_le_started_of_run (sound h) (topic_run h')
    (TopicAction.restart_mem_flatMap.2 hrestart) (d.partitionOf adId)
  have hsub : ∀ clickId, ⟨clickId, adId⟩ ∈ handedClicks t →
      (⟨clickId, adId⟩ : Counter.ClickEnvelope) ∈ clicksFrom t s.committed adId := by
    intro clickId hhanded
    have hsince := mem_clicksFrom_of_mem_handedClicks hall hnull hhanded
    exact ((List.drop_sublist_drop_left _ hstarted).map _).subset hsince
  have hle := distinctClicks_le hsub
  rw [process_eq_of_run hall]
  refine (countOf_holding_le _ adId).trans (Int.ofNat_le.2 ?_)
  rw [count_afterDeliveries]
  exact hle

/-- The click that was counted and committed before the restart is not counted again. -/
theorem recount_of_committedRun :
    ∃ s t, run (step goDeployment) (fresh goDeployment) committedRun = some s ∧
      run (step goDeployment) s restartedRun = some t ∧
      goDeployment.countOf t.process "ad-1" ≤ 1 := by
  obtain ⟨s, t, hs, ht, hone⟩ : ∃ s t,
      run (step goDeployment) (fresh goDeployment) committedRun = some s ∧
      run (step goDeployment) s restartedRun = some t ∧
      idsOfAd (clicksFrom t s.committed "ad-1") "ad-1" = 1 := ⟨_, _, rfl, rfl, by decide⟩
  have hle := committed_is_not_counted_again goDeployment committedRun restartedRun s t hs ht
    List.mem_cons_self "ad-1" (by rintro ⟨⟩)
  rw [hone] at hle
  exact ⟨s, t, hs, ht, hle⟩

/-- The clicks of an ad that a consumer has been handed when it has caught up. -/
theorem mem_handedClicks_iff_since (h : run (step d) (fresh d) as = some t)
    (hcaught : t.CaughtUp Entry.partition) {clickId adId : String}
    (hnull : d.language = .java → adId ≠ "null") :
    ⟨clickId, adId⟩ ∈ handedClicks t ↔ ⟨clickId, adId⟩ ∈ clicksFrom t t.started adId := by
  constructor
  · exact mem_clicksFrom_of_mem_handedClicks h hnull
  · intro hsince
    obtain ⟨entry, hentry, hclick⟩ := List.mem_map.1 hsince
    have hroute := (mem_ofPartition.1 (List.mem_of_mem_drop hentry)).2
    rw [← hroute] at hentry
    obtain ⟨x, hx, hrecord⟩ := List.mem_map.1 (((sound h).mem_records_iff hcaught entry).2 hentry)
    rw [← hclick, ← hrecord]
    exact List.mem_map_of_mem hx

/-- A consumer that has caught up, after any number of restarts, counts for an ad the click ids that
its partition holds from the offset on that the process has started at; these are all ids of the ad
exactly when every one of them is there. The ids of the ad are fewer than a counter of 32 bits can
count. -/
theorem restarted_count_complete_iff (d : Deployment ι) (as : List (Action ι)) (t : State d)
    (h : run (step d) (fresh d) as = some t) (hcaught : t.CaughtUp Entry.partition)
    (had : AdOfClick (d.clicks as)) (adId : String)
    (hnull : d.language = .java → adId ≠ "null")
    (hrange : idsOfAd (d.clicks as) adId < 2 ^ 31) :
    d.countOf t.process adId = idsOfAd (clicksFrom t t.started adId) adId ∧
      (d.countOf t.process adId = idsOfAd (d.clicks as) adId ↔
        ∀ clickId, ⟨clickId, adId⟩ ∈ d.clicks as →
          (⟨clickId, adId⟩ : Counter.ClickEnvelope) ∈ clicksFrom t t.started adId) := by
  have hsub : ∀ click ∈ handedClicks t, click ∈ d.clicks as :=
    fun _ hclick => mem_clicks_of_mem_handedClicks h hclick
  have hcount : (afterDeliveries d.language (handedClicks t)).counts.count adId =
      idsOfAd (handedClicks t) adId := by
    rw [count_afterDeliveries, distinctClicks_eq_idsOfAd (had.of_subset hsub)]
  have hle : idsOfAd (handedClicks t) adId ≤ idsOfAd (d.clicks as) adId := by
    rw [← hcount, count_afterDeliveries]
    exact distinctClicks_le fun _ hclick => hsub _ hclick
  have hshown : d.countOf t.process adId = idsOfAd (handedClicks t) adId := by
    rw [process_eq_of_run h, Deployment.counted, countOf_holding_of_lt (by omega), hcount]
  rw [hshown, Int.natCast_inj, Int.natCast_inj]
  constructor
  · exact idsOfAd_congr fun clickId => mem_handedClicks_iff_since h hcaught hnull
  · rw [idsOfAd_eq_iff hsub]
    exact forall_congr' fun clickId => imp_congr_right fun _ =>
      mem_handedClicks_iff_since h hcaught hnull

/-- Of the two clicks of the ad, the restarted process counts one. -/
theorem restarted_count_of_committedRun :
    ∃ t, run (step goDeployment) (fresh goDeployment) (committedRun ++ restartedRun) = some t ∧
      goDeployment.countOf t.process "ad-1" = 1 := by
  obtain ⟨t, ht, hone⟩ : ∃ t, run (step goDeployment) (fresh goDeployment)
      (committedRun ++ restartedRun) = some t ∧
        idsOfAd (clicksFrom t t.started "ad-1") "ad-1" = 1 := ⟨_, rfl, by decide⟩
  have had : AdOfClick (goDeployment.clicks (committedRun ++ restartedRun)) := by
    rw [AdOfClick]
    decide
  obtain ⟨hcount, -⟩ := restarted_count_complete_iff goDeployment
    (committedRun ++ restartedRun) t ht (caughtUp_of_all ht (by decide)) had "ad-1"
    (by rintro ⟨⟩) (by decide)
  rw [hone] at hcount
  exact ⟨t, ht, hcount⟩

end AdClick.Pipeline
