import AdClick.Counter.Counters
import AdClick.Library.Topic
import AdClick.Pipeline.WireFormat

/-!
# From `POST /clicks` to the counts

The counting pipeline of one language: clients post requests, a producer appends the records, and a
consumer of a stable group reads the partitions in any interleaving, commits offsets, loses and
regains partitions and is restarted. A client library picks the partition of a record by its key.
It may commit a record that it has given out before the call of `record`; a process that ends in
between is one that has counted the record, as it takes its counts with it either way.

Whatever happens, the consumer gets through what the producer has appended, and holds the state of
`record` after the clicks it has been handed (`process_eq_of_run`). Its counters are those of its
language, so that they hold the totals as far as their width allows.
-/

set_option autoImplicit false

namespace AdClick.Pipeline

open AdClick.Counter AdClick.Ecma AdClick.Ingest AdClick.Library

/-- What a deployment of the pipeline fixes. -/
structure Deployment (ι : Type) where
  language : Language
  json : JsonStack
  writer : PayloadWriter
  numberText : Int → Int → String
  partitionOf : String → ι

/-- A record of the topic and its partition. -/
structure Entry (ι : Type) where
  partition : ι
  record : Record Members

/-- A request, and the partition of its record if that has no key. -/
structure Post (ι : Type) where
  call : Call
  request : Request
  free : ι

abbrev Action (ι : Type) := TopicAction ι (Post ι)

section Pipeline

variable {ι : Type}

namespace Deployment

variable (d : Deployment ι)

/-- The consumer, with the counters of its language. -/
abbrev loop : ConsumeLoop d.language.counters.Value :=
  consumeLoop d.language.counters.Value d.numberText d.language

/-- The state of the service whose counters hold these totals. -/
def holding (totals : CounterService Nat) : d.loop.State :=
  d.loop.ofCounter (totals.mapCounters d.language.counters.ofNat)

/-- The count of an ad as an integer; zero when there is none. -/
def countOf (s : d.loop.State) (adId : String) : Int :=
  ((d.loop.counts s).get? adId).elim 0 d.language.counters.toInt

/-- All records of a key are in the partition of the key. -/
def place (free : ι) (record : Record Members) : Entry ι :=
  match record.key with
  | none => ⟨free, record⟩
  | some key => ⟨d.partitionOf key, record⟩

/-- What a request appends; what the log holds before makes no difference (`logOf_serve`). -/
def posted (post : Post ι) : List (Entry ι) :=
  (logOf (serve d.json post.call post.request d.language [])).map (d.place post.free)

/-- A turn of the consume loop with the value of a record. -/
def handle (s : d.loop.State) (entry : Entry ι) : Option d.loop.State :=
  d.loop.turn s (d.writer.valueOf d.language entry.record.value)

/-- The state of the service after the clicks. -/
def counted (clicks : List Counter.ClickEnvelope) : d.loop.State :=
  d.holding (afterDeliveries d.language clicks)

/-- The entries that the actions append. -/
def entries (as : List (Action ι)) : List (Entry ι) :=
  as.flatMap (TopicAction.records d.posted)

/-- The clicks of the records that the actions append. -/
def clicks (as : List (Action ι)) : List Counter.ClickEnvelope :=
  (d.entries as).map fun entry => clickOf entry.record

end Deployment

variable {d : Deployment ι} {as : List (Action ι)}

/-! ## The counters -/

theorem countOf_holding (totals : CounterService Nat) (adId : String) :
    d.countOf (d.holding totals) adId =
      d.language.counters.toInt (d.language.counters.ofNat (totals.counts.count adId)) := by
  rw [Deployment.countOf, Deployment.holding, counts_ofCounter, CounterService.mapCounters,
    InsertionMap.get?_mapValues, InsertionMap.count]
  cases totals.counts.get? adId with
  | none =>
    change 0 = d.language.counters.toInt (d.language.counters.ofNat 0)
    rw [d.language.counters.isCounting.zero, d.language.counters.toInt_zero]
  | some n => rfl

/-- A counter never shows more than what it has counted. -/
theorem countOf_holding_le (totals : CounterService Nat) (adId : String) :
    d.countOf (d.holding totals) adId ≤ totals.counts.count adId := by
  rw [countOf_holding]
  exact d.language.counters.toInt_ofNat_le _

theorem countOf_holding_of_lt {totals : CounterService Nat} {adId : String}
    (h : totals.counts.count adId < 2 ^ 31) :
    d.countOf (d.holding totals) adId = totals.counts.count adId := by
  rw [countOf_holding]
  exact d.language.counters.toInt_ofNat _ h

/-! ## The records of the topic -/

theorem mem_posted {post : Post ι} {entry : Entry ι} (h : entry ∈ d.posted post) :
    entry.record ∈ appended d.json post.call post.request d.language ∧
      ∀ key, entry.record.key = some key → entry.partition = d.partitionOf key := by
  rw [Deployment.posted, logOf_serve, List.nil_append] at h
  obtain ⟨record, hrecord, rfl⟩ := List.mem_map.1 h
  rw [Deployment.place]
  cases hkey : record.key with
  | none =>
    refine ⟨hrecord, ?_⟩
    intro key hsome
    rw [hkey] at hsome
    cases hsome
  | some key =>
    refine ⟨hrecord, ?_⟩
    intro key' hsome
    rw [hkey] at hsome
    cases hsome
    rfl

/-- The click of a request that was acknowledged is in the topic, if the append takes effect. -/
theorem mem_clicks_of_ok {post : Post ι} (hpost : .post post ∈ as)
    {log log' : List (Record Members)} {ack : Ack}
    (hack : serve d.json post.call post.request d.language log = .ok ack log')
    (happlied : post.call.append = .applied ∨ d.language = .csharp) :
    ⟨ack.clickId, ack.adId⟩ ∈ d.clicks as := by
  obtain ⟨record, hrecord, hheader, hkey⟩ := appended_of_ok hack happlied
  have hposted : d.place post.free record ∈ d.posted post := by
    rw [Deployment.posted, logOf_serve, List.nil_append]
    exact List.mem_map_of_mem hrecord
  have hplace : (d.place post.free record).record = record := by
    rw [Deployment.place, hkey]
  have hclick : clickOf (d.place post.free record).record = ⟨ack.clickId, ack.adId⟩ := by
    rw [hplace, clickOf, hheader, hkey]
    rfl
  rw [← hclick]
  exact List.mem_map_of_mem (List.mem_flatMap.2 ⟨.post post, hpost, hposted⟩)

/-- An entry of the topic comes from a request. -/
theorem exists_posted_of_mem_entries {entry : Entry ι} (h : entry ∈ d.entries as) :
    ∃ post, entry ∈ d.posted post := by
  obtain ⟨a, -, hentry⟩ := List.mem_flatMap.1 h
  obtain ⟨post, -, hposted⟩ := TopicAction.exists_post_of_mem_records hentry
  exact ⟨post, hposted⟩

/-- The value of an entry carries the ad id of its key. -/
theorem key_eq_of_mem_entries {entry : Entry ι} (h : entry ∈ d.entries as) :
    entry.record.key = entry.record.value.adId := by
  obtain ⟨post, hposted⟩ := exists_posted_of_mem_entries h
  exact (of_mem_appended (mem_posted hposted).1).2.1

/-- All entries of an ad are in the partition of the ad. -/
theorem partition_of_mem_entries {entry : Entry ι} (h : entry ∈ d.entries as) {adId : String}
    (had : entry.record.value.adId = some adId) : entry.partition = d.partitionOf adId := by
  obtain ⟨post, hposted⟩ := exists_posted_of_mem_entries h
  apply (mem_posted hposted).2 adId
  rw [key_eq_of_mem_entries h, had]

/-- A click of an ad comes from a record of the ad; the ad `"null"` also stands for a missing
one. -/
theorem adId_of_clickOf {entry : Entry ι} (h : entry ∈ d.entries as) {clickId adId : String}
    (hclick : clickOf entry.record = ⟨clickId, adId⟩)
    (hnull : d.language = .java → adId ≠ "null") : entry.record.value.adId = some adId := by
  obtain ⟨post, hposted⟩ := exists_posted_of_mem_entries h
  obtain ⟨-, hkey, hjava⟩ := of_mem_appended (mem_posted hposted).1
  have had : entry.record.key.getD "null" = adId := congrArg Counter.ClickEnvelope.adId hclick
  rw [← hkey]
  cases hnone : entry.record.key with
  | none =>
    rw [hnone] at had
    exact absurd had.symm (hnull (hjava hnone))
  | some key =>
    rw [hnone] at had
    exact congrArg some had

/-- A turn with an entry of the topic records its click. -/
theorem handle_of_mem_entries {entry : Entry ι} (h : entry ∈ d.entries as)
    (totals : CounterService Nat) :
    d.handle (d.holding totals) entry =
      some (d.holding (Counter.step d.language totals (clickOf entry.record)).1) := by
  obtain ⟨post, hposted⟩ := exists_posted_of_mem_entries h
  obtain ⟨hheader, hkey, hjava⟩ := of_mem_appended (mem_posted hposted).1
  rw [Deployment.handle, turn_of_record _ d.writer d.numberText d.language hheader hkey hjava,
    Deployment.holding, record_ofCounter, step_mapCounters d.language.counters.isCounting]
  rfl

/-- A loop over entries of the topic gets to their end. -/
theorem run_handle {handed : List (Entry ι)} (h : ∀ entry ∈ handed, entry ∈ d.entries as) :
    ∀ totals : CounterService Nat, run d.handle (d.holding totals) handed =
      some (d.holding (after (Counter.step d.language) totals
        (handed.map fun entry => clickOf entry.record))) := by
  induction handed with
  | nil => exact fun _ => rfl
  | cons entry handed ih =>
    intro totals
    obtain ⟨hentry, hrest⟩ := List.forall_mem_cons.1 h
    refine Option.bind_eq_some_iff.2 ⟨_, handle_of_mem_entries hentry totals, ?_⟩
    rw [List.map_cons, after_cons]
    exact ih hrest _

/-! ## The consumer -/

abbrev State (d : Deployment ι) := GroupState ι (Entry ι) d.loop.State

variable [DecidableEq ι]

/-- One action. -/
def step (d : Deployment ι) : State d → Action ι → Option (State d) :=
  topicStep d.posted Entry.partition (d.counted []) d.handle

/-- An empty topic, and a consumer that has not read anything. -/
def fresh (d : Deployment ι) : State d := .initial (d.counted [])

variable {t : State d}

theorem sound (h : run (step d) (fresh d) as = some t) :
    Sound Entry.partition (d.counted []) d.handle t :=
  sound_of_topic_run h

theorem log_eq (h : run (step d) (fresh d) as = some t) : t.log = d.entries as := topic_log_eq h

/-- The clicks that the consumer has been handed since it started. -/
def handedClicks (t : State d) : List Counter.ClickEnvelope :=
  t.handed.map fun h => clickOf h.record.record

/-- In every run, the consumer holds the state of `record` after the clicks it has been handed. -/
theorem process_eq_of_run (h : run (step d) (fresh d) as = some t) :
    t.process = d.counted (handedClicks t) := by
  have hmem : ∀ entry ∈ t.handed.map Handed.record, entry ∈ d.entries as := by
    intro entry hentry
    rw [← log_eq h]
    exact (sound h).mem_log_of_mem_handed hentry
  have hprocess := (sound h).process_eq
  rw [Deployment.counted, afterDeliveries, after_nil, run_handle hmem] at hprocess
  rw [← Option.some.inj hprocess, List.map_map]
  rfl

end Pipeline

end AdClick.Pipeline
