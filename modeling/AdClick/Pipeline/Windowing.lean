import AdClick.Ingest.EventTime
import AdClick.Library.Topic
import AdClick.Window.System
import AdClick.Window.Table

/-!
# From `POST /clicks` to the table of the aggregator

The windowing pipeline: the ingest-api appends its messages to a partitioned topic, and the
aggregator reads the partitions, records the clicks in its buckets and flushes these to ClickHouse.
Deliveries, commits and rebalances interleave with the steps of any number of flushes. A restart
loses the buckets and the flushes that wait, but neither the offsets of the group nor the table; and
ClickHouse may still apply an insert that its client has given up or whose process has ended.

The topic and the group alone run as any consumer group (`group_run`), and a call of `record` for a
message of the topic bumps the bucket of its ad and of the minute in which it was posted
(`pairOf_click`).
-/

set_option autoImplicit false

namespace AdClick.Pipeline.Windowing

open AdClick.Counter AdClick.Ecma AdClick.Ingest AdClick.Ingest.Windowed AdClick.Library

/-- What a deployment of the pipeline fixes. -/
structure Deployment (ι : Type) where
  transform : Members → Option Members
  write : Members → List (String × Json)
  partitionOf : String → ι
  host : Host

structure Post where
  call : Windowed.Call
  body : Members

inductive Action (ι : Type) where
  | topic (a : TopicAction ι Post)
  /-- A step of a flush, or of an insert that one waits for. -/
  | flushing (a : Window.Action) (idle : a.click? = none)
  /-- ClickHouse applies an insert that nobody waits for. -/
  | applyLate (i : Nat)

/-- A call of `flush`. -/
def Action.startFlush {ι : Type} : Action ι := .flushing .flushStart rfl

/-- The insert that has waited longest is reported to have succeeded. -/
def Action.succeedFirst {ι : Type} : Action ι := .flushing (.insertSuccess 0) rfl

/-- The topic with its group, the aggregator with its table, and what ClickHouse has been sent that
nobody waits for. -/
structure State (ι : Type) where
  group : GroupState ι Message Unit
  service : Window.System
  orphans : List Window.Buckets

section Pipeline

variable {ι : Type}

namespace Deployment

variable (d : Deployment ι)

/-- All messages of an ad are in one partition. -/
def route (message : Message) : ι := d.partitionOf message.key

/-- What a request appends. -/
def posted (post : Post) : List Message :=
  match postClicks d.transform post.call post.body with
  | .error _ => []
  | .ok (message, _) => if post.call.append = .applied then [message] else []

/-- The messages that an action appends. -/
def records : Action ι → List Message
  | .topic a => a.records d.posted
  | .flushing _ _ => []
  | .applyLate _ => []

/-- The messages that the actions append. -/
def messages (as : List (Action ι)) : List Message := as.flatMap d.records

/-- The clicks that the actions append. -/
def clicks (as : List (Action ι)) : List Window.ClickEnvelope := (d.messages as).map Message.click

/-- An action as actions on the group. -/
def groupActions : Action ι → List (GroupAction ι Message)
  | .topic a => a.groupActions d.posted
  | .flushing _ _ => []
  | .applyLate _ => []

end Deployment

/-! ## The messages of the topic -/

variable {d : Deployment ι} {s t : State ι} {as : List (Action ι)}

theorem appendsOf_groupActions (as : List (Action ι)) :
    appendsOf (as.flatMap d.groupActions) = d.messages as := by
  induction as with
  | nil => rfl
  | cons a as ih =>
    rw [List.flatMap_cons, appendsOf, List.filterMap_append, Deployment.messages,
      List.flatMap_cons]
    refine congrArg₂ (· ++ ·) ?_ ih
    cases a with
    | topic a => exact TopicAction.appendsOf_groupActions a
    | flushing a idle => rfl
    | applyLate i => rfl

theorem exists_post_of_mem_messages {message : Message} (h : message ∈ d.messages as) :
    ∃ call body ack, postClicks d.transform call body = .ok (message, ack) := by
  obtain ⟨a, -, hmessage⟩ := List.mem_flatMap.1 h
  cases a with
  | topic a =>
    obtain ⟨post, -, hposted⟩ := TopicAction.exists_post_of_mem_records hmessage
    rw [Deployment.posted] at hposted
    split at hposted
    · cases hposted
    · rename_i message' ack hok
      split at hposted
      · rw [List.mem_singleton.1 hposted]
        exact ⟨post.call, post.body, ack, hok⟩
      · cases hposted
  | flushing a idle => cases hmessage
  | applyLate i => cases hmessage

/-- A message of the topic has its ad as its key, and a click that is recorded for the ad. -/
theorem pairOf_click {message : Message} (h : message ∈ d.messages as) (host : Host) :
    message.key = message.click.adId ∧
      ∃ window, Window.pairOf host message.click = some (message.key, window) := by
  obtain ⟨call, body, ack, hposted⟩ := exists_post_of_mem_messages h
  obtain ⟨hkey, -, htime, -⟩ := of_postClicks_eq_ok hposted
  refine ⟨hkey, call.now.window, ?_⟩
  rw [Window.pairOf, windowOf_click htime, hkey]
  rfl

/-- A message whose click is recorded for the ad in the window. -/
def isOf (host : Host) (adId : String) (window : MinuteWindow) (message : Message) : Bool :=
  Window.pairOf host message.click = some (adId, window)

theorem pairCount_map_click (host : Host) (messages : List Message) (adId : String)
    (window : MinuteWindow) :
    Window.pairCount host (messages.map Message.click) adId window =
      messages.countP (isOf host adId window) := by
  rw [Window.pairCount, List.filterMap_map, List.count_filterMap]
  apply List.countP_congr
  intro message _
  simp [isOf]

/-- The messages of an ad are in its partition. -/
theorem route_of_isOf {message : Message} (hmessage : message ∈ d.messages as) {adId : String}
    {window : MinuteWindow} (h : isOf d.host adId window message = true) :
    d.route message = d.partitionOf adId := by
  obtain ⟨-, window', hpair⟩ := pairOf_click hmessage d.host
  rw [isOf, hpair, decide_eq_true_eq, Option.some.injEq, Prod.mk.injEq] at h
  rw [Deployment.route, h.1]

/-! ## Steps -/

variable [DecidableEq ι]

/-- A message is handed over in any case; what the aggregator does with it is up to `serve`. -/
def moveGroup (d : Deployment ι) :
    GroupState ι Message Unit → GroupAction ι Message → Option (GroupState ι Message Unit) :=
  groupStep d.route () fun _ _ => some ()

/-- The click that is delivered next. -/
def nextClick (d : Deployment ι) (s : State ι) (p : ι) : Option Window.ClickEnvelope :=
  (ofPartition d.route p s.group.log)[s.group.position p]?.bind fun message =>
    readClick (message.value.valueOf d.write)

/-- The batches of the inserts that are not applied yet. -/
def unapplied (inserts : List Window.Insert) : List Window.Buckets :=
  (inserts.filter fun insert => !insert.applied).map Window.Insert.batch

/-- The insert that a step gives up; the client reports a failure, whatever becomes of it. -/
def givenUp (service : Window.System) : Window.Action → List Window.Insert
  | .insertFailure i => service.inFlight[i]?.toList
  | _ => []

/-- What an action does to the aggregator, its table and the inserts that nobody waits for. -/
def serve (d : Deployment ι) (s : State ι) :
    Action ι → Option (Window.System × List Window.Buckets)
  | .topic (.deliver p) =>
    (nextClick d s p).bind fun click =>
      (Window.step d.host s.service (.record click)).map fun service => (service, s.orphans)
  | .topic .restart =>
    some ({ s.service with buckets := .empty, inFlight := [] },
      s.orphans ++ unapplied s.service.inFlight)
  | .topic _ => some (s.service, s.orphans)
  | .flushing a _ =>
    (Window.step d.host s.service a).map fun service =>
      (service, s.orphans ++ unapplied (givenUp s.service a))
  | .applyLate i =>
    s.orphans[i]?.map fun batch =>
      ({ s.service with table := s.service.table ++ Window.flushRows batch }, s.orphans.eraseIdx i)

/-- One action. -/
def step (d : Deployment ι) (s : State ι) (a : Action ι) : Option (State ι) :=
  (run (moveGroup d) s.group (d.groupActions a)).bind fun group =>
    (serve d s a).map fun served => ⟨group, served.1, served.2⟩

/-- An empty topic, and an aggregator with nothing in memory before an empty table. -/
def fresh : State ι := ⟨.initial (), .start [], []⟩

/-! ## The group -/

theorem step_eq_some {a : Action ι} (h : step d s a = some t) :
    run (moveGroup d) s.group (d.groupActions a) = some t.group ∧
      serve d s a = some (t.service, t.orphans) := by
  obtain ⟨group, hgroup, hrest⟩ := Option.bind_eq_some_iff.1 h
  obtain ⟨served, hserved, rfl⟩ := Option.map_eq_some_iff.1 hrest
  exact ⟨hgroup, hserved⟩

/-- The group of a run of the pipeline is in a state of a run of the group. -/
theorem group_run (h : run (step d) s as = some t) :
    run (moveGroup d) s.group (as.flatMap d.groupActions) = some t.group := by
  apply run_invariant (step d)
    (P := fun as t => run (moveGroup d) s.group (as.flatMap d.groupActions) = some t.group) _ _ h
  · rfl
  · intro as t a u _ ih ha
    rw [List.flatMap_append, run_append, ih]
    change run (moveGroup d) t.group ([a].flatMap d.groupActions) = _
    rw [List.flatMap_singleton]
    exact (step_eq_some ha).1

theorem sound (h : run (step d) fresh as = some t) :
    Sound d.route () (fun _ _ => some ()) t.group :=
  sound_of_run (group_run h)

theorem log_eq (h : run (step d) fresh as = some t) : t.group.log = d.messages as := by
  rw [log_eq_of_run (group_run h), appendsOf_groupActions]
  rfl

/-- The clicks that the aggregator has been handed since it started. -/
def handedClicks (t : State ι) : List Window.ClickEnvelope :=
  t.group.handed.map fun x => x.record.click

end Pipeline

end AdClick.Pipeline.Windowing
