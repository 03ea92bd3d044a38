import AdClick.Pipeline.Storing

/-!
# What a restart restores

Whatever has happened before, a restarted aggregator that reads to the ends of the partitions and
flushes once writes the row of every ad and minute with a click at or behind the committed offset
of its partition, and counts there the clicks from the offset on. So a row is right again, whatever
earlier flushes have written, when the committed offset lies before all clicks of its ad and minute
(`restart_restores_rows`). An insert from before the restart that is not applied yet stays pending,
and overwrites its rows again if it is applied later.
-/

set_option autoImplicit false

namespace AdClick.Pipeline.Windowing

open AdClick.Counter AdClick.Ecma AdClick.Ingest AdClick.Ingest.Windowed AdClick.Library
open AdClick.Window (Buckets WellKeyed pairCount pairOf rowKey tableCount windowKey recordAll)

variable {ι : Type} {d : Deployment ι} {s t : State ι} {as : List (Action ι)}

/-- Deliveries of the partitions, one after the other. -/
def deliveries (ps : List ι) : List (Action ι) := ps.map fun p => .topic (.deliver p)

theorem messages_restarted (d : Deployment ι) (as : List (Action ι)) (ps : List ι) :
    d.messages ((as ++ [.topic .restart]) ++ deliveries ps) = d.messages as := by
  have hdeliveries : d.messages (deliveries ps) = [] := by
    rw [Deployment.messages, deliveries, List.flatMap_map]
    exact List.flatMap_eq_nil_iff.2 fun _ _ => rfl
  rw [Deployment.messages, List.flatMap_append, List.flatMap_append]
  change (_ ++ []) ++ d.messages (deliveries ps) = _
  rw [hdeliveries, List.append_nil, List.append_nil]
  rfl

variable [DecidableEq ι]

/-! ## The partition of an ad -/

theorem countP_ofPartition (d : Deployment ι) (as : List (Action ι)) (adId : String)
    (window : MinuteWindow) :
    (ofPartition d.route (d.partitionOf adId) (d.messages as)).countP (isOf d.host adId window) =
      pairCount d.host (d.clicks as) adId window := by
  rw [Deployment.clicks, pairCount_map_click, ofPartition, List.countP_filter]
  apply List.countP_congr
  intro message hmessage
  rw [Bool.and_eq_true, decide_eq_true_eq]
  exact and_iff_left_of_imp (route_of_isOf hmessage)

/-- The clicks of an ad reach the aggregator through its partition. -/
theorem pairCount_handedClicks (h : run (step d) fresh as = some t) (adId : String)
    (window : MinuteWindow) :
    pairCount d.host (handedClicks t) adId window =
      (t.group.recordsOf (d.partitionOf adId)).countP (isOf d.host adId window) := by
  rw [handedClicks_eq, pairCount_map_click]
  exact (sound h).countP_handed (route_of_mem_log h adId window)

/-! ## Reading on -/

/-- The aggregator has done nothing but record the clicks it has been handed. -/
def OnlyRecorded (d : Deployment ι) (s : State ι) : Prop :=
  s.service.buckets = recordAll d.host (handedClicks s) .empty ∧ s.service.inFlight = []

theorem onlyRecorded_deliver {p : ι} (h : OnlyRecorded d s)
    (hstep : step d s (.topic (.deliver p)) = some t) :
    OnlyRecorded d t ∧ t.service.table = s.service.table ∧ t.orphans = s.orphans := by
  obtain ⟨message, -, -, hclicks, horphans, hservice⟩ := step_deliver_eq_some hstep
  refine ⟨⟨?_, ?_⟩, ?_, horphans⟩
  · rw [hservice, hclicks, recordAll, List.foldl_append, h.1]
    rfl
  · rw [hservice]
    exact h.2
  · rw [hservice]

/-- Whenever the group can hand over a message, its click can be recorded. -/
theorem exists_step_deliver {p : ι} {group : GroupState ι Message Unit}
    (h : moveGroup d s.group (.deliver p) = some group) :
    ∃ t, step d s (.topic (.deliver p)) = some t ∧ t.group = group := by
  obtain ⟨message, process, hmessage, -, -⟩ := groupStep_deliver_eq_some h
  have hclick : nextClick d s p = some message.click := by
    rw [nextClick, hmessage]
    exact readClick_valueOf d.write message
  have hgroup : run (moveGroup d) s.group [.deliver p] = some group :=
    Option.bind_eq_some_iff.2 ⟨group, h, rfl⟩
  obtain ⟨served, hserved⟩ : ∃ served, serve d s (.topic (.deliver p)) = some served := by
    rw [serve, hclick]
    exact ⟨_, rfl⟩
  refine ⟨⟨group, served.1, served.2⟩, ?_, rfl⟩
  rw [step, Deployment.groupActions, TopicAction.groupActions, hgroup, hserved]
  rfl

/-- The deliveries of the group are deliveries of the pipeline. -/
theorem exists_run_deliveries {ps : List ι} {group : GroupState ι Message Unit}
    (h : run (moveGroup d) s.group (ps.map .deliver) = some group) (hs : OnlyRecorded d s) :
    ∃ t, run (step d) s (deliveries ps) = some t ∧ t.group = group ∧ OnlyRecorded d t ∧
      t.service.table = s.service.table ∧ t.orphans = s.orphans := by
  induction ps generalizing s with
  | nil =>
    cases h
    exact ⟨s, rfl, rfl, hs, rfl, rfl⟩
  | cons p ps ih =>
    obtain ⟨g, hg, hrest⟩ := Option.bind_eq_some_iff.1 h
    obtain ⟨u, hu, rfl⟩ := exists_step_deliver hg
    obtain ⟨hrecorded, htable, horphans⟩ := onlyRecorded_deliver hs hu
    obtain ⟨t, hrun, hgroup, ht, htable', horphans'⟩ := ih hrest hrecorded
    exact ⟨t, Option.bind_eq_some_iff.2 ⟨u, hu, hrun⟩, hgroup, ht, htable'.trans htable,
      horphans'.trans horphans⟩

/-! ## Flushing -/

theorem step_flushing {a : Window.Action} (idle : a.click? = none) {service : Window.System}
    (h : Window.step d.host s.service a = some service) (hkept : givenUp s.service a = []) :
    step d s (.flushing a idle) = some ⟨s.group, service, s.orphans⟩ := by
  change Option.map _ (Option.map _ (Window.step d.host s.service a)) = _
  rw [h, hkept, unapplied, List.filter_nil, List.map_nil, List.append_nil]
  rfl

/-- A flush whose insert succeeds. -/
def flushOnce (ι : Type) : List (Action ι) := [.startFlush, .succeedFirst]

/-- With no flush waiting, a flush writes the rows of all buckets over the table. -/
theorem exists_flushed (hidle : s.service.inFlight = []) (hkeyed : WellKeyed s.service.buckets) :
    ∃ flush t, (flush = [.startFlush] ∨ flush = flushOnce ι) ∧
      run (step d) s flush = some t ∧ t.group = s.group ∧ t.service.buckets = .empty ∧
      t.service.inFlight = [] ∧ t.orphans = s.orphans ∧
      ∀ adId window, tableCount t.service.table (rowKey adId window) =
        if s.service.buckets.count (windowKey adId window) = 0 then
          tableCount s.service.table (rowKey adId window)
        else some (s.service.buckets.count (windowKey adId window)) := by
  by_cases hsize : s.service.buckets.size = 0
  · -- a flush of empty buckets does not call ClickHouse
    have hempty : s.service.buckets = .empty := InsertionMap.size_eq_zero_iff.1 hsize
    have hstep : Window.step d.host s.service .flushStart = some s.service :=
      Window.step_iff.2 (.flushIdle s.service hsize)
    refine ⟨_, s, Or.inl rfl, ?_, rfl, hempty, hidle, rfl, ?_⟩
    · rw [run, Action.startFlush, step_flushing rfl hstep rfl]
      rfl
    · intro adId window
      rw [hempty, InsertionMap.count_empty, if_pos rfl]
  · let started : Window.System := { s.service with inFlight := [⟨s.service.buckets, false⟩] }
    let flushed : Window.System :=
      { buckets := .empty
        inFlight := []
        completed := s.service.completed ++ [s.service.buckets]
        table := s.service.table ++ Window.flushRows s.service.buckets }
    have hstart : Window.step d.host s.service .flushStart = some started := by
      rw [Window.step, Window.flushBatch, if_neg hsize, hidle]
      rfl
    have hsuccess : Window.step d.host started (.insertSuccess 0) = some flushed := rfl
    refine ⟨_, ⟨s.group, flushed, s.orphans⟩, Or.inr rfl, ?_, rfl, rfl, rfl, rfl, ?_⟩
    · rw [flushOnce, run, Action.startFlush, step_flushing rfl hstart rfl, Option.bind_some, run,
        Action.succeedFirst]
      rw [step_flushing (s := ⟨s.group, started, s.orphans⟩) rfl hsuccess rfl]
      rfl
    · intro adId window
      exact Window.tableCount_append_flushRows hkeyed s.service.table adId window

/-! ## Restarting -/

/-- The messages of an ad's partition from the committed offset on. -/
def fromCommitted (d : Deployment ι) (s : State ι) (adId : String) : List Message :=
  (ofPartition d.route (d.partitionOf adId) s.group.log).drop
    (s.group.committed (d.partitionOf adId))

/-- The messages of an ad's partition before the committed offset. -/
def beforeCommitted (d : Deployment ι) (s : State ι) (adId : String) : List Message :=
  (ofPartition d.route (d.partitionOf adId) s.group.log).take
    (s.group.committed (d.partitionOf adId))

theorem exists_restarted (d : Deployment ι) (s : State ι) :
    ∃ u, step d s (.topic .restart) = some u ∧ OnlyRecorded d u ∧
      u.service.table = s.service.table ∧
      u.orphans = s.orphans ++ unapplied s.service.inFlight ∧
      u.group = { s.group with
        position := s.group.committed
        started := s.group.committed
        handed := [] } :=
  ⟨⟨_, _, _⟩, rfl, ⟨rfl, rfl⟩, rfl, rfl, rfl⟩

/-- After a restart and deliveries to the ends of the partitions, the process has been handed the
clicks from the committed offsets on. -/
theorem pairCount_caughtUp {u : State ι} {ps : List ι} (h : run (step d) fresh as = some s)
    (hu : step d s (.topic .restart) = some u) (hgroup : u.group = { s.group with
        position := s.group.committed
        started := s.group.committed
        handed := [] })
    (ht : run (step d) u (deliveries ps) = some t) (hcaught : t.group.CaughtUp d.route)
    (adId : String) (window : MinuteWindow) :
    pairCount d.host (handedClicks t) adId window =
      pairCount d.host ((fromCommitted d s adId).map Message.click) adId window := by
  have hsu : run (step d) fresh (as ++ [.topic .restart]) = some u := run_snoc (step d) h hu
  have hrun : run (step d) fresh ((as ++ [.topic .restart]) ++ deliveries ps) = some t := by
    rw [run_append, hsu]
    exact ht
  have hdeliveries : run (moveGroup d) u.group (ps.map .deliver) = some t.group := by
    have hmoved := group_run ht
    rw [deliveries, List.flatMap_map] at hmoved
    rw [List.map_eq_flatMap]
    exact hmoved
  have hstart : ∀ p, u.group.recordsOf p ++ (ofPartition d.route p u.group.log).drop
      (u.group.position p) = (ofPartition d.route p u.group.log).drop (u.group.started p) := by
    intro p
    rw [hgroup]
    rfl
  have hrecords := recordsOf_of_caughtUp (sound hsu) (hstart (d.partitionOf adId)) hdeliveries
    (rebalancesOf_deliveries _ ps) hcaught
  rw [started_eq_of_run hdeliveries (by simp), log_eq hrun, messages_restarted, ← log_eq h,
    hgroup] at hrecords
  rw [pairCount_handedClicks hrun, hrecords, pairCount_map_click]
  rfl

/-- A pair without posted clicks has no row. -/
theorem tableCount_eq_none (h : run (step d) fresh as = some s)
    (hbar : ∀ message ∈ d.messages as, '|' ∉ message.click.adId.toList) {adId : String}
    {window : MinuteWindow} (hall : pairCount d.host (d.clicks as) adId window = 0) :
    tableCount s.service.table (rowKey adId window) = none := by
  cases hrow : tableCount s.service.table (rowKey adId window) with
  | none => rfl
  | some n =>
    obtain ⟨adId', window', hkey, hpos, hle⟩ := (bounded_of_run h hbar).table _ n hrow
    obtain ⟨rfl, rfl⟩ := Window.rowKey_injective hkey
    rw [mostHanded, hall, Nat.mul_zero] at hle
    exact absurd hle (Nat.not_le_of_gt hpos)

theorem pairCount_before_add_rest (h : run (step d) fresh as = some s) (adId : String)
    (window : MinuteWindow) :
    pairCount d.host ((beforeCommitted d s adId).map Message.click) adId window +
      pairCount d.host ((fromCommitted d s adId).map Message.click) adId window =
        pairCount d.host (d.clicks as) adId window := by
  rw [← Window.pairCount_append, ← List.map_append, beforeCommitted, fromCommitted,
    List.take_append_drop, pairCount_map_click, log_eq h, countP_ofPartition]

/-- From every state of every run, a restart, deliveries and a flush lead to a state in which all is
read and no flush waits, and in which the row of an ad and a minute holds the number of their clicks
from the committed offset on, if there is one; if none lies before the offset, it holds the number
of clicks that were posted. The only inserts that can still change a row are those from before the
restart that ClickHouse had not applied. No posted ad id contains the separator of the keys. -/
theorem restart_restores_rows [Fintype ι] (d : Deployment ι) (as : List (Action ι)) (s : State ι)
    (h : run (step d) fresh as = some s)
    (hbar : ∀ message ∈ d.messages as, '|' ∉ message.value.adId.toList) :
    ∃ (ps : List ι) (flush : List (Action ι)) (t : State ι),
      (flush = [.startFlush] ∨ flush = flushOnce ι) ∧
      run (step d) s (.topic .restart :: (deliveries ps ++ flush)) = some t ∧
      t.group.CaughtUp d.route ∧ t.service.buckets = .empty ∧ t.service.inFlight = [] ∧
      t.orphans = s.orphans ++ unapplied s.service.inFlight ∧
      ∀ adId window,
        let rest := pairCount d.host ((fromCommitted d s adId).map Message.click) adId window
        let before := pairCount d.host ((beforeCommitted d s adId).map Message.click) adId window
        let all := pairCount d.host (d.clicks as) adId window
        (rest ≠ 0 → tableCount t.service.table (rowKey adId window) = some rest) ∧
        (rest = 0 → tableCount t.service.table (rowKey adId window) =
          tableCount s.service.table (rowKey adId window)) ∧
        (before = 0 → tableCount t.service.table (rowKey adId window) =
          if all = 0 then none else some all) := by
  obtain ⟨u, hu, hrecorded, htable, horphans, hgroup⟩ := exists_restarted d s
  have hsu : run (step d) fresh (as ++ [.topic .restart]) = some u := run_snoc (step d) h hu
  obtain ⟨ps, group, hdeliveries, -, hcaught⟩ := exists_caughtUp (P := fun _ => True) (sound hsu)
    (fun _ _ _ _ => ⟨(), rfl, trivial⟩) trivial
  obtain ⟨v, hv, rfl, ⟨hbuckets, hidle⟩, htable', horphans'⟩ :=
    exists_run_deliveries hdeliveries hrecorded
  have hkeyed : WellKeyed v.service.buckets := by
    have hrun : run (step d) fresh ((as ++ [.topic .restart]) ++ deliveries ps) = some v := by
      rw [run_append, hsu]
      exact hv
    refine (bounded_of_run hrun ?_).buckets.wellKeyed
    rw [messages_restarted]
    exact hbar
  obtain ⟨flush, t, hflush, ht, hgroup', hempty, hidle', horphans'', hrows⟩ :=
    exists_flushed hidle hkeyed
  have hcount : ∀ adId window, v.service.buckets.count (windowKey adId window) =
      pairCount d.host ((fromCommitted d s adId).map Message.click) adId window := by
    intro adId window
    rw [← pairCount_caughtUp h hu hgroup hv hcaught, hbuckets, Window.count_recordAll,
      InsertionMap.count_empty, Nat.zero_add]
  refine ⟨ps, flush, t, hflush, ?_, ?_, hempty, hidle',
    horphans''.trans (horphans'.trans horphans), ?_⟩
  · refine Option.bind_eq_some_iff.2 ⟨u, hu, ?_⟩
    rw [run_append, hv]
    exact ht
  · rw [hgroup']
    exact hcaught
  intro adId window rest before all
  have hrow := hrows adId window
  rw [hcount, htable', htable] at hrow
  refine ⟨?_, ?_, ?_⟩
  · intro hrest
    rw [hrow, if_neg hrest]
  · intro hrest
    rw [hrow, if_pos hrest]
  · intro hbefore
    -- no click was committed, so the rest is all there is
    have hsum : before + rest = all := pairCount_before_add_rest h adId window
    rw [hrow]
    split
    · rename_i hrest
      have hall : all = 0 := by omega
      rw [if_pos hall, tableCount_eq_none h hbar hall]
    · rename_i hrest
      have hall : all = rest := by omega
      rw [hall, if_neg hrest]

/-- The first click is recorded, committed and lost. -/
def lossyRun : List (Action Bool) :=
  [plainPost, .topic (.deliver true), .topic (.commit true 1), .topic .restart, plainPost,
    .topic (.deliver true)]

theorem exists_lossyRun :
    ∃ s, run (step plainDeployment) fresh lossyRun = some s ∧
      pairCount utcHost ((fromCommitted plainDeployment s "ad-1").map Message.click) "ad-1"
        plainCall.now.window = 1 := ⟨_, rfl, rfl⟩

/-- Another restart brings back the second click only. -/
theorem rows_of_lossyRun :
    ∃ s, run (step plainDeployment) fresh lossyRun = some s ∧
      ∃ (ps : List Bool) (flush : List (Action Bool)) (t : State Bool),
        run (step plainDeployment) s (.topic .restart :: (deliveries ps ++ flush)) = some t ∧
        tableCount t.service.table (rowKey "ad-1" plainCall.now.window) = some 1 := by
  obtain ⟨s, hs, hrest⟩ := exists_lossyRun
  obtain ⟨ps, flush, t, -, hrun, -, -, -, -, hrows⟩ :=
    restart_restores_rows plainDeployment lossyRun s hs (by decide)
  refine ⟨s, hs, ps, flush, t, hrun, ?_⟩
  obtain ⟨hrow, -, -⟩ := hrows "ad-1" plainCall.now.window
  rw [← hrest]
  apply hrow
  change pairCount utcHost _ _ _ ≠ 0
  omega

end AdClick.Pipeline.Windowing
