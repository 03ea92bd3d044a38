import AdClick.Pipeline.Windowing

/-!
# What the windowing pipeline stores

In every run, every row of the table is that of an ad and a minute with a posted click, and counts
at most the clicks posted for them, once more than the partition of the ad was rebalanced
(`rows_never_overcount`): restarts, inserts that failed or came late and overlapping flushes make a
row too small, but only a rebalance, after which the same process is handed records again, makes it
too large.
-/

set_option autoImplicit false

namespace AdClick.Pipeline.Windowing

open AdClick.Counter AdClick.Ecma AdClick.Ingest AdClick.Ingest.Windowed AdClick.Library
open AdClick.Window (Buckets WellKeyed pairCount pairOf rowKey tableCount windowKey)

variable {ι : Type} {d : Deployment ι} {s t : State ι} {as : List (Action ι)}

/-! ## Bounds on the counts -/

/-- Buckets that count no more than a bound. -/
structure Within (bound : String → MinuteWindow → Nat) (buckets : Buckets) : Prop where
  wellKeyed : WellKeyed buckets
  count_le : ∀ adId window, buckets.count (windowKey adId window) ≤ bound adId window

/-- A table whose rows are of a pair with a positive bound, and count no more than it. -/
def RowsWithin (bound : String → MinuteWindow → Nat) (table : List Window.Row) : Prop :=
  ∀ key n, tableCount table key = some n →
    ∃ adId window, key = rowKey adId window ∧ 0 < n ∧ n ≤ bound adId window

variable {bound bound' : String → MinuteWindow → Nat}

theorem Within.mono {buckets : Buckets} (h : Within bound buckets)
    (hle : ∀ adId window, bound adId window ≤ bound' adId window) : Within bound' buckets where
  wellKeyed := h.wellKeyed
  count_le adId window := Nat.le_trans (h.count_le adId window) (hle adId window)

theorem within_empty : Within bound .empty where
  wellKeyed := Window.wellKeyed_empty
  count_le _ _ := Nat.zero_le _

theorem RowsWithin.mono {table : List Window.Row} (h : RowsWithin bound table)
    (hle : ∀ adId window, bound adId window ≤ bound' adId window) : RowsWithin bound' table := by
  intro key n hcount
  obtain ⟨adId, window, hkey, hpos, hn⟩ := h key n hcount
  exact ⟨adId, window, hkey, hpos, Nat.le_trans hn (hle adId window)⟩

/-- The rows of a batch within a bound can be added to the table. -/
theorem RowsWithin.append {table : List Window.Row} {batch : Buckets}
    (h : RowsWithin bound table) (hbatch : Within bound batch) :
    RowsWithin bound (table ++ Window.flushRows batch) := by
  intro key n hcount
  rw [Window.tableCount_append] at hcount
  cases hrows : tableCount (Window.flushRows batch) key with
  | none =>
    rw [hrows] at hcount
    exact h key n hcount
  | some m =>
    rw [hrows] at hcount
    cases hcount
    -- the row is that of a bucket of the batch
    obtain ⟨row, hrow, rfl⟩ := Option.map_eq_some_iff.1 hrows
    obtain ⟨adId, window, hkey, hget⟩ :=
      hbatch.wellKeyed.of_mem_flushRows (mem_of_collapse Window.Row.key hrow)
    have hcount : batch.count (windowKey adId window) = row.count := by
      rw [InsertionMap.count, hget]
      rfl
    refine ⟨adId, window, ?_, (hbatch.wellKeyed _ _ hget).1, ?_⟩
    · rw [← hkey, key_of_collapse Window.Row.key hrow]
    · rw [← hcount]
      exact hbatch.count_le adId window

theorem mem_inFlight_of_givenUp (service : Window.System) (a : Window.Action) :
    ∀ insert ∈ givenUp service a, insert ∈ service.inFlight := by
  intro insert hmem
  cases a with
  | insertFailure i => exact List.mem_of_getElem? (Option.mem_toList.1 hmem)
  | record envelope => cases hmem
  | flushStart => cases hmem
  | serverApply i => cases hmem
  | insertSuccess i => cases hmem

/-- The buckets count no more than the process has been handed, and whatever has been sent no more
than the bound. -/
structure Bounded (d : Deployment ι) (bound : String → MinuteWindow → Nat) (s : State ι) :
    Prop where
  buckets : Within (pairCount d.host (handedClicks s)) s.service.buckets
  inFlight : ∀ insert ∈ s.service.inFlight, Within bound insert.batch
  orphans : ∀ batch ∈ s.orphans, Within bound batch
  table : RowsWithin bound s.service.table

theorem bounded_fresh (d : Deployment ι) : Bounded d bound fresh where
  buckets := within_empty
  inFlight insert hmem := by cases hmem
  orphans batch hmem := by cases hmem
  table key n hcount := by cases hcount

namespace Bounded

theorem mono (h : Bounded d bound s)
    (hle : ∀ adId window, bound adId window ≤ bound' adId window) : Bounded d bound' s where
  buckets := h.buckets
  inFlight insert hmem := (h.inFlight insert hmem).mono hle
  orphans batch hmem := (h.orphans batch hmem).mono hle
  table := h.table.mono hle

theorem table_apply (h : Bounded d bound s) {insert : Window.Insert}
    (hmem : insert ∈ s.service.inFlight) : RowsWithin bound (insert.apply s.service.table) := by
  unfold Window.Insert.apply
  split
  · exact h.table
  · exact h.table.append (h.inFlight insert hmem)

/-- What was sent stays within the bounds when nobody waits for it any more. -/
theorem orphans_append (h : Bounded d bound s) {inserts : List Window.Insert}
    (hsub : ∀ insert ∈ inserts, insert ∈ s.service.inFlight) :
    ∀ batch ∈ s.orphans ++ unapplied inserts, Within bound batch := by
  intro batch hmem
  rcases List.mem_append.1 hmem with hmem | hmem
  · exact h.orphans batch hmem
  · obtain ⟨insert, hinsert, rfl⟩ := List.mem_map.1 hmem
    exact h.inFlight insert (hsub insert (List.mem_of_mem_filter hinsert))

/-- Recording a click that has just been handed over. -/
theorem within_afterRecord (h : Bounded d bound s) {click : Window.ClickEnvelope}
    (hbar : '|' ∉ click.adId.toList) (hhanded : handedClicks t = handedClicks s ++ [click]) :
    Within (pairCount d.host (handedClicks t))
      (Window.afterRecord d.host click s.service.buckets) where
  wellKeyed := Window.wellKeyed_afterRecord h.buckets.wellKeyed hbar
  count_le adId window := by
    have hsingle := Window.keyCount_windowKey d.host [click] adId window
    rw [Window.keyCount_single] at hsingle
    rw [hhanded, Window.afterRecord_eq, InsertionMap.count_tally, Window.pairCount_append, hsingle]
    exact Nat.add_le_add_right (h.buckets.count_le adId window) _

/-- The topic and the group can move on without the aggregator. -/
theorem of_unserved (h : Bounded d bound s) (hclicks : handedClicks t = handedClicks s)
    (hserved : some (s.service, s.orphans) = some (t.service, t.orphans)) : Bounded d bound t := by
  obtain ⟨hservice, horphans⟩ := Prod.mk.inj (Option.some.inj hserved)
  refine ⟨?_, ?_, ?_, ?_⟩
  · rw [hclicks, ← hservice]
    exact h.buckets
  · rw [← hservice]
    exact h.inFlight
  · rw [← horphans]
    exact h.orphans
  · rw [← hservice]
    exact h.table

/-- A step of a flush keeps the bounds, as long as the process has been handed no more than them. -/
theorem flushing (h : Bounded d bound s) {a : Window.Action} (idle : a.click? = none)
    (hhanded : ∀ adId window, pairCount d.host (handedClicks s) adId window ≤ bound adId window)
    {service : Window.System} (hstep : Window.Step d.host s.service a service) :
    Bounded d bound { s with service := service } := by
  cases hstep with
  | record envelope => cases idle
  | flushIdle hsize => exact h
  | flushStart hsize =>
    -- what is sent was recorded from what the process has been handed
    refine ⟨h.buckets, ?_, h.orphans, h.table⟩
    intro insert hmem
    rcases List.mem_append.1 hmem with hmem | hmem
    · exact h.inFlight insert hmem
    · rw [List.mem_singleton.1 hmem]
      exact h.buckets.mono hhanded
  | serverApply i batch hi =>
    have hbatch := h.inFlight _ (List.mem_of_getElem? hi)
    refine ⟨h.buckets, ?_, h.orphans, h.table.append hbatch⟩
    intro insert hmem
    rcases List.mem_or_eq_of_mem_set hmem with hmem | rfl
    · exact h.inFlight insert hmem
    · exact hbatch
  | insertSuccess i insert hi =>
    -- an insert that succeeds clears the buckets, whatever they hold by now
    refine ⟨within_empty, ?_, h.orphans, h.table_apply (List.mem_of_getElem? hi)⟩
    intro insert hmem
    exact h.inFlight insert (List.mem_of_mem_eraseIdx hmem)
  | insertFailure i insert hi =>
    refine ⟨h.buckets, ?_, h.orphans, h.table⟩
    intro insert hmem
    exact h.inFlight insert (List.mem_of_mem_eraseIdx hmem)

end Bounded

/-! ## One action -/

theorem handedClicks_eq (t : State ι) :
    handedClicks t = (t.group.handed.map Handed.record).map Message.click := by
  rw [List.map_map]
  rfl

variable [DecidableEq ι]

/-- What a delivery does: the click of the next message is recorded. -/
theorem step_deliver_eq_some {p : ι} (h : step d s (.topic (.deliver p)) = some t) :
    ∃ message, message ∈ s.group.log ∧ t.group.log = s.group.log ∧
      handedClicks t = handedClicks s ++ [message.click] ∧ t.orphans = s.orphans ∧
      t.service = { s.service with
        buckets := Window.afterRecord d.host message.click s.service.buckets } := by
  obtain ⟨hgroup, hserved⟩ := step_eq_some h
  obtain ⟨group, hmoved, hrun⟩ := Option.bind_eq_some_iff.1 hgroup
  cases hrun
  obtain ⟨message, process, hmessage, -, hgroup'⟩ := groupStep_deliver_eq_some hmoved
  obtain ⟨click, hclick, hservice⟩ := Option.bind_eq_some_iff.1 hserved
  rw [nextClick, hmessage, Option.bind_some, readClick_valueOf] at hclick
  cases hclick
  obtain ⟨service, hrecord, hpair⟩ := Option.map_eq_some_iff.1 hservice
  cases hrecord
  obtain ⟨hservice', horphans⟩ := Prod.mk.inj hpair
  refine ⟨message, (mem_ofPartition.1 (List.mem_of_getElem? hmessage)).1, ?_, ?_, horphans.symm,
    hservice'.symm⟩
  · rw [hgroup']
  · rw [handedClicks, hgroup', List.map_append]
    rfl

/-- What the process has been handed changes with deliveries and restarts only. -/
theorem handedClicks_of_step {a : Action ι} (h : step d s a = some t)
    (hquiet : ∀ b ∈ d.groupActions a, b.isQuiet = true) : handedClicks t = handedClicks s := by
  rw [handedClicks, handed_eq_of_run_of_isQuiet (step_eq_some h).1 hquiet]
  rfl

theorem handedClicks_of_topic {a : TopicAction ι Post} (h : step d s (.topic a) = some t)
    (hdeliver : ∀ p, a ≠ .deliver p) (hrestart : a ≠ .restart) :
    handedClicks t = handedClicks s :=
  handedClicks_of_step h (TopicAction.isQuiet_groupActions hdeliver hrestart)

namespace Bounded

theorem deliver (h : Bounded d bound s)
    (hbar : ∀ message ∈ s.group.log, '|' ∉ message.click.adId.toList) {p : ι}
    (ha : Windowing.step d s (.topic (.deliver p)) = some t) : Bounded d bound t := by
  obtain ⟨message, hmessage, -, hclicks, horphans, hservice⟩ := step_deliver_eq_some ha
  refine ⟨?_, ?_, ?_, ?_⟩
  · rw [hservice]
    exact h.within_afterRecord (hbar message hmessage) hclicks
  · rw [hservice]
    exact h.inFlight
  · rw [horphans]
    exact h.orphans
  · rw [hservice]
    exact h.table

theorem applyLate (h : Bounded d bound s) {i : Nat}
    (ha : Windowing.step d s (.applyLate i) = some t) : Bounded d bound t := by
  have hclicks := handedClicks_of_step ha (by intro b hb; cases hb)
  obtain ⟨-, hserved⟩ := step_eq_some ha
  obtain ⟨batch, hbatch, hpair⟩ := Option.map_eq_some_iff.1 hserved
  obtain ⟨hservice, horphans⟩ := Prod.mk.inj hpair
  refine ⟨?_, ?_, ?_, ?_⟩
  · rw [hclicks, ← hservice]
    exact h.buckets
  · rw [← hservice]
    exact h.inFlight
  · rw [← horphans]
    intro batch hmem
    exact h.orphans batch (List.mem_of_mem_eraseIdx hmem)
  · rw [← hservice]
    exact h.table.append (h.orphans batch (List.mem_of_getElem? hbatch))

/-- The buckets are lost, and what was sent can still be applied. -/
theorem restart (h : Bounded d bound s)
    (ha : Windowing.step d s (.topic .restart) = some t) : Bounded d bound t := by
  obtain ⟨-, hserved⟩ := step_eq_some ha
  obtain ⟨hservice, horphans⟩ := Prod.mk.inj (Option.some.inj hserved)
  refine ⟨?_, ?_, ?_, ?_⟩
  · rw [← hservice]
    exact within_empty
  · rw [← hservice]
    intro insert hmem
    cases hmem
  · rw [← horphans]
    exact h.orphans_append fun _ hinsert => hinsert
  · rw [← hservice]
    exact h.table

/-- Every action keeps the bounds. -/
theorem step (h : Bounded d bound s)
    (hhanded : ∀ adId window, pairCount d.host (handedClicks s) adId window ≤ bound adId window)
    (hbar : ∀ message ∈ s.group.log, '|' ∉ message.click.adId.toList) {a : Action ι}
    (ha : Windowing.step d s a = some t) : Bounded d bound t := by
  cases a with
  | topic a =>
    cases a with
    | deliver p => exact h.deliver hbar ha
    | restart => exact h.restart ha
    | post request =>
      exact h.of_unserved (handedClicks_of_topic ha (by simp) (by simp)) (step_eq_some ha).2
    | commit p offset =>
      exact h.of_unserved (handedClicks_of_topic ha (by simp) (by simp)) (step_eq_some ha).2
    | rebalance p =>
      exact h.of_unserved (handedClicks_of_topic ha (by simp) (by simp)) (step_eq_some ha).2
  | flushing a idle =>
    have hclicks := handedClicks_of_step ha (by intro b hb; cases hb)
    obtain ⟨-, hserved⟩ := step_eq_some ha
    obtain ⟨service, hservice, hpair⟩ := Option.map_eq_some_iff.1 hserved
    obtain ⟨rfl, horphans⟩ := Prod.mk.inj hpair
    have hnext := h.flushing idle hhanded (Window.step_iff.1 hservice)
    refine ⟨?_, hnext.inFlight, ?_, hnext.table⟩
    · rw [hclicks]
      exact hnext.buckets
    · rw [← horphans]
      exact h.orphans_append (mem_inFlight_of_givenUp s.service a)
  | applyLate i => exact h.applyLate ha

end Bounded

/-! ## Counting by ad and minute -/

/-- The messages of an ad are in its partition. -/
theorem route_of_mem_log (h : run (step d) fresh as = some t) (adId : String)
    (window : MinuteWindow) : ∀ message ∈ t.group.log, isOf d.host adId window message = true →
      d.route message = d.partitionOf adId := by
  rw [log_eq h]
  exact fun message hmessage => route_of_isOf hmessage

/-- The partition is taken away and given back. -/
def isRebalance (p : ι) : Action ι → Bool
  | .topic a => a.isRebalance p
  | .flushing _ _ => false
  | .applyLate _ => false

/-- The rebalances of a partition. -/
def rebalances (p : ι) (as : List (Action ι)) : Nat := as.countP (isRebalance p)

theorem rebalancesOf_groupActions (p : ι) (as : List (Action ι)) :
    rebalancesOf p (as.flatMap d.groupActions) = rebalances p as := by
  induction as with
  | nil => rfl
  | cons a as ih =>
    rw [List.flatMap_cons, rebalancesOf, List.countP_append, rebalances, List.countP_cons,
      Nat.add_comm]
    refine congrArg₂ (· + ·) ih ?_
    cases a with
    | topic a => exact TopicAction.rebalancesOf_groupActions p a
    | flushing a idle => rfl
    | applyLate i => rfl

/-- The clicks posted for an ad in a window, once more than the partition of the ad was
rebalanced. -/
def mostHanded (d : Deployment ι) (as : List (Action ι)) (adId : String) (window : MinuteWindow) :
    Nat :=
  (rebalances (d.partitionOf adId) as + 1) * pairCount d.host (d.clicks as) adId window

theorem mostHanded_le_snoc (d : Deployment ι) (as : List (Action ι)) (a : Action ι)
    (adId : String) (window : MinuteWindow) :
    mostHanded d as adId window ≤ mostHanded d (as ++ [a]) adId window := by
  rw [mostHanded, mostHanded]
  apply Nat.mul_le_mul
  · rw [rebalances, rebalances, List.countP_append]
    exact Nat.succ_le_succ (Nat.le_add_right _ _)
  · rw [Deployment.clicks, Deployment.clicks, Deployment.messages, Deployment.messages,
      List.flatMap_append, List.map_append, Window.pairCount_append]
    exact Nat.le_add_right _ _

theorem pairCount_handedClicks_le (h : run (step d) fresh as = some t) (adId : String)
    (window : MinuteWindow) :
    pairCount d.host (handedClicks t) adId window ≤ mostHanded d as adId window := by
  have hle := countP_handed_le (group_run h) (route_of_mem_log h adId window)
  rw [log_eq h, rebalancesOf_groupActions] at hle
  rw [handedClicks_eq, pairCount_map_click, mostHanded, Deployment.clicks, pairCount_map_click]
  exact hle

/-! ## A deployment with two partitions -/

def plainDeployment : Deployment Bool where
  transform := some
  write _ := []
  partitionOf key := key = "ad-1"
  host := utcHost

def plainPost : Action Bool := .topic (.post ⟨plainCall, plainBody⟩)

/-- A click is recorded twice, before and after a rebalance, and flushed. -/
def redeliveredRun : List (Action Bool) :=
  [plainPost, .topic (.deliver true), .topic (.rebalance true), .topic (.deliver true), .startFlush,
    .succeedFirst]

theorem exists_redeliveredRun :
    ∃ t, run (step plainDeployment) fresh redeliveredRun = some t := ⟨_, rfl⟩

/-! ## No row counts too much -/

theorem bounded_of_run (h : run (step d) fresh as = some t) :
    (∀ message ∈ d.messages as, '|' ∉ message.click.adId.toList) →
      Bounded d (mostHanded d as) t := by
  apply run_invariant (step d)
    (P := fun as t => (∀ message ∈ d.messages as, '|' ∉ message.click.adId.toList) →
      Bounded d (mostHanded d as) t) _ _ h
  · intro _
    exact bounded_fresh d
  · intro as t a u hrun ih ha hbar
    have hbefore : ∀ message ∈ d.messages as, '|' ∉ message.click.adId.toList := by
      intro message hmessage
      apply hbar
      rw [Deployment.messages, List.flatMap_append]
      exact List.mem_append_left _ hmessage
    -- the bound that the state met before the action grows with the action
    refine ((ih hbefore).step (pairCount_handedClicks_le hrun) ?_ ha).mono
      (mostHanded_le_snoc d as a)
    rw [log_eq hrun]
    exact hbefore

/-- In every run, whatever is in the table is the row of an ad and a minute that clicks were posted
for, and neither the row nor the bucket counts more than these clicks, once more than the partition
of the ad was rebalanced. -/
theorem rows_never_overcount (d : Deployment ι) (as : List (Action ι)) (t : State ι)
    (h : run (step d) fresh as = some t)
    (hbar : ∀ message ∈ d.messages as, '|' ∉ message.value.adId.toList) :
    (∀ adId window, t.service.buckets.count (windowKey adId window) ≤
      (rebalances (d.partitionOf adId) as + 1) * pairCount d.host (d.clicks as) adId window) ∧
    ∀ key n, tableCount t.service.table key = some n →
      ∃ adId window, key = rowKey adId window ∧ 0 < n ∧
        n ≤ (rebalances (d.partitionOf adId) as + 1) *
          pairCount d.host (d.clicks as) adId window := by
  have hbounded := bounded_of_run h hbar
  constructor
  · intro adId window
    exact Nat.le_trans (hbounded.buckets.count_le adId window)
      (pairCount_handedClicks_le h adId window)
  · exact hbounded.table

/-- The row of the click counts at most twice the clicks posted. -/
theorem rows_of_redeliveredRun :
    ∃ t, run (step plainDeployment) fresh redeliveredRun = some t ∧
      ∀ window n, tableCount t.service.table (rowKey "ad-1" window) = some n →
        n ≤ 2 * pairCount utcHost (plainDeployment.clicks redeliveredRun) "ad-1" window := by
  obtain ⟨t, ht⟩ := exists_redeliveredRun
  obtain ⟨-, hrows⟩ := rows_never_overcount plainDeployment redeliveredRun t ht (by decide)
  refine ⟨t, ht, ?_⟩
  intro window n hcount
  obtain ⟨adId, window', hkey, -, hle⟩ := hrows _ n hcount
  obtain ⟨rfl, rfl⟩ := Window.rowKey_injective hkey
  exact hle

end AdClick.Pipeline.Windowing
