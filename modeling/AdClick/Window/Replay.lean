import AdClick.Window.StoredAggregate
import Mathlib.Data.List.Dedup

/-!
# Replay from a committed offset

The aggregator consumes a log, flushes, and later resumes from an offset that it had committed,
either in the same process or in a fresh one with empty buckets, and flushes again. `record` does
not look at the click id, and the flush after the replay replaces the row of every pair that occurs
in the replayed suffix, so what is stored of such a pair is its count in the suffix alone
(`tableCount_afterReplay`). That is its count in the log exactly when none of its clicks lie before
the offset (`storedDistinct_iff_offsetSplitsNoPair`).
-/

set_option autoImplicit false

namespace AdClick.Window

open AdClick.Library AdClick.Ecma

/-- Records a stretch of the log and flushes once. -/
def Store.consume (host : Host) (s : Store) (clicks : List ClickEnvelope) : Store :=
  s.run host (clicks.map .record ++ [.flush])

/-- How consumption resumes: in the same process, or in a fresh one. -/
inductive Resume where
  | rebalance
  | restart

/-- The store that the resumed consumer works on: a fresh process has lost the buckets. -/
def Resume.store : Resume → Store → Store
  | .rebalance, s => s
  | .restart, s => { s with buckets := .empty }

/-- The log up to `n`, a flush, then the log from the committed offset `c`, and another flush. -/
def afterReplay (host : Host) (log : List ClickEnvelope) (c n : Nat) (resume : Resume) : Store :=
  (resume.store (Store.empty.consume host (log.take n))).consume host (log.drop c)

/-- The distinct click ids of the log for an ad in a window. -/
def distinctClicks (host : Host) (log : List ClickEnvelope) (adId : String)
    (window : MinuteWindow) : Nat :=
  ((log.filter fun click => pairOf host click = some (adId, window)).map
    ClickEnvelope.clickId).dedup.length

/-- The collapsed table holds, of every pair, its number of distinct click ids. -/
def StoredDistinct (host : Host) (log : List ClickEnvelope) (table : List Row) : Prop :=
  ∀ adId window, tableCount table (rowKey adId window) =
    if distinctClicks host log adId window = 0 then none
    else some (distinctClicks host log adId window)

/-- No pair has clicks on both sides of the offset. -/
def OffsetSplitsNoPair (host : Host) (log : List ClickEnvelope) (c : Nat) : Prop :=
  ∀ adId window, pairCount host (log.take c) adId window = 0 ∨
    pairCount host (log.drop c) adId window = 0

/-! ## One stretch -/

theorem Store.run_records (host : Host) (s : Store) (clicks : List ClickEnvelope) :
    s.run host (clicks.map .record) = { s with buckets := recordAll host clicks s.buckets } := by
  induction clicks generalizing s with
  | nil => rfl
  | cons click clicks ih => exact ih (s.step host (.record click))

/-- From empty buckets, a stretch puts the rows of its clicks at the end of the table. -/
theorem Store.consume_eq (host : Host) {s : Store} (h : s.buckets = .empty)
    (clicks : List ClickEnvelope) :
    s.consume host clicks = ⟨.empty, s.table ++ flushRows (recordAll host clicks .empty)⟩ := by
  have hrun : s.consume host clicks =
      Store.flush { s with buckets := recordAll host clicks s.buckets } := by
    rw [Store.consume, Store.run_append, Store.run_records]
    rfl
  rw [hrun, h, Store.mk.injEq]
  exact ⟨Store.flush_buckets _, Store.flush_table _⟩

/-- A stretch replaces the count of every pair that occurs in it. -/
theorem Store.tableCount_consume (host : Host) {s : Store} (h : s.buckets = .empty)
    {clicks : List ClickEnvelope} (hbar : ∀ click ∈ clicks, '|' ∉ click.adId.toList)
    (adId : String) (window : MinuteWindow) :
    tableCount (s.consume host clicks).table (rowKey adId window) =
      if pairCount host clicks adId window = 0 then tableCount s.table (rowKey adId window)
      else some (pairCount host clicks adId window) := by
  rw [Store.consume_eq host h,
    tableCount_append_flushRows (wellKeyed_recordAll wellKeyed_empty hbar), count_recordAll,
    InsertionMap.count_empty, Nat.zero_add]

/-! ## Two stretches -/

/-- After its flush the first stretch has left nothing in memory, so it makes no difference whether
the process restarts. -/
theorem Resume.store_consume (host : Host) (resume : Resume) (clicks : List ClickEnvelope) :
    resume.store (Store.empty.consume host clicks) = Store.empty.consume host clicks := by
  cases resume with
  | rebalance => rfl
  | restart =>
    rw [Store.consume_eq host rfl]
    rfl

/-- The replayed suffix decides about every pair that occurs in it. -/
theorem tableCount_afterReplay (host : Host) {log : List ClickEnvelope}
    (hbar : ∀ click ∈ log, '|' ∉ click.adId.toList) (c n : Nat) (resume : Resume)
    (adId : String) (window : MinuteWindow) :
    tableCount (afterReplay host log c n resume).table (rowKey adId window) =
      if pairCount host (log.drop c) adId window = 0 then
        if pairCount host (log.take n) adId window = 0 then none
        else some (pairCount host (log.take n) adId window)
      else some (pairCount host (log.drop c) adId window) := by
  have hempty : (Store.empty.consume host (log.take n)).buckets = .empty := by
    rw [Store.consume_eq host rfl]
  have hdrop : ∀ click ∈ log.drop c, '|' ∉ click.adId.toList := by
    intro click hclick
    exact hbar click (List.mem_of_mem_drop hclick)
  have htake : ∀ click ∈ log.take n, '|' ∉ click.adId.toList := by
    intro click hclick
    exact hbar click (List.mem_of_mem_take hclick)
  rw [afterReplay, Resume.store_consume, Store.tableCount_consume host hempty hdrop,
    Store.tableCount_consume host rfl htake]
  rfl

/-- With distinct click ids, counting distinct ids is counting clicks. -/
theorem distinctClicks_eq (host : Host) {log : List ClickEnvelope}
    (hids : (log.map ClickEnvelope.clickId).Nodup) (adId : String) (window : MinuteWindow) :
    distinctClicks host log adId window = pairCount host log adId window := by
  have hsub : ((log.filter fun click => pairOf host click = some (adId, window)).map
      ClickEnvelope.clickId).Nodup :=
    hids.sublist (List.filter_sublist.map ClickEnvelope.clickId)
  rw [distinctClicks, hsub.dedup, List.length_map, ← List.countP_eq_length_filter, pairCount,
    List.count_filterMap]
  apply List.countP_congr
  intro click _
  simp

theorem pairCount_take_add_drop (host : Host) (log : List ClickEnvelope) (c : Nat) (adId : String)
    (window : MinuteWindow) :
    pairCount host (log.take c) adId window + pairCount host (log.drop c) adId window =
      pairCount host log adId window := by
  rw [← pairCount_append, List.take_append_drop]

/-- Two clicks of one minute. -/
def replayLog : List ClickEnvelope := [raceClick "c-1", raceClick "c-2"]

/-- The offset lies between the two clicks: after the replay of the second one, the table has
forgotten the first. -/
theorem replay_inside_window_is_wrong :
    ¬ StoredDistinct utcHost replayLog (afterReplay utcHost replayLog 1 2 .restart).table := by
  intro h
  have hstored := h "ad-1" raceWindow
  revert hstored
  decide

/-- After a replay the table holds the number of distinct click ids of every pair exactly when no
pair has clicks on both sides of the offset. -/
theorem storedDistinct_iff_offsetSplitsNoPair (host : Host) (log : List ClickEnvelope)
    (hids : (log.map ClickEnvelope.clickId).Nodup)
    (hbar : ∀ click ∈ log, '|' ∉ click.adId.toList) (c n : Nat) (hcn : c ≤ n)
    (resume : Resume) :
    StoredDistinct host log (afterReplay host log c n resume).table ↔
      OffsetSplitsNoPair host log c := by
  apply forall_congr'
  intro adId
  apply forall_congr'
  intro window
  have hlog := pairCount_take_add_drop host log c adId window
  -- what was consumed before the crash lies between what was committed and the whole log
  have hlow : pairCount host (log.take c) adId window ≤ pairCount host (log.take n) adId window :=
    ((List.take_sublist_take_left hcn).filterMap (pairOf host)).count_le (adId, window)
  have hhigh : pairCount host (log.take n) adId window ≤ pairCount host log adId window :=
    ((List.take_sublist n log).filterMap (pairOf host)).count_le (adId, window)
  rw [tableCount_afterReplay host hbar, distinctClicks_eq host hids]
  split
  · -- the suffix has no click of the pair, so the row is the one of the first stretch
    rename_i hdrop
    have hall : pairCount host (log.take n) adId window = pairCount host log adId window := by
      omega
    simp [hall, hdrop]
  · -- the row is the count of the suffix, which is all of it when the prefix has no click
    rename_i hdrop
    have hpos : pairCount host log adId window ≠ 0 := by
      omega
    rw [if_neg hpos, Option.some.injEq]
    omega

/-- With the offset before both clicks the replay stores both of them. -/
theorem storedDistinct_of_replayLog :
    StoredDistinct utcHost replayLog (afterReplay utcHost replayLog 0 1 .restart).table := by
  apply (storedDistinct_iff_offsetSplitsNoPair utcHost replayLog (by decide) (by decide) 0 1
    (by decide) .restart).2
  intro adId window
  exact Or.inl rfl

end AdClick.Window
