import AdClick.Window.System
import AdClick.Window.Table

/-!
# What the snapshot says

The reference aggregation of a list of clicks has one entry for every pair of an ad and a window
that occurs in it, with the pair's number of clicks (`SnapshotIsReference`). The service keeps the
pairs apart whatever the ad ids, but takes its keys apart at the first two `|`, and the encoder does
not escape them: an ad id that contains one never comes back. So the snapshot is the reference
aggregation exactly when no ad id contains a `|` (`snapshotIsReference_iff_noBar`).
-/

set_option autoImplicit false

namespace AdClick.Window

open AdClick.Library AdClick.Ecma

/-- The snapshot after the clicks has one entry per pair of an ad and a window, with the ad id, the
start of the window in ISO form and the pair's number of clicks; and the rows of a flush carry its
ad ids and counts. -/
structure SnapshotIsReference (host : Host) (clicks : List ClickEnvelope) : Prop where
  distinct : ((snapshot (recordAll host clicks .empty)).map Row.key).Nodup
  entries : ∀ row, row ∈ snapshot (recordAll host clicks .empty) ↔
    ∃ adId window, 0 < pairCount host clicks adId window ∧
      row = ⟨adId, isoString window.start, pairCount host clicks adId window⟩
  total : ((snapshot (recordAll host clicks .empty)).map Row.count).sum = clicks.length
  rows : (flushRows (recordAll host clicks .empty)).map (fun row => (row.adId, row.count)) =
    (snapshot (recordAll host clicks .empty)).map (fun row => (row.adId, row.count))

/-- The snapshot entry of one bucket. -/
def entryOf (bucket : String × Nat) : Row :=
  ⟨keyAdId bucket.1, keyWindowStart bucket.1, bucket.2⟩

theorem snapshot_eq (buckets : Buckets) : snapshot buckets = buckets.entries.map entryOf := rfl

theorem entryOf_windowKey {adId : String} (h : '|' ∉ adId.toList) (window : MinuteWindow)
    (n : Nat) : entryOf (windowKey adId window, n) = ⟨adId, isoString window.start, n⟩ := by
  rw [entryOf, keyAdId_windowKey h, keyWindowStart_windowKey h]

/-- No entry has an ad id with a `|`. -/
theorem bar_not_mem_of_mem_snapshot {buckets : Buckets} {row : Row} (h : row ∈ snapshot buckets) :
    '|' ∉ row.adId.toList := by
  obtain ⟨bucket, -, rfl⟩ := List.mem_map.1 h
  exact bar_not_mem_keyAdId bucket.1

/-- The rows of a flush carry the ad ids and counts of the snapshot, whatever the keys. -/
theorem flushRows_eq_snapshot (buckets : Buckets) :
    (flushRows buckets).map (fun row => (row.adId, row.count)) =
      (snapshot buckets).map (fun row => (row.adId, row.count)) := by
  rw [flushRows, snapshot_eq, List.map_map, List.map_map]
  rfl

/-- The counts of the snapshot sum to the number of calls that did not throw. -/
theorem sum_snapshot (host : Host) (clicks : List ClickEnvelope) :
    ((snapshot (recordAll host clicks .empty)).map Row.count).sum =
      (clicks.filterMap (keyOf host)).length := by
  have hcounts : (snapshot (recordAll host clicks .empty)).map Row.count =
      (recordAll host clicks .empty).values := by
    rw [snapshot_eq, List.map_map]
    rfl
  rw [hcounts, recordAll_eq, InsertionMap.sum_values_tally]
  exact Nat.zero_add _

/-- The entries of well-keyed buckets are the pairs with a count. -/
theorem WellKeyed.mem_snapshot_iff {buckets : Buckets} (h : WellKeyed buckets) (row : Row) :
    row ∈ snapshot buckets ↔ ∃ adId window, buckets.get? (windowKey adId window) = some row.count ∧
      row = ⟨adId, isoString window.start, row.count⟩ := by
  constructor
  · intro hrow
    obtain ⟨⟨key, n⟩, hmem, rfl⟩ := List.mem_map.1 hrow
    have hget := (InsertionMap.mem_entries_iff buckets key n).1 hmem
    obtain ⟨-, adId, window, hbar, rfl⟩ := h key n hget
    exact ⟨adId, window, hget, entryOf_windowKey hbar window n⟩
  · rintro ⟨adId, window, hget, hrow⟩
    obtain ⟨-, adId', window', hbar, hkey⟩ := h _ _ hget
    obtain ⟨rfl, rfl⟩ := windowKey_injective hkey
    rw [hrow, ← entryOf_windowKey hbar]
    exact List.mem_map_of_mem ((InsertionMap.mem_entries_iff buckets _ _).2 hget)

/-- No two entries are of one pair. -/
theorem WellKeyed.nodup_snapshot {buckets : Buckets} (h : WellKeyed buckets) :
    ((snapshot buckets).map Row.key).Nodup := by
  rw [snapshot_eq, List.map_map]
  apply h.nodup_map
  intro a b w v n m ha hb heq
  rw [Function.comp_apply, Function.comp_apply, entryOf_windowKey ha, entryOf_windowKey hb] at heq
  -- the text of a window determines the window
  obtain ⟨hab, hiso⟩ := Prod.mk.inj heq
  exact ⟨hab, MinuteWindow.ext (isoString_injective hiso)⟩

/-- The bucket of a pair after the clicks, when they are well keyed. -/
theorem get?_recordAll (host : Host) {clicks : List ClickEnvelope}
    (hbar : ∀ click ∈ clicks, '|' ∉ click.adId.toList) (adId : String) (window : MinuteWindow) :
    (recordAll host clicks .empty).get? (windowKey adId window) =
      if pairCount host clicks adId window = 0 then none
      else some (pairCount host clicks adId window) := by
  rw [(wellKeyed_recordAll wellKeyed_empty hbar).get?_eq, count_recordAll, InsertionMap.count_empty,
    Nat.zero_add]

/-- A click whose event time is a date is a click of its pair. -/
theorem pairCount_pos {host : Host} {clicks : List ClickEnvelope} {click : ClickEnvelope}
    {t : TimeValue} (hmem : click ∈ clicks) (htime : host.newDate click.eventTime = some t) :
    0 < pairCount host clicks click.adId t.window := by
  apply List.count_pos_iff.2
  apply List.mem_filterMap.2
  refine ⟨click, hmem, ?_⟩
  rw [pairOf, windowOf, htime]
  rfl

/-- Clicks whose event times are dates: the snapshot is the reference aggregation exactly when no ad
id contains the separator. -/
theorem snapshotIsReference_iff_noBar (host : Host) (clicks : List ClickEnvelope)
    (hparse : ∀ click ∈ clicks, (host.newDate click.eventTime).isSome) :
    SnapshotIsReference host clicks ↔ ∀ click ∈ clicks, '|' ∉ click.adId.toList := by
  constructor
  · intro h click hmem
    obtain ⟨t, htime⟩ := Option.isSome_iff_exists.1 (hparse click hmem)
    -- the entry of the click's pair is in the snapshot under its ad id
    have hentry := (h.entries _).2 ⟨click.adId, t.window, pairCount_pos hmem htime, rfl⟩
    exact bar_not_mem_of_mem_snapshot hentry
  · intro hbar
    have hkeyed : WellKeyed (recordAll host clicks .empty) :=
      wellKeyed_recordAll wellKeyed_empty hbar
    refine ⟨hkeyed.nodup_snapshot, ?_, ?_, flushRows_eq_snapshot _⟩
    · intro row
      rw [hkeyed.mem_snapshot_iff]
      refine exists_congr fun adId => exists_congr fun window => ?_
      rw [get?_recordAll host hbar]
      split
      · rename_i hzero
        simp [hzero]
      · rename_i hne
        constructor
        · rintro ⟨hcount, hrow⟩
          have hn := Option.some.inj hcount
          rw [← hn] at hrow
          exact ⟨Nat.pos_of_ne_zero hne, hrow⟩
        · rintro ⟨-, rfl⟩
          exact ⟨rfl, rfl⟩
    · rw [sum_snapshot]
      apply List.filterMap_length_eq_length.2
      intro click hmem
      rw [keyOf, windowOf, Option.isSome_map, Option.isSome_map]
      exact hparse click hmem

/-- Two clicks of an ad in two minutes and one of another ad. -/
def threeClicks : List ClickEnvelope :=
  [⟨"c-1", "ad-1", "2026-06-12T10:05:34.123Z"⟩, ⟨"c-2", "ad-2", "2026-06-12T10:05:34.123Z"⟩,
    ⟨"c-3", "ad-1", "2026-06-12T10:06:00.000Z"⟩]

theorem reference_of_threeClicks : SnapshotIsReference utcHost threeClicks :=
  (snapshotIsReference_iff_noBar utcHost threeClicks (by decide)).2 (by decide)

/-- A click whose ad id contains the separator. -/
def barClick : ClickEnvelope := ⟨"c-1", "ad|1", "2026-06-12T10:05:34.123Z"⟩

/-- Its ad id is cut in two, and the second half takes the place of the window. -/
theorem bar_in_adId_is_cut :
    snapshot (recordAll utcHost [barClick] .empty) = [⟨"ad", "1", 1⟩] ∧
      ¬ SnapshotIsReference utcHost [barClick] := by
  refine ⟨by decide, ?_⟩
  intro h
  have htime : utcHost.newDate barClick.eventTime =
      some ⟨1781258734123, by decide, by decide⟩ := by decide
  have hentry := (h.entries _).2
    ⟨barClick.adId, _, pairCount_pos List.mem_cons_self htime, rfl⟩
  exact absurd (bar_not_mem_of_mem_snapshot hentry) (by decide)

end AdClick.Window
