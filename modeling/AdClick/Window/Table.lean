import AdClick.Window.Service

/-!
# What a flush leaves in the table

The buckets that `record` builds from clicks whose ad ids are free of `|` are well keyed: each of
them carries at least one click, under the key of an ad and a window (`wellKeyed_afterRecord`). For
such buckets the rows of a flush read back what the buckets hold (`tableCount_flushRows`), and
appended to a table they replace the rows of their own pairs and no others
(`tableCount_append_flushRows`).
-/

set_option autoImplicit false

namespace AdClick.Window

open AdClick.Library AdClick.Ecma

/-- Every bucket carries a click, under the key of a window and an ad id free of `|`. -/
def WellKeyed (buckets : Buckets) : Prop :=
  ∀ key n, buckets.get? key = some n →
    0 < n ∧ ∃ adId window, '|' ∉ adId.toList ∧ key = windowKey adId window

theorem wellKeyed_empty : WellKeyed .empty := by
  intro key n h
  cases h

theorem wellKeyed_afterRecord {host : Host} {envelope : ClickEnvelope} {buckets : Buckets}
    (h : WellKeyed buckets) (hbar : '|' ∉ envelope.adId.toList) :
    WellKeyed (afterRecord host envelope buckets) := by
  rw [afterRecord_eq, keyOf]
  cases windowOf host envelope with
  | none => exact h
  | some window =>
    intro key n hget
    replace hget : (buckets.increment (windowKey envelope.adId window)).get? key = some n := hget
    rw [InsertionMap.get?_increment] at hget
    split at hget
    · -- the bucket of the click
      rename_i hkey
      cases hget
      exact ⟨Nat.succ_pos _, envelope.adId, window, hbar, hkey⟩
    · exact h key n hget

theorem wellKeyed_recordAll {host : Host} {clicks : List ClickEnvelope} {buckets : Buckets}
    (h : WellKeyed buckets) (hbar : ∀ click ∈ clicks, '|' ∉ click.adId.toList) :
    WellKeyed (recordAll host clicks buckets) := by
  induction clicks generalizing buckets with
  | nil => exact h
  | cons click clicks ih =>
    apply ih (wellKeyed_afterRecord h (hbar click List.mem_cons_self))
    intro later hlater
    exact hbar later (List.mem_cons_of_mem click hlater)

/-- The bucket of a pair is present exactly when it counts a click. -/
theorem WellKeyed.get?_eq {buckets : Buckets} (h : WellKeyed buckets) (key : String) :
    buckets.get? key = if buckets.count key = 0 then none else some (buckets.count key) := by
  rw [InsertionMap.count]
  cases hget : buckets.get? key with
  | none => rfl
  | some n =>
    obtain ⟨hpos, -⟩ := h key n hget
    exact (if_neg (Nat.ne_of_gt hpos)).symm

/-! ## The rows of a flush -/

/-- Every row of a flush is the row of a bucket, found under the sorting key of its pair. -/
theorem WellKeyed.of_mem_flushRows {buckets : Buckets} (h : WellKeyed buckets) {row : Row}
    (hrow : row ∈ flushRows buckets) :
    ∃ adId window, row.key = rowKey adId window ∧
      buckets.get? (windowKey adId window) = some row.count := by
  obtain ⟨⟨key, n⟩, hmem, rfl⟩ := List.mem_map.1 hrow
  have hget := (InsertionMap.mem_entries_iff buckets key n).1 hmem
  obtain ⟨-, adId, window, hbar, rfl⟩ := h key n hget
  rw [rowOf_windowKey hbar]
  exact ⟨adId, window, rfl, hget⟩

/-- The bucket of a pair is a row of the flush. -/
theorem WellKeyed.mem_flushRows {buckets : Buckets} (h : WellKeyed buckets) {adId : String}
    {window : MinuteWindow} {n : Nat} (hget : buckets.get? (windowKey adId window) = some n) :
    ⟨adId, toClickHouseDateTime (isoString window.start), n⟩ ∈ flushRows buckets := by
  obtain ⟨-, adId', window', hbar, hkey⟩ := h _ n hget
  obtain ⟨rfl, rfl⟩ := windowKey_injective hkey
  rw [← rowOf_windowKey hbar]
  exact List.mem_map_of_mem ((InsertionMap.mem_entries_iff buckets _ n).2 hget)

/-- What determines the ad and the window of a bucket is distinct for distinct buckets. -/
theorem WellKeyed.nodup_map {κ : Type} {buckets : Buckets} (h : WellKeyed buckets)
    {f : String × Nat → κ}
    (hf : ∀ {a b : String} {w v : MinuteWindow} {n m : Nat}, '|' ∉ a.toList → '|' ∉ b.toList →
      f (windowKey a w, n) = f (windowKey b v, m) → a = b ∧ w = v) :
    (buckets.entries.map f).Nodup := by
  apply List.Nodup.map_on _ (List.Nodup.of_map _ buckets.nodup)
  rintro ⟨key, n⟩ hmem ⟨key', n'⟩ hmem' heq
  have hget := (InsertionMap.mem_entries_iff buckets key n).1 hmem
  have hget' := (InsertionMap.mem_entries_iff buckets key' n').1 hmem'
  obtain ⟨-, adId, window, hbar, rfl⟩ := h key n hget
  obtain ⟨-, adId', window', hbar', rfl⟩ := h key' n' hget'
  -- one ad and one window, so one bucket
  obtain ⟨rfl, rfl⟩ := hf hbar hbar' heq
  cases hget.symm.trans hget'
  rfl

/-- The rows of a flush have distinct sorting keys. -/
theorem WellKeyed.nodup_flushRows {buckets : Buckets} (h : WellKeyed buckets) :
    ((flushRows buckets).map Row.key).Nodup := by
  rw [flushRows, List.map_map]
  apply h.nodup_map
  intro a b w v n m ha hb heq
  rw [Function.comp_apply, Function.comp_apply, rowOf_windowKey ha, rowOf_windowKey hb] at heq
  exact rowKey_injective heq

/-- The rows of a flush say of every pair what its bucket says. -/
theorem tableCount_flushRows {buckets : Buckets} (h : WellKeyed buckets) (adId : String)
    (window : MinuteWindow) :
    tableCount (flushRows buckets) (rowKey adId window) =
      buckets.get? (windowKey adId window) := by
  rw [tableCount]
  cases hget : buckets.get? (windowKey adId window) with
  | some n =>
    have hrow := collapse_of_nodup Row.key h.nodup_flushRows (h.mem_flushRows hget)
    exact congrArg (Option.map Row.count) hrow
  | none =>
    -- a row under the sorting key would be the row of a bucket of the pair
    have hnone : collapse Row.key (flushRows buckets) (rowKey adId window) = none := by
      apply (collapse_eq_none_iff Row.key).2
      intro row hrow hkey
      obtain ⟨adId', window', hkey', hget'⟩ := h.of_mem_flushRows hrow
      obtain ⟨rfl, rfl⟩ := rowKey_injective (hkey.symm.trans hkey')
      cases hget.symm.trans hget'
    rw [hnone]
    rfl

/-! ## Appending to the table -/

/-- Rows inserted later win, sorting key by sorting key. -/
theorem tableCount_append (table rows : List Row) (key : String × String) :
    tableCount (table ++ rows) key = (tableCount rows key).or (tableCount table key) := by
  rw [tableCount, tableCount, tableCount, collapse_append]
  cases collapse Row.key rows key with
  | none => rfl
  | some row => rfl

/-- A flush replaces the count of every pair that has a bucket, and no other. -/
theorem tableCount_append_flushRows {buckets : Buckets} (h : WellKeyed buckets) (table : List Row)
    (adId : String) (window : MinuteWindow) :
    tableCount (table ++ flushRows buckets) (rowKey adId window) =
      if buckets.count (windowKey adId window) = 0 then tableCount table (rowKey adId window)
      else some (buckets.count (windowKey adId window)) := by
  rw [tableCount_append, tableCount_flushRows h, h.get?_eq]
  split <;> rfl

/-- A sorting key that a flush puts into the table is the key of a pair. -/
theorem tableCount_append_flushRows_ne_none {buckets : Buckets} (h : WellKeyed buckets)
    {table : List Row} {key : String × String}
    (hkey : tableCount (table ++ flushRows buckets) key ≠ none) :
    tableCount table key ≠ none ∨ ∃ adId window, key = rowKey adId window := by
  rw [tableCount_append] at hkey
  cases hrows : collapse Row.key (flushRows buckets) key with
  | none =>
    rw [tableCount, hrows] at hkey
    exact Or.inl hkey
  | some row =>
    obtain ⟨adId, window, hrow, -⟩ := h.of_mem_flushRows (mem_of_collapse Row.key hrows)
    rw [key_of_collapse Row.key hrows] at hrow
    exact Or.inr ⟨adId, window, hrow⟩

end AdClick.Window
