import Mathlib.Data.List.Nodup
import Mathlib.Data.List.Basic

/-!
# Append logs read as upserts

A log to which rows are only appended, read through a key: for each key the row that counts is the
last one appended under that key (`collapse`). A later batch hides the earlier rows of its own keys
and no others (`collapse_append`).
-/

set_option autoImplicit false

namespace AdClick.Library

universe u v

variable {α : Type u} {κ : Type v} [DecidableEq κ] (key : α → κ)

/-- The last row of the log under `k`, if there is one. -/
def collapse (log : List α) (k : κ) : Option α := log.reverse.find? fun r => key r = k

@[simp] theorem collapse_nil (k : κ) : collapse key [] k = none := rfl

/-- Rows appended later win, key by key. -/
theorem collapse_append (log rows : List α) (k : κ) :
    collapse key (log ++ rows) k = (collapse key rows k).or (collapse key log k) := by
  rw [collapse, List.reverse_append, List.find?_append]
  rfl

/-- Rows that have another key do not matter. -/
theorem collapse_filter {p : α → Bool} {k : κ} (h : ∀ r, key r = k → p r = true) (log : List α) :
    collapse key (log.filter p) k = collapse key log k := by
  rw [collapse, ← List.filter_reverse, List.find?_filter, collapse]
  congr 1
  funext r
  by_cases hr : key r = k
  · simp [hr, h r hr]
  · simp [hr]

theorem collapse_eq_none_iff {log : List α} {k : κ} :
    collapse key log k = none ↔ ∀ r ∈ log, key r ≠ k := by
  simp [collapse]

theorem key_of_collapse {log : List α} {k : κ} {r : α} (h : collapse key log k = some r) :
    key r = k := by
  simpa using List.find?_some h

theorem mem_of_collapse {log : List α} {k : κ} {r : α} (h : collapse key log k = some r) :
    r ∈ log :=
  List.mem_reverse.1 (List.mem_of_find?_eq_some h)

/-- In a batch with one row per key, the row of a key is what the batch collapses to. -/
theorem collapse_of_nodup {rows : List α} (h : (rows.map key).Nodup) {r : α} (hr : r ∈ rows) :
    collapse key rows (key r) = some r := by
  cases hc : collapse key rows (key r) with
  | none => exact absurd rfl ((collapse_eq_none_iff key).1 hc r hr)
  | some r' =>
    -- two rows of the batch with one key are one row
    apply congrArg some
    exact List.inj_on_of_nodup_map h (mem_of_collapse key hc) hr (key_of_collapse key hc)

end AdClick.Library
