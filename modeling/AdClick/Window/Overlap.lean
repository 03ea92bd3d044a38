import AdClick.Window.Retry

/-!
# Overlapping flushes

The timer, `GET /flush` and shutdown may each start a flush while others are still waiting. As long
as no click arrives, every batch that is started carries the same buckets: before the first success
they are untouched, and after it there is nothing left to send. So the rows that reach the table are
the rows of these buckets, written once or several times over (`overlapping_run`), and writing them
again changes nothing (`sameTable_append_again`).

Whatever the interleaving, one success leaves the table with the rows of the buckets over it and no
buckets, and without a success the buckets are kept (`overlapping_flushes_write_once`).
-/

set_option autoImplicit false

namespace AdClick.Window

open AdClick.Library AdClick.Ecma

/-- Two tables that collapse to the same rows. -/
def SameTable (table table' : List Row) : Prop :=
  ∀ key, tableCount table key = tableCount table' key

theorem SameTable.append {table table' : List Row} (h : SameTable table table') (rows : List Row) :
    SameTable (table ++ rows) (table' ++ rows) := by
  intro key
  rw [tableCount_append, tableCount_append, h key]

/-- Rows that have just been written can be written again. -/
theorem sameTable_append_again {written table rows : List Row}
    (h : SameTable written (table ++ rows)) : SameTable (written ++ rows) (table ++ rows) := by
  intro key
  rw [tableCount_append, h key, tableCount_append]
  cases tableCount rows key with
  | none => rfl
  | some n => rfl

/-- The bookkeeping of a stretch without clicks that started with `batch` in the buckets, before
`table`, and with no insert waiting. -/
structure Overlapping (batch : Buckets) (table : List Row) (acts : List Action) (s : System) :
    Prop where
  sent : ∀ insert ∈ s.inFlight, insert.batch = batch
  kept : NoSuccess acts → s.buckets = batch
  cleared : ¬ NoSuccess acts → s.buckets = .empty
  rows : SameTable s.table table ∨ SameTable s.table (table ++ flushRows batch)
  applied : ∀ insert ∈ s.inFlight, insert.applied = true →
    SameTable s.table (table ++ flushRows batch)
  stored : ¬ NoSuccess acts → SameTable s.table (table ++ flushRows batch)

theorem overlapping_start {s : System} (hidle : s.inFlight = []) :
    Overlapping s.buckets s.table [] s where
  sent := by
    intro insert h
    rw [hidle] at h
    cases h
  kept := fun _ => rfl
  cleared := fun h => absurd (fun _ hi => by cases hi) h
  rows := Or.inl fun _ => rfl
  applied := by
    intro insert h
    rw [hidle] at h
    cases h
  stored := fun h => absurd (fun _ hi => by cases hi) h

theorem noSuccess_snoc (acts : List Action) (a : Action) (ha : ∀ i, a ≠ .insertSuccess i) :
    NoSuccess (acts ++ [a]) ↔ NoSuccess acts := by
  constructor
  · intro h
    exact h.of_append.1
  · intro h i hi
    rcases List.mem_append.1 hi with hold | hnew
    · exact h i hold
    · exact ha i (List.mem_singleton.1 hnew).symm

theorem not_noSuccess_snoc (acts : List Action) (i : Nat) :
    ¬ NoSuccess (acts ++ [.insertSuccess i]) :=
  fun h => h i (List.mem_append_right acts List.mem_cons_self)

namespace Overlapping

variable {batch : Buckets} {table : List Row} {acts : List Action} {s : System}

/-- Whatever is in the buckets is the batch of the stretch. -/
theorem buckets_eq (h : Overlapping batch table acts s) (hsize : s.buckets.size ≠ 0) :
    s.buckets = batch := by
  by_cases hsuccess : NoSuccess acts
  · exact h.kept hsuccess
  · exact absurd (InsertionMap.size_eq_zero_iff.2 (h.cleared hsuccess)) hsize

/-- The rows of the batch can be put at the end of the table, whether or not they are there. -/
theorem sameTable_append (h : Overlapping batch table acts s) :
    SameTable (s.table ++ flushRows batch) (table ++ flushRows batch) := by
  rcases h.rows with hold | hnew
  · exact hold.append (flushRows batch)
  · exact sameTable_append_again hnew

/-- An insert that settles with success has left the rows of the batch in the table. -/
theorem sameTable_apply (h : Overlapping batch table acts s) {insert : Insert}
    (hmem : insert ∈ s.inFlight) :
    SameTable (insert.apply s.table) (table ++ flushRows batch) := by
  unfold Insert.apply
  split
  · rename_i happlied
    exact h.applied insert hmem happlied
  · rw [h.sent insert hmem]
    exact h.sameTable_append

theorem step {host : Host} {t : System} {a : Action} (h : Overlapping batch table acts s)
    (ha : a.click? = none) (hstep : Step host s a t) :
    Overlapping batch table (acts ++ [a]) t := by
  cases hstep with
  | record envelope => cases ha
  | flushIdle =>
    have hns := noSuccess_snoc acts .flushStart (fun i hi => by cases hi)
    exact ⟨h.sent, fun hn => h.kept (hns.1 hn), fun hn => h.cleared (mt hns.2 hn), h.rows,
      h.applied, fun hn => h.stored (mt hns.2 hn)⟩
  | flushStart hsize =>
    have hns := noSuccess_snoc acts .flushStart (fun i hi => by cases hi)
    refine ⟨?_, fun hn => h.kept (hns.1 hn), fun hn => h.cleared (mt hns.2 hn), h.rows, ?_,
      fun hn => h.stored (mt hns.2 hn)⟩
    · intro insert hmem
      rcases List.mem_append.1 hmem with hold | hnew
      · exact h.sent insert hold
      · rw [List.mem_singleton.1 hnew]
        exact h.buckets_eq hsize
    · intro insert hmem happlied
      rcases List.mem_append.1 hmem with hold | hnew
      · exact h.applied insert hold happlied
      · rw [List.mem_singleton.1 hnew] at happlied
        cases happlied
  | serverApply i sent hi =>
    have hns := noSuccess_snoc acts (.serverApply i) (fun j hj => by cases hj)
    have hbatch : sent = batch := h.sent _ (List.mem_of_getElem? hi)
    subst hbatch
    refine ⟨?_, fun hn => h.kept (hns.1 hn), fun hn => h.cleared (mt hns.2 hn),
      Or.inr h.sameTable_append, fun _ _ _ => h.sameTable_append, fun _ => h.sameTable_append⟩
    intro insert hmem
    rcases List.mem_or_eq_of_mem_set hmem with hold | rfl
    · exact h.sent insert hold
    · rfl
  | insertSuccess i insert hi =>
    have hstored := h.sameTable_apply (List.mem_of_getElem? hi)
    refine ⟨?_, fun hn => absurd hn (not_noSuccess_snoc acts i), fun _ => rfl, Or.inr hstored,
      fun _ _ _ => hstored, fun _ => hstored⟩
    intro other hmem
    exact h.sent other (List.mem_of_mem_eraseIdx hmem)
  | insertFailure i insert hi =>
    have hns := noSuccess_snoc acts (.insertFailure i) (fun j hj => by cases hj)
    refine ⟨?_, fun hn => h.kept (hns.1 hn), fun hn => h.cleared (mt hns.2 hn), h.rows, ?_,
      fun hn => h.stored (mt hns.2 hn)⟩
    · intro other hmem
      exact h.sent other (List.mem_of_mem_eraseIdx hmem)
    · intro other hmem happlied
      exact h.applied other (List.mem_of_mem_eraseIdx hmem) happlied

end Overlapping

/-- A stretch without clicks keeps the bookkeeping. -/
theorem overlapping_run {host : Host} {acts : List Action} {s t : System}
    (hidle : s.inFlight = []) (hquiet : clicksOf acts = [])
    (hrun : run (step host) s acts = some t) : Overlapping s.buckets s.table acts t := by
  have key : clicksOf acts = [] → Overlapping s.buckets s.table acts t := by
    apply run_invariant (step host)
      (P := fun acts t => clicksOf acts = [] → Overlapping s.buckets s.table acts t) _ _ hrun
    · intro _
      exact overlapping_start hidle
    · intro acts t a u _ ih hstep hnone
      rw [clicksOf_append, List.append_eq_nil_iff] at hnone
      have ha : a.click? = none := by
        have hsingle := hnone.2
        rw [clicksOf, List.filterMap_cons] at hsingle
        cases hclick : a.click? with
        | none => rfl
        | some click =>
          rw [hclick] at hsingle
          cases hsingle
      exact (ih hnone.1).step ha (step_iff.1 hstep)
  exact key hquiet

/-- Along every run the buckets are well keyed, when the ad ids are free of `|`. -/
theorem wellKeyed_run {host : Host} {table : List Row} {acts : List Action} {s : System}
    (hrun : run (step host) (.start table) acts = some s)
    (hbar : ∀ click ∈ clicksOf acts, '|' ∉ click.adId.toList) : WellKeyed s.buckets := by
  have key : (∀ click ∈ clicksOf acts, '|' ∉ click.adId.toList) → WellKeyed s.buckets := by
    apply run_invariant (step host) (P := fun acts s =>
      (∀ click ∈ clicksOf acts, '|' ∉ click.adId.toList) → WellKeyed s.buckets) _ _ hrun
    · intro _
      exact wellKeyed_empty
    · intro acts s a t _ ih hstep hbar
      have hbefore := ih fun click hmem =>
        hbar click (by rw [clicksOf_append]; exact List.mem_append_left _ hmem)
      cases step_iff.1 hstep with
      | record envelope =>
        have hlast : '|' ∉ envelope.adId.toList := by
          apply hbar
          rw [clicksOf_snoc_record]
          exact List.mem_append_right _ List.mem_cons_self
        have hkeyed : WellKeyed (afterRecord host envelope s.buckets) :=
          wellKeyed_afterRecord hbefore hlast
        rwa [afterRecord_eq] at hkeyed
      | flushIdle => exact hbefore
      | flushStart => exact hbefore
      | serverApply => exact hbefore
      | insertSuccess => exact wellKeyed_empty
      | insertFailure => exact hbefore
  exact key hbar

/-- From a state with no insert waiting, any number of overlapping flushes without a click between
them: after a success the buckets are empty, and the table is what it was with the count of every
bucket written over it; without one the buckets are what they were. -/
theorem overlapping_flushes_write_once (host : Host) (table : List Row) (before acts : List Action)
    (s t : System) (hbefore : run (step host) (.start table) before = some s)
    (hidle : s.inFlight = []) (hbar : ∀ click ∈ clicksOf before, '|' ∉ click.adId.toList)
    (hquiet : clicksOf acts = []) (hrun : run (step host) s acts = some t) :
    (∀ i, .insertSuccess i ∈ acts →
      t.buckets = .empty ∧
      (∀ key, tableCount t.table key =
        (tableCount (flushRows s.buckets) key).or (tableCount s.table key)) ∧
      ∀ adId window, tableCount (flushRows s.buckets) (rowKey adId window) =
        s.buckets.get? (windowKey adId window)) ∧
    (NoSuccess acts → t.buckets = s.buckets) := by
  have hoverlap := overlapping_run hidle hquiet hrun
  constructor
  · intro i hi
    have hsuccess : ¬ NoSuccess acts := fun h => h i hi
    refine ⟨hoverlap.cleared hsuccess, ?_, tableCount_flushRows (wellKeyed_run hbefore hbar)⟩
    intro key
    rw [hoverlap.stored hsuccess, tableCount_append]
  · exact hoverlap.kept

/-- Two flushes copy the same bucket; the second is applied and reported as failed, and then the
first succeeds. -/
def twoFlushes : List Action :=
  [.flushStart, .flushStart, .serverApply 1, .insertFailure 1, .insertSuccess 0]

/-- The bucket is inserted twice and stored once. -/
theorem overlapping_of_twoFlushes :
    ∃ s t, run (step utcHost) (.start []) [.record (raceClick "c-1")] = some s ∧
      run (step utcHost) s twoFlushes = some t ∧ t.buckets = .empty ∧
      tableCount t.table (rowKey "ad-1" raceWindow) = some 1 := by
  refine ⟨_, _, rfl, rfl, ?_⟩
  obtain ⟨hsuccess, -⟩ := overlapping_flushes_write_once utcHost [] [.record (raceClick "c-1")]
    twoFlushes _ _ rfl rfl (by decide) rfl rfl
  obtain ⟨hempty, hrows, hread⟩ := hsuccess 0 (by simp [twoFlushes])
  refine ⟨hempty, ?_⟩
  rw [hrows, hread]
  decide

end AdClick.Window
