import AdClick.Window.System

/-!
# Clicks that arrive while an insert is awaited

A click is accounted for when it is in the buckets, in a batch whose insert is waiting, or in a
batch whose insert has succeeded (`NoClickLost`). A success clears the whole map, not only what its
batch carried, so a click that lands between the copy and the report is dropped
(`record_during_insert_is_lost`).

The success of an insert is harmless when the buckets hold, under every key, at most what the batch
carried (`ClearsOnlySent`). Along runs whose successes are all of this kind, every click is
accounted for in the buckets and the completed batches alone (`keyCount_le_of_clearsOnlySent`).
When flushes do not overlap, nothing is counted twice either (`sequential_run`), and the condition
is necessary as well (`noClickLost_iff_clearsOnlySent`).
-/

set_option autoImplicit false

namespace AdClick.Window

open AdClick.Library AdClick.Ecma

/-- The clicks under a key in the batches whose insert has succeeded. -/
def System.completedCount (s : System) (key : String) : Nat :=
  (s.completed.map fun batch => batch.count key).sum

/-- The clicks under a key in the batches whose insert is waiting. -/
def System.inFlightCount (s : System) (key : String) : Nat :=
  (s.inFlight.map fun insert => insert.batch.count key).sum

/-- No click recorded in the run is missing: under every key, the buckets and the batches sent and
not failed hold at least the clicks recorded. -/
def NoClickLost (host : Host) (acts : List Action) (s : System) : Prop :=
  ∀ key, keyCount host (clicksOf acts) key ≤
    s.buckets.count key + (s.completedCount key + s.inFlightCount key)

/-- A success clears nothing that its batch did not carry. -/
def ClearsOnlySent (s : System) (a : Action) : Prop :=
  ∀ i insert, a = .insertSuccess i → s.inFlight[i]? = some insert →
    ∀ key, s.buckets.count key ≤ insert.batch.count key

/-- A flush starts only when no other flush is waiting. -/
def StartsAlone (s : System) (a : Action) : Prop := a = .flushStart → s.inFlight = []

theorem completedCount_snoc (s : System) (batch : Buckets) (key : String) :
    ((s.completed ++ [batch]).map fun b => b.count key).sum =
      s.completedCount key + batch.count key := by
  simp [System.completedCount]

/-! ## The condition is enough -/

/-- When no success clears more than it sent, the buckets and the completed batches account for
every click. -/
theorem keyCount_le_of_clearsOnlySent {host : Host} {table : List Row} {acts : List Action}
    {s : System} (hC : EveryStep (step host) ClearsOnlySent (.start table) acts)
    (hrun : run (step host) (.start table) acts = some s) (key : String) :
    keyCount host (clicksOf acts) key ≤ s.buckets.count key + s.completedCount key := by
  -- the invariant leaves the waiting batches out: they are still in the buckets, or cleared
  apply run_invariant_of_everyStep (P := fun acts s =>
    keyCount host (clicksOf acts) key ≤ s.buckets.count key + s.completedCount key)
    (Nat.zero_le _) _ hC hrun
  intro acts s a t ih hclears hstep
  cases step_iff.1 hstep with
  | record envelope =>
    have hadd := count_tally_keyOf host acts envelope s.buckets key
    show _ ≤ (s.buckets.tally _).count key + s.completedCount key
    omega
  | flushIdle =>
    rw [clicksOf_snoc_of_click?_none acts rfl]
    exact ih
  | flushStart =>
    rw [clicksOf_snoc_of_click?_none acts rfl]
    exact ih
  | serverApply i batch =>
    rw [clicksOf_snoc_of_click?_none acts rfl]
    exact ih
  | insertSuccess i insert hi =>
    rw [clicksOf_snoc_of_click?_none acts rfl]
    -- what is cleared is at most what moves to the completed batches
    have hsent := hclears i insert rfl hi key
    have hmoved := completedCount_snoc s insert.batch key
    show _ ≤ 0 + ((s.completed ++ [insert.batch]).map fun b => b.count key).sum
    omega
  | insertFailure i insert =>
    rw [clicksOf_snoc_of_click?_none acts rfl]
    exact ih

/-! ## Flushes that do not overlap -/

/-- At most one insert is waiting, its batch is still in the buckets, and no click is counted
twice. -/
structure Sequential (host : Host) (acts : List Action) (s : System) : Prop where
  waiting : s.inFlight = [] ∨
    ∃ insert, s.inFlight = [insert] ∧ ∀ key, insert.batch.count key ≤ s.buckets.count key
  counted : ∀ key,
    s.buckets.count key + s.completedCount key ≤ keyCount host (clicksOf acts) key

theorem eq_of_getElem?_singleton {α : Type} {x y : α} {i : Nat} (h : [x][i]? = some y) :
    i = 0 ∧ x = y := by
  rw [List.getElem?_singleton] at h
  split at h
  · rename_i hi
    exact ⟨hi, Option.some.inj h⟩
  · cases h

/-- In a sequential state the insert that settles is the only one, and its batch is still in the
buckets. -/
theorem Sequential.only {host : Host} {acts : List Action} {s : System} {i : Nat}
    {insert : Insert} (h : Sequential host acts s) (hi : s.inFlight[i]? = some insert) :
    i = 0 ∧ s.inFlight = [insert] ∧ ∀ key, insert.batch.count key ≤ s.buckets.count key := by
  rcases h.waiting with hnone | ⟨only, hone, hle⟩
  · rw [hnone] at hi
    cases hi
  · rw [hone] at hi
    obtain ⟨hzero, rfl⟩ := eq_of_getElem?_singleton hi
    exact ⟨hzero, hone, hle⟩

theorem sequential_step {host : Host} {acts : List Action} {s t : System} {a : Action}
    (h : Sequential host acts s) (halone : StartsAlone s a) (hstep : Step host s a t) :
    Sequential host (acts ++ [a]) t := by
  cases hstep with
  | record envelope =>
    constructor
    · rcases h.waiting with hnone | ⟨insert, hone, hle⟩
      · exact Or.inl hnone
      · -- the buckets only grow while the batch waits
        refine Or.inr ⟨insert, hone, ?_⟩
        intro key
        show _ ≤ (s.buckets.tally _).count key
        rw [InsertionMap.count_tally]
        exact (hle key).trans (Nat.le_add_right _ _)
    · intro key
      have hcount := h.counted key
      have hadd := count_tally_keyOf host acts envelope s.buckets key
      show (s.buckets.tally _).count key + s.completedCount key ≤ _
      omega
  | flushIdle =>
    refine ⟨h.waiting, ?_⟩
    rw [clicksOf_snoc_of_click?_none acts rfl]
    exact h.counted
  | flushStart =>
    refine ⟨Or.inr ⟨⟨s.buckets, false⟩, ?_, fun key => Nat.le_refl _⟩, ?_⟩
    · -- nothing was waiting, so the new insert is the only one
      show s.inFlight ++ _ = _
      rw [halone rfl]
      rfl
    · rw [clicksOf_snoc_of_click?_none acts rfl]
      exact h.counted
  | serverApply i batch hi =>
    obtain ⟨rfl, hone, hle⟩ := h.only hi
    refine ⟨Or.inr ⟨⟨batch, true⟩, ?_, hle⟩, ?_⟩
    · show s.inFlight.set 0 _ = _
      rw [hone]
      rfl
    · rw [clicksOf_snoc_of_click?_none acts rfl]
      exact h.counted
  | insertSuccess i insert hi =>
    obtain ⟨rfl, hone, hle⟩ := h.only hi
    refine ⟨Or.inl ?_, ?_⟩
    · show s.inFlight.eraseIdx 0 = _
      rw [hone]
      rfl
    · intro key
      rw [clicksOf_snoc_of_click?_none acts rfl]
      -- the batch moves to the completed ones, and the buckets that held it are cleared
      have hcount := h.counted key
      have hbatch := hle key
      have hmoved := completedCount_snoc s insert.batch key
      show 0 + ((s.completed ++ [insert.batch]).map fun b => b.count key).sum ≤ _
      omega
  | insertFailure i insert hi =>
    obtain ⟨rfl, hone, -⟩ := h.only hi
    refine ⟨Or.inl ?_, ?_⟩
    · show s.inFlight.eraseIdx 0 = _
      rw [hone]
      rfl
    · rw [clicksOf_snoc_of_click?_none acts rfl]
      exact h.counted

theorem sequential_run {host : Host} {table : List Row} {acts : List Action} {s : System}
    (hC : EveryStep (step host) StartsAlone (.start table) acts)
    (hrun : run (step host) (.start table) acts = some s) : Sequential host acts s := by
  apply run_invariant_of_everyStep _ _ hC hrun
  · exact ⟨Or.inl rfl, fun _ => Nat.le_refl 0⟩
  · intro acts s a t h halone hstep
    exact sequential_step h halone (step_iff.1 hstep)

/-- When the flushes do not overlap, a success after which no click is missing cleared only what it
sent. -/
theorem clearsOnlySent_of_noClickLost {host : Host} {acts : List Action} {s t : System} {a : Action}
    (h : Sequential host acts s) (hstep : Step host s a t)
    (hsafe : NoClickLost host (acts ++ [a]) t) : ClearsOnlySent s a := by
  intro i insert ha hi key
  subst ha
  cases hstep with
  | insertSuccess i insert' hi' =>
    obtain rfl : insert' = insert := Option.some.inj (hi'.symm.trans hi)
    obtain ⟨rfl, hone, -⟩ := h.only hi
    have hcount := h.counted key
    have hmoved := completedCount_snoc s insert'.batch key
    -- after the success nothing waits and nothing is in the buckets
    have hle : keyCount host (clicksOf (acts ++ [.insertSuccess 0])) key ≤
        0 + (((s.completed ++ [insert'.batch]).map fun b => b.count key).sum +
          ((s.inFlight.eraseIdx 0).map fun insert => insert.batch.count key).sum) := hsafe key
    rw [clicksOf_snoc_of_click?_none acts rfl, hone] at hle
    simp only [List.eraseIdx_cons_zero, List.map_nil, List.sum_nil] at hle
    omega

/-! ## The flush race -/

/-- One click of `ad-1`, recorded twice: once before the flush copies the buckets and once while
its insert is awaited. -/
def raceClick (clickId : String) : ClickEnvelope := ⟨clickId, "ad-1", "2026-06-12T10:05:34.123Z"⟩

def raceRun : List Action :=
  [.record (raceClick "c-1"), .flushStart, .record (raceClick "c-2"), .insertSuccess 0]

/-- The click that lands while the insert is awaited is in no bucket and in no batch. -/
theorem record_during_insert_is_lost :
    ∃ s, run (step utcHost) (.start []) raceRun = some s ∧ ¬ NoClickLost utcHost raceRun s := by
  refine ⟨_, rfl, ?_⟩
  intro h
  exact absurd (h "ad-1|2026-06-12T10:05:00.000Z") (by decide)

/-- Every state of a run accounts for every click when its successes clear only what they sent; for
a run whose flushes do not overlap that is also necessary. -/
theorem noClickLost_iff_clearsOnlySent (host : Host) (table : List Row) (acts : List Action)
    (s : System) (hrun : run (step host) (.start table) acts = some s) :
    (EveryStep (step host) ClearsOnlySent (.start table) acts →
      ∀ pre post t, acts = pre ++ post → run (step host) (.start table) pre = some t →
        NoClickLost host pre t) ∧
    (EveryStep (step host) StartsAlone (.start table) acts →
      (∀ pre post t, acts = pre ++ post → run (step host) (.start table) pre = some t →
        NoClickLost host pre t) →
      EveryStep (step host) ClearsOnlySent (.start table) acts) := by
  constructor
  · intro hC pre post t hsplit ht key
    have hpre : EveryStep (step host) ClearsOnlySent (.start table) pre := by
      rw [hsplit] at hC
      exact everyStep_append_left hC
    exact (keyCount_le_of_clearsOnlySent hpre ht key).trans (by omega)
  · intro hseq hsafe pre a post t hsplit ht
    rw [hsplit] at hrun hseq
    -- the action is enabled in `t`, since the whole run goes through
    obtain ⟨t', ht', hrest⟩ := run_append_some (step host) hrun
    obtain rfl : t' = t := Option.some.inj (ht'.symm.trans ht)
    obtain ⟨u, hu, -⟩ := Option.bind_eq_some_iff.1 hrest
    have hnext : run (step host) (.start table) (pre ++ [a]) = some u :=
      run_snoc (step host) ht hu
    have hsplit' : acts = pre ++ [a] ++ post := by
      rw [hsplit, List.append_assoc, List.singleton_append]
    exact clearsOnlySent_of_noClickLost (sequential_run (everyStep_append_left hseq) ht)
      (step_iff.1 hu) (hsafe (pre ++ [a]) post u hsplit' hnext)

/-- A flush with no record in its gap. -/
def quietRun : List Action := [.record (raceClick "c-1"), .flushStart, .insertSuccess 0]

/-- No state of the quiet flush misses a click, and its success clears only what it sent. -/
theorem noClickLost_of_quietRun :
    (∀ pre post t, quietRun = pre ++ post → run (step utcHost) (.start []) pre = some t →
      NoClickLost utcHost pre t) ∧
    EveryStep (step utcHost) ClearsOnlySent (.start []) quietRun := by
  have hiff := noClickLost_iff_clearsOnlySent utcHost [] quietRun _ rfl
  have hsafe := hiff.1 <| by
    refine everyStep_cons (fun i insert ha => by cases ha) fun s hs => ?_
    refine everyStep_cons (fun i insert ha => by cases ha) fun t ht => ?_
    cases hs
    cases ht
    -- the batch is the buckets as they still are
    refine everyStep_cons (fun i insert ha hi key => ?_) fun u _ => everyStep_nil _ u
    cases ha
    cases hi
    exact Nat.le_refl _
  refine ⟨hsafe, hiff.2 ?_ hsafe⟩
  refine everyStep_cons (fun ha => by cases ha) fun s hs => ?_
  cases hs
  refine everyStep_cons (fun _ => rfl) fun t _ => ?_
  exact everyStep_cons (fun ha => by cases ha) fun u _ => everyStep_nil _ u

end AdClick.Window
