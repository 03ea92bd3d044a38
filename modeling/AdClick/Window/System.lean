import AdClick.Window.Service
import AdClick.Library.Runs
import Mathlib.Data.List.Count

/-!
# The aggregation service and its table as a transition system

Between the copy of the buckets and the report of the insert a flush only waits, so records and
other flushes run in the gap. A state holds the buckets, the inserts whose flush is still waiting,
the batches whose insert has succeeded, and the rows ClickHouse has applied, in order. The actions
are one call of `record`, the start of one call of `flush` (by the timer, by `GET /flush` or by
shutdown), ClickHouse applying a waiting insert, and the report of a waiting insert to its flush:
success, which has been applied by then at the latest, or failure, which may or may not have been.

`step` computes the next state; `Step` lists what a step can do, and `step_iff` says that they
agree, so that the proofs about runs split into its six cases.
-/

set_option autoImplicit false

namespace AdClick.Window

open AdClick.Library AdClick.Ecma

/-- An insert whose flush is waiting for the report. -/
structure Insert where
  batch : Buckets
  applied : Bool

structure System where
  buckets : Buckets
  inFlight : List Insert
  completed : List Buckets
  table : List Row

/-- A service with nothing in memory, before a table that may already hold rows. -/
def System.start (table : List Row) : System := ⟨.empty, [], [], table⟩

inductive Action where
  | record (envelope : ClickEnvelope)
  | flushStart
  | serverApply (i : Nat)
  | insertSuccess (i : Nat)
  | insertFailure (i : Nat)

/-- The rows that an applied insert leaves at the end of the table. -/
def Insert.apply (insert : Insert) (table : List Row) : List Row :=
  if insert.applied then table else table ++ flushRows insert.batch

/-- The state after an action; `none` when the action refers to no waiting insert, or to one that
is already applied. -/
def step (host : Host) (s : System) : Action → Option System
  | .record envelope => some { s with buckets := afterRecord host envelope s.buckets }
  | .flushStart =>
    match flushBatch s.buckets with
    | none => some s
    | some batch => some { s with inFlight := s.inFlight ++ [⟨batch, false⟩] }
  | .serverApply i =>
    match s.inFlight[i]? with
    | some ⟨batch, false⟩ =>
      some { s with
        inFlight := s.inFlight.set i ⟨batch, true⟩
        table := s.table ++ flushRows batch }
    | _ => none
  | .insertSuccess i =>
    match s.inFlight[i]? with
    | some insert =>
      some {
        buckets := flushSettled .success s.buckets
        inFlight := s.inFlight.eraseIdx i
        completed := s.completed ++ [insert.batch]
        table := insert.apply s.table }
    | none => none
  | .insertFailure i =>
    match s.inFlight[i]? with
    | some _ =>
      some { s with
        buckets := flushSettled .failure s.buckets
        inFlight := s.inFlight.eraseIdx i }
    | none => none

/-- What a step can do. -/
inductive Step (host : Host) : System → Action → System → Prop where
  | record (s : System) (envelope : ClickEnvelope) :
      Step host s (.record envelope)
        { s with buckets := s.buckets.tally (keyOf host envelope).toList }
  | flushIdle (s : System) : s.buckets.size = 0 → Step host s .flushStart s
  | flushStart (s : System) : s.buckets.size ≠ 0 →
      Step host s .flushStart { s with inFlight := s.inFlight ++ [⟨s.buckets, false⟩] }
  | serverApply (s : System) (i : Nat) (batch : Buckets) : s.inFlight[i]? = some ⟨batch, false⟩ →
      Step host s (.serverApply i)
        { s with
          inFlight := s.inFlight.set i ⟨batch, true⟩
          table := s.table ++ flushRows batch }
  | insertSuccess (s : System) (i : Nat) (insert : Insert) : s.inFlight[i]? = some insert →
      Step host s (.insertSuccess i)
        { buckets := .empty
          inFlight := s.inFlight.eraseIdx i
          completed := s.completed ++ [insert.batch]
          table := insert.apply s.table }
  | insertFailure (s : System) (i : Nat) (insert : Insert) : s.inFlight[i]? = some insert →
      Step host s (.insertFailure i) { s with inFlight := s.inFlight.eraseIdx i }

theorem step_iff {host : Host} {s t : System} {a : Action} :
    step host s a = some t ↔ Step host s a t := by
  constructor
  · intro h
    cases a with
    | record envelope =>
      cases h
      rw [afterRecord_eq]
      exact .record s envelope
    | flushStart =>
      by_cases hsize : s.buckets.size = 0
      · simp only [step, flushBatch, if_pos hsize, Option.some.injEq] at h
        subst h
        exact .flushIdle s hsize
      · simp only [step, flushBatch, if_neg hsize, Option.some.injEq] at h
        subst h
        exact .flushStart s hsize
    | serverApply i =>
      simp only [step] at h
      split at h
      · rename_i batch hi
        cases h
        exact .serverApply s i batch hi
      · cases h
    | insertSuccess i =>
      simp only [step] at h
      split at h
      · rename_i insert hi
        cases h
        exact .insertSuccess s i insert hi
      · cases h
    | insertFailure i =>
      simp only [step] at h
      split at h
      · rename_i insert hi
        cases h
        exact .insertFailure s i insert hi
      · cases h
  · intro h
    cases h with
    | record envelope =>
      simp only [step]
      rw [afterRecord_eq]
    | flushIdle hsize => simp [step, flushBatch, hsize]
    | flushStart hsize => simp [step, flushBatch, hsize]
    | serverApply i batch hi => simp [step, hi]
    | insertSuccess i insert hi => simp [step, hi, flushSettled]
    | insertFailure i insert hi => simp [step, hi, flushSettled]

/-! ## What a run has recorded -/

/-- The click of a call of `record`. -/
def Action.click? : Action → Option ClickEnvelope
  | .record envelope => some envelope
  | _ => none

/-- The clicks handed to `record` in a run, in order. -/
def clicksOf (acts : List Action) : List ClickEnvelope := acts.filterMap Action.click?

/-- The number of clicks recorded under a bucket key; calls that throw record nothing. -/
def keyCount (host : Host) (clicks : List ClickEnvelope) (key : String) : Nat :=
  (clicks.filterMap (keyOf host)).count key

/-- The ad and the window of a click. -/
def pairOf (host : Host) (envelope : ClickEnvelope) : Option (String × MinuteWindow) :=
  (windowOf host envelope).map fun window => (envelope.adId, window)

/-- The number of clicks recorded for an ad in a window. -/
def pairCount (host : Host) (clicks : List ClickEnvelope) (adId : String)
    (window : MinuteWindow) : Nat :=
  (clicks.filterMap (pairOf host)).count (adId, window)

@[simp] theorem clicksOf_append (as bs : List Action) :
    clicksOf (as ++ bs) = clicksOf as ++ clicksOf bs :=
  List.filterMap_append

theorem clicksOf_snoc_record (acts : List Action) (envelope : ClickEnvelope) :
    clicksOf (acts ++ [.record envelope]) = clicksOf acts ++ [envelope] :=
  clicksOf_append acts [.record envelope]

/-- Only calls of `record` add clicks. -/
theorem clicksOf_snoc_of_click?_none (acts : List Action) {a : Action} (h : a.click? = none) :
    clicksOf (acts ++ [a]) = clicksOf acts := by
  rw [clicksOf_append]
  simp [clicksOf, h]

theorem keyCount_append (host : Host) (cs ds : List ClickEnvelope) (key : String) :
    keyCount host (cs ++ ds) key = keyCount host cs key + keyCount host ds key := by
  simp [keyCount]

theorem keyCount_single (host : Host) (click : ClickEnvelope) (key : String) :
    keyCount host [click] key = (keyOf host click).toList.count key := by
  simp only [keyCount]
  rw [List.filterMap_cons]
  cases keyOf host click with
  | none => rfl
  | some key' => rfl

theorem pairCount_append (host : Host) (cs ds : List ClickEnvelope) (adId : String)
    (window : MinuteWindow) :
    pairCount host (cs ++ ds) adId window =
      pairCount host cs adId window + pairCount host ds adId window := by
  simp [pairCount]

theorem pairCount_single (host : Host) (click : ClickEnvelope) (adId : String)
    (window : MinuteWindow) :
    pairCount host [click] adId window = (pairOf host click).toList.count (adId, window) := by
  simp only [pairCount]
  rw [List.filterMap_cons]
  cases pairOf host click with
  | none => rfl
  | some pair => rfl

/-- A call of `record` adds to the buckets what it adds to the clicks recorded. -/
theorem count_tally_keyOf (host : Host) (acts : List Action) (click : ClickEnvelope)
    (buckets : Buckets) (key : String) :
    (buckets.tally (keyOf host click).toList).count key + keyCount host (clicksOf acts) key =
      buckets.count key + keyCount host (clicksOf (acts ++ [.record click])) key := by
  rw [InsertionMap.count_tally, clicksOf_snoc_record, keyCount_append, keyCount_single]
  omega

theorem keyOf_eq (host : Host) (click : ClickEnvelope) :
    keyOf host click = (pairOf host click).map fun p => windowKey p.1 p.2 := by
  simp only [keyOf, pairOf]
  rw [Option.map_map]
  rfl

/-- Counting by bucket key is counting by ad and window. -/
theorem keyCount_windowKey (host : Host) (clicks : List ClickEnvelope) (adId : String)
    (window : MinuteWindow) :
    keyCount host clicks (windowKey adId window) = pairCount host clicks adId window := by
  have hmap : clicks.filterMap (keyOf host) =
      (clicks.filterMap (pairOf host)).map fun p => windowKey p.1 p.2 := by
    rw [List.map_filterMap]
    exact congrArg (List.filterMap · clicks) (funext (keyOf_eq host))
  have hinj : Function.Injective fun p : String × MinuteWindow => windowKey p.1 p.2 := by
    intro p q h
    obtain ⟨hfst, hsnd⟩ := windowKey_injective h
    exact Prod.ext hfst hsnd
  simp only [keyCount, pairCount]
  rw [hmap]
  exact List.count_map_of_injective _ _ hinj (adId, window)

/-- A sequence of records adds to the bucket of a pair its number of clicks. -/
theorem count_recordAll (host : Host) (clicks : List ClickEnvelope) (buckets : Buckets)
    (adId : String) (window : MinuteWindow) :
    (recordAll host clicks buckets).count (windowKey adId window) =
      buckets.count (windowKey adId window) + pairCount host clicks adId window := by
  rw [recordAll_eq, InsertionMap.count_tally, ← keyCount_windowKey]
  rfl

end AdClick.Window
