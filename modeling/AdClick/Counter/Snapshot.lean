import AdClick.Counter.Idempotence
import Mathlib.Algebra.Order.BigOperators.Group.List
import Mathlib.Algebra.Order.Ring.Nat

/-!
# Counters of bounded width and what they report

A counter that adds one per click, of whatever width, is a function of the number of clicks
(`IsCounting`), so a run of `record` over such counters is the run over unbounded counters with
every count mapped (`recorded_eq`).

A snapshot copies the counts entry by entry and adds them up on the way. The languages differ in the
assignment to the copy and in the order of the entries: only the TypeScript service enumerates them
in insertion order. A service that assigns every entry reports the true totals in any order, as long
as its integers can hold them (`snapshotWith_set_exact`).
-/

set_option autoImplicit false

namespace AdClick.Counter

open AdClick.Library

/-! ## Counters as functions of the number of clicks -/

section Width

variable {ν : Type} [Zero ν] [One ν] [Add ν]

/-- `ofNat n` is what a counter holds after `n` increments. -/
structure IsCounting (ofNat : Nat → ν) : Prop where
  zero : ofNat 0 = 0
  one : ofNat 1 = 1
  succ : ∀ n, ofNat (n + 1) = ofNat n + 1

/-- The state with every counter mapped. -/
def CounterService.mapCounters (ofNat : Nat → ν) (s : CounterService Nat) : CounterService ν :=
  ⟨s.seen, s.counts.mapValues ofNat, ofNat s.duplicates⟩

/-- The service after the calls of `record`, over counters of a given type. -/
def recorded (ν : Type) [Zero ν] [One ν] [Add ν] (language : Language) (ds : List ClickEnvelope) :
    CounterService ν :=
  after (step language) .empty ds

variable {ofNat : Nat → ν} (h : IsCounting ofNat)

include h

theorem getD_bump_mapValues (counts : InsertionMap String Nat) (adId : String) :
    (counts.mapValues ofNat).set adId (((counts.mapValues ofNat).get? adId).getD 0 + 1) =
      (counts.set adId ((counts.get? adId).getD 0 + 1)).mapValues ofNat := by
  rw [InsertionMap.mapValues_set, InsertionMap.get?_mapValues, h.succ]
  cases counts.get? adId with
  | none =>
    show InsertionMap.set _ adId (0 + 1) = InsertionMap.set _ adId (ofNat 0 + 1)
    rw [h.zero]
  | some n => rfl

theorem java_bump_mapValues (counts : InsertionMap String Nat) (adId : String) :
    Java.bump (counts.mapValues ofNat) adId = (Java.bump counts adId).mapValues ofNat := by
  unfold Java.bump
  rw [InsertionMap.mapValues_set, InsertionMap.get?_mapValues]
  cases counts.get? adId with
  | none => exact congrArg _ h.one.symm
  | some n => exact congrArg _ (h.succ n).symm

/-- A language whose bump maps takes mapped steps. -/
theorem recordWith_mapCounters {bumpMapped : InsertionMap String ν → String → InsertionMap String ν}
    {bump : InsertionMap String Nat → String → InsertionMap String Nat}
    (hbump : ∀ counts adId,
      bumpMapped (counts.mapValues ofNat) adId = (bump counts adId).mapValues ofNat)
    (envelope : ClickEnvelope) (s : CounterService Nat) :
    recordWith bumpMapped envelope (s.mapCounters ofNat) =
      ((recordWith bump envelope s).1, (recordWith bump envelope s).2.mapCounters ofNat) := by
  rw [recordWith_eq, recordWith_eq]
  show (if envelope.clickId ∈ s.seen then _ else _) = _
  by_cases hseen : envelope.clickId ∈ s.seen
  · rw [if_pos hseen, if_pos hseen]
    refine congrArg (Prod.mk false) ?_
    show CounterService.mk _ _ (ofNat s.duplicates + 1) = _
    rw [← h.succ]
    rfl
  · rw [if_neg hseen, if_neg hseen]
    refine congrArg (Prod.mk true) ?_
    show CounterService.mk _ (bumpMapped (s.counts.mapValues ofNat) envelope.adId) _ = _
    rw [hbump]
    rfl

theorem step_mapCounters (language : Language) (s : CounterService Nat) (envelope : ClickEnvelope) :
    step language (s.mapCounters ofNat) envelope =
      ((step language s envelope).1.mapCounters ofNat, (step language s envelope).2) := by
  have hrecord : record language envelope (s.mapCounters ofNat) =
      ((record language envelope s).1, (record language envelope s).2.mapCounters ofNat) := by
    cases language with
    | typescript => exact recordWith_mapCounters h (getD_bump_mapValues h) envelope s
    | java => exact recordWith_mapCounters h (java_bump_mapValues h) envelope s
    | csharp => exact recordWith_mapCounters h (getD_bump_mapValues h) envelope s
    | go => exact recordWith_mapCounters h (getD_bump_mapValues h) envelope s
  unfold step
  rw [hrecord]

/-- A run over counters of any width is the run over unbounded counters, mapped. -/
theorem recorded_eq (language : Language) (ds : List ClickEnvelope) :
    recorded ν language ds = (afterDeliveries language ds).mapCounters ofNat := by
  have hrun : ∀ s : CounterService Nat,
      after (step language) (s.mapCounters ofNat) ds =
        (after (step language) s ds).mapCounters ofNat := by
    induction ds with
    | nil => exact fun _ => rfl
    | cons d ds ih =>
      intro s
      rw [after_cons, after_cons, step_mapCounters h]
      exact ih _
  have hempty : (CounterService.empty : CounterService ν) =
      CounterService.empty.mapCounters ofNat := by
    show CounterService.mk ∅ .empty 0 = CounterService.mk ∅ .empty (ofNat 0)
    rw [h.zero]
  rw [recorded, hempty]
  exact hrun .empty

end Width

/-! ## Totals of a run -/

/-- The number of distinct click ids. -/
def distinctIds (ds : List ClickEnvelope) : Nat := (ds.map ClickEnvelope.clickId).dedup.length

/-- The duplicates of a run are the calls that are no first ones. -/
theorem duplicates_afterDeliveries (language : Language) (ds : List ClickEnvelope) :
    (afterDeliveries language ds).duplicates + distinctIds ds = ds.length := by
  obtain ⟨-, -, hduplicates⟩ := after_deliveries language ds .empty
  rw [distinctIds, ← length_firsts]
  exact hduplicates.trans (Nat.zero_add _)

/-- The counts of a run add up to the distinct click ids. -/
theorem sum_counts_afterDeliveries (language : Language) (ds : List ClickEnvelope) :
    (afterDeliveries language ds).counts.values.sum = distinctIds ds := by
  obtain ⟨-, hcounts, -⟩ := after_deliveries language ds .empty
  rw [afterDeliveries, hcounts, InsertionMap.sum_values_tally, distinctIds, ← length_firsts,
    List.length_map]
  exact Nat.zero_add _

/-- A count of a run is positive, and at most the number of distinct click ids. -/
theorem count_bounds (language : Language) (ds : List ClickEnvelope) {adId : String} {n : Nat}
    (h : (afterDeliveries language ds).counts.get? adId = some n) : 0 < n ∧ n ≤ distinctIds ds := by
  constructor
  · rw [get?_afterDeliveries] at h
    split at h
    · cases h
    · rename_i hne
      cases h
      exact Nat.pos_of_ne_zero hne
  · rw [← sum_counts_afterDeliveries language ds]
    exact List.le_sum_of_mem (List.mem_map_of_mem ((InsertionMap.mem_entries_iff _ adId n).2 h))

/-! ## Snapshots -/

section Report

variable {ν : Type} [Zero ν] [Add ν]

/-- What `snapshot` returns. -/
structure Snapshot (ν : Type) where
  counts : InsertionMap String ν
  totalUnique : ν
  duplicatesRejected : ν

/-- The entries of a map in an order of its own. -/
structure Enumeration (m : InsertionMap String ν) where
  entries : List (String × ν)
  perm : entries.Perm m.entries

def Enumeration.ofEntries {m : InsertionMap String ν} : Enumeration m := ⟨m.entries, .refl _⟩

/-- Copies the entries one by one, and adds up their counts. -/
def snapshotWith (assign : InsertionMap String ν → String → ν → InsertionMap String ν)
    (entries : List (String × ν)) (duplicates : ν) : Snapshot ν :=
  let (counts, totalUnique) := entries.foldl
    (fun (counts, totalUnique) (adId, n) => (assign counts adId n, totalUnique + n)) (.empty, 0)
  { counts, totalUnique, duplicatesRejected := duplicates }

/-- `counts[adId] = n` on a plain object; the setter that every object inherits for `__proto__` does
nothing with a number. -/
def TypeScript.assign (counts : InsertionMap String ν) (adId : String) (n : ν) :
    InsertionMap String ν :=
  if adId ≠ "__proto__" then counts.set adId n else counts

def TypeScript.snapshot (s : CounterService ν) : Snapshot ν :=
  snapshotWith assign s.counts.entries s.duplicates

def Java.snapshot (s : CounterService ν) (order : Enumeration s.counts) : Snapshot ν :=
  snapshotWith InsertionMap.set order.entries s.duplicates

def CSharp.snapshot (s : CounterService ν) (order : Enumeration s.counts) : Snapshot ν :=
  snapshotWith InsertionMap.set order.entries s.duplicates

def Go.snapshot (s : CounterService ν) (order : Enumeration s.counts) : Snapshot ν :=
  snapshotWith InsertionMap.set order.entries s.duplicates

/-- The copy and the sum do not depend on each other. -/
theorem snapshotWith_eq (assign : InsertionMap String ν → String → ν → InsertionMap String ν)
    (entries : List (String × ν)) (duplicates : ν) :
    snapshotWith assign entries duplicates =
      ⟨entries.foldl (fun counts e => assign counts e.1 e.2) .empty,
        (entries.map Prod.snd).foldl (· + ·) 0, duplicates⟩ := by
  have hfold : ∀ acc : InsertionMap String ν × ν,
      entries.foldl (fun acc e => (assign acc.1 e.1 e.2, acc.2 + e.2)) acc =
        (entries.foldl (fun counts e => assign counts e.1 e.2) acc.1,
          (entries.map Prod.snd).foldl (· + ·) acc.2) := by
    induction entries with
    | nil => exact fun _ => rfl
    | cons e rest ih => exact fun acc => ih _
  show Snapshot.mk (entries.foldl (fun acc e => (assign acc.1 e.1 e.2, acc.2 + e.2)) (.empty, 0)).1
    (entries.foldl (fun acc e => (assign acc.1 e.1 e.2, acc.2 + e.2)) (.empty, 0)).2 _ = _
  rw [hfold]

end Report

/-! ## Exact reports -/

/-- A report as exact integers. -/
structure ExactReport where
  counts : String → Option Int
  totalUnique : Int
  duplicatesRejected : Int

def Snapshot.exact {ν : Type} (toInt : ν → Int) (report : Snapshot ν) : ExactReport :=
  ⟨fun adId => (report.counts.get? adId).map toInt, toInt report.totalUnique,
    toInt report.duplicatesRejected⟩

/-- The report that the deliveries call for: the distinct clicks of every counted ad, the distinct
click ids, and the deliveries beyond them. -/
def trueReport (ds : List ClickEnvelope) : ExactReport :=
  ⟨fun adId => if distinctClicks ds adId = 0 then none else some (distinctClicks ds adId),
    distinctIds ds, ds.length - distinctIds ds⟩

/-! ## Copies in any order -/

/-- A copy of the entries has the counts of the map, whatever the order. -/
theorem get?_copy {ν : Type} {m : InsertionMap String ν} {entries : List (String × ν)}
    (h : entries.Perm m.entries) (adId : String) :
    (entries.foldl (fun counts e => counts.set e.1 e.2) InsertionMap.empty).get? adId =
      m.get? adId := by
  have hnodup : (entries.map Prod.fst).Nodup := (h.map Prod.fst).nodup_iff.2 m.nodup
  have hcopied : (entries.foldl (fun counts e => counts.set e.1 e.2)
      (InsertionMap.empty : InsertionMap String ν)).entries = entries := by
    simpa using InsertionMap.entries_foldl_set (fun _ => true) entries .empty hnodup
  apply Option.ext
  intro n
  rw [← InsertionMap.mem_entries_iff, hcopied, h.mem_iff, InsertionMap.mem_entries_iff]

/-- A sum of mapped counts is the mapped sum, whatever the order. -/
theorem foldl_add_copy {ν : Type} [Zero ν] [Add ν] {ofNat : Nat → ν} (hzero : ofNat 0 = 0)
    (hadd : ∀ m n, ofNat (m + n) = ofNat m + ofNat n)
    (hcomm : ∀ a b c : ν, a + b + c = a + c + b) {xs : List ν} {ns : List Nat}
    (h : xs.Perm (ns.map ofNat)) : xs.foldl (· + ·) 0 = ofNat ns.sum := by
  have hright : RightCommutative fun a b : ν => a + b := ⟨hcomm⟩
  have hsum : ∀ k, (ns.map ofNat).foldl (· + ·) (ofNat k) = ofNat (k + ns.sum) := by
    clear h
    induction ns with
    | nil => exact fun _ => rfl
    | cons n ns ih =>
      intro k
      rw [List.map_cons, List.foldl_cons, ← hadd, ih, List.sum_cons, Nat.add_assoc]
  rw [h.foldl_eq, ← hzero, hsum 0, Nat.zero_add]

/-- What a service reports that counts in machine integers and copies every entry. -/
theorem snapshotWith_set_exact {ν : Type} [Zero ν] [One ν] [Add ν] {ofNat : Nat → ν}
    (hcounting : IsCounting ofNat) (hadd : ∀ m n, ofNat (m + n) = ofNat m + ofNat n)
    (hcomm : ∀ a b c : ν, a + b + c = a + c + b) {toInt : ν → Int} {bound : Nat}
    (hexact : ∀ n, n < bound → toInt (ofNat n) = n) {language : Language}
    {ds : List ClickEnvelope} (hdistinct : distinctIds ds < bound)
    (hduplicates : ds.length < distinctIds ds + bound)
    (order : Enumeration (recorded ν language ds).counts) :
    (snapshotWith InsertionMap.set order.entries (recorded ν language ds).duplicates).exact toInt =
      trueReport ds := by
  -- the report of the machine integers is that of the exact counts, entry by entry
  obtain ⟨entries, perm⟩ := order
  change (snapshotWith InsertionMap.set entries (recorded ν language ds).duplicates).exact toInt = _
  rw [recorded_eq hcounting] at perm ⊢
  have htally := duplicates_afterDeliveries language ds
  rw [snapshotWith_eq, Snapshot.exact, trueReport, ExactReport.mk.injEq]
  refine ⟨?_, ?_, ?_⟩
  · funext adId
    have hcopy := get?_copy perm adId
    refine (congrArg (Option.map toInt) hcopy).trans ?_
    change (((afterDeliveries language ds).counts.mapValues ofNat).get? adId).map toInt = _
    rw [InsertionMap.get?_mapValues]
    cases hget : (afterDeliveries language ds).counts.get? adId with
    | none =>
      rw [get?_afterDeliveries] at hget
      split at hget
      · rename_i hzero
        rw [if_pos hzero]
        rfl
      · cases hget
    | some n =>
      -- no count exceeds the number of distinct clicks, so none has wrapped
      have hle := (count_bounds language ds hget).2
      rw [get?_afterDeliveries] at hget
      split at hget
      · cases hget
      · rename_i hne
        cases hget
        rw [if_neg hne, Option.map_some, Option.map_some,
          hexact _ (Nat.lt_of_le_of_lt hle hdistinct)]
  · have hvalues : (entries.map Prod.snd).Perm
        ((afterDeliveries language ds).counts.values.map ofNat) := by
      have hmap := perm.map Prod.snd
      rw [← InsertionMap.values_mapValues]
      exact hmap
    refine (congrArg toInt (foldl_add_copy hcounting.zero hadd hcomm hvalues)).trans ?_
    rw [sum_counts_afterDeliveries, hexact _ hdistinct]
  · refine (hexact _ (by omega : (afterDeliveries language ds).duplicates < bound)).trans ?_
    omega

end AdClick.Counter
