import AdClick.Counter.Counters

/-!
# Counters of 32 bits

The Java and the C# service count in an `int`, whose arithmetic wraps without notice. The total is
added up from the counts and the tally of duplicates is kept apart, so the two wrap at different
times: a snapshot is exact while there are fewer than `2 ^ 31` distinct click ids and fewer than
`2 ^ 31` duplicates, and from then on it never is (`snapshot_is_exact_iff`).
-/

set_option autoImplicit false

namespace AdClick.Counter

open AdClick.Library

/-- Neither the distinct click ids nor the duplicates have left the 32-bit range. -/
def InRange (ds : List ClickEnvelope) : Prop :=
  distinctIds ds < 2 ^ 31 ∧ ds.length < distinctIds ds + 2 ^ 31

/-- As exact integers, the counts are positive, the total is the number of distinct click ids, and
total and duplicates add up to the calls. -/
def Exact (ds : List ClickEnvelope) (report : Snapshot Int32) : Prop :=
  (∀ adId n, report.counts.get? adId = some n → 0 < n.toInt) ∧
    report.totalUnique.toInt = distinctIds ds ∧
    report.totalUnique.toInt + report.duplicatesRejected.toInt = ds.length

/-- No report over 32-bit counters is exact when a total is out of range. -/
theorem inRange_of_exact {ds : List ClickEnvelope} {report : Snapshot Int32}
    (h : Exact ds report) : InRange ds := by
  obtain ⟨-, htotal, hsum⟩ := h
  have htotalLt := Int32.toInt_lt report.totalUnique
  have hduplicatesLt := Int32.toInt_lt report.duplicatesRejected
  constructor <;> omega

/-- While no total has left the range, a snapshot that copies every entry is the true report. -/
theorem exact_eq_of_inRange {language : Language} {ds : List ClickEnvelope} (h : InRange ds)
    (order : Enumeration (recorded Int32 language ds).counts) :
    (snapshotWith InsertionMap.set order.entries (recorded Int32 language ds).duplicates).exact
      Int32.toInt = trueReport ds := by
  have hcomm : ∀ a b c : Int32, a + b + c = a + c + b := by
    intro a b c
    rw [Int32.add_assoc, Int32.add_comm b c, ← Int32.add_assoc]
  exact snapshotWith_set_exact isCounting_int32 Int32.ofNat_add hcomm
    (fun _ hn => Int32.toInt_ofNat_of_lt hn) h.1 h.2 order

/-- The true report is exact. -/
theorem exact_of_eq {ds : List ClickEnvelope} {report : Snapshot Int32}
    (h : report.exact Int32.toInt = trueReport ds) : Exact ds report := by
  have htotal : report.totalUnique.toInt = distinctIds ds := congrArg ExactReport.totalUnique h
  have hduplicates : report.duplicatesRejected.toInt = ds.length - distinctIds ds :=
    congrArg ExactReport.duplicatesRejected h
  refine ⟨?_, htotal, by omega⟩
  intro adId n hn
  have hcount : (report.counts.get? adId).map Int32.toInt =
      if distinctClicks ds adId = 0 then none else some (distinctClicks ds adId : Int) :=
    congrFun (congrArg ExactReport.counts h) adId
  rw [hn] at hcount
  -- an ad that is reported has been counted
  split at hcount
  · cases hcount
  · have hvalue := Option.some.inj hcount
    omega

/-- After a run, the snapshot of the Java and of the C# service is exact exactly when no total has
left the range, in whatever order the counts are enumerated. -/
theorem snapshot_is_exact_iff (ds : List ClickEnvelope) :
    (∀ order, Exact ds (Java.snapshot (recorded Int32 .java ds) order) ↔ InRange ds) ∧
      ∀ order, Exact ds (CSharp.snapshot (recorded Int32 .csharp ds) order) ↔ InRange ds := by
  constructor
  · intro order
    exact ⟨inRange_of_exact, fun h => exact_of_eq (exact_eq_of_inRange h order)⟩
  · intro order
    exact ⟨inRange_of_exact, fun h => exact_of_eq (exact_eq_of_inRange h order)⟩

/-- One click, delivered so often that the duplicates do not fit in 32 bits. -/
def redeliveredClick : List ClickEnvelope := List.replicate (2 ^ 31 + 1) ⟨"c-1", "ad-1"⟩

/-- The tally of duplicates has wrapped. -/
theorem redeliveredClick_wraps :
    ¬ Exact redeliveredClick (Java.snapshot (recorded Int32 .java redeliveredClick) .ofEntries) ∧
      ¬ Exact redeliveredClick
        (CSharp.snapshot (recorded Int32 .csharp redeliveredClick) .ofEntries) := by
  have hout : ¬ InRange redeliveredClick := by
    rintro ⟨-, hlength⟩
    have hdistinct : distinctIds redeliveredClick = 1 := by
      rw [distinctIds, redeliveredClick, List.map_replicate, List.replicate_dedup (by omega)]
      rfl
    rw [hdistinct, redeliveredClick, List.length_replicate] at hlength
    omega
  exact ⟨fun h => hout (inRange_of_exact h), fun h => hout (inRange_of_exact h)⟩

end AdClick.Counter
