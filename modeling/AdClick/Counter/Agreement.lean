import AdClick.Counter.Report
import AdClick.Counter.Wraparound

/-!
# Four reports of the same deliveries

The Go service counts in integers of 64 bits and copies its counts in an order that changes from
call to call. After the same deliveries, and as long as the totals fit in 32 bits, the reports of
the Java, the C# and the Go service are the true one in every order of the counts, and that of the
TypeScript service is exactly when it has counted no click of the ad `__proto__`
(`four_reports_agree_iff`).
-/

set_option autoImplicit false

namespace AdClick.Counter

open AdClick.Ecma

/-- While the totals fit in 32 bits, nothing but the ad `__proto__` makes the TypeScript report
wrong. -/
theorem reportOf_exact_iff {ds : List ClickEnvelope} (h : InRange ds) :
    (reportOf ds).exact Number.value = trueReport ds ↔ distinctClicks ds "__proto__" = 0 := by
  rcases h with ⟨hdistinct, hlength⟩
  have htally := duplicates_afterDeliveries .typescript ds
  have hle : ∀ adId, distinctClicks ds adId ≤ 2 ^ 53 := by
    intro adId
    by_cases hzero : distinctClicks ds adId = 0
    · omega
    · have hget := get?_afterDeliveries .typescript ds adId
      rw [if_neg hzero] at hget
      have hcount := (count_bounds .typescript ds hget).2
      omega
  have hright := counts_right_iff ds
  constructor
  · intro hexact
    refine (hright.1 ?_).1
    intro adId
    exact congrFun (congrArg ExactReport.counts hexact) adId
  · intro hproto
    have hsum : (countsInOrder ds).sum ≤ 2 ^ 53 := by
      rw [sum_countsInOrder]
      omega
    have hduplicates : (reportOf ds).duplicatesRejected =
        Number.ofCount (afterDeliveries .typescript ds).duplicates := by
      rw [reportOf_eq]
    rw [Snapshot.exact, trueReport, ExactReport.mk.injEq]
    refine ⟨?_, (total_right_iff hle).2 (sumsExactly_of_le hsum), ?_⟩
    · funext adId
      exact hright.2 ⟨hproto, hle⟩ adId
    · rw [hduplicates, (Number.value_ofCount_eq_iff _).2 (by omega)]
      omega

/-- While the totals fit in 32 bits: the reports of the Java, the C# and the Go service are the true
one, in every order of the counts; and that of the TypeScript service is exactly when no click of
the ad `__proto__` was counted. -/
theorem four_reports_agree_iff (ds : List ClickEnvelope) (h : InRange ds) :
    (∀ order, (Java.snapshot (recorded Int32 .java ds) order).exact Int32.toInt =
      trueReport ds) ∧
    (∀ order, (CSharp.snapshot (recorded Int32 .csharp ds) order).exact Int32.toInt =
      trueReport ds) ∧
    (∀ order, (Go.snapshot (recorded Int64 .go ds) order).exact Int64.toInt = trueReport ds) ∧
    ((TypeScript.snapshot (recorded Number .typescript ds)).exact Number.value = trueReport ds ↔
      distinctClicks ds "__proto__" = 0) := by
  have hcomm : ∀ a b c : Int64, a + b + c = a + c + b := by
    intro a b c
    rw [Int64.add_assoc, Int64.add_comm b c, ← Int64.add_assoc]
  obtain ⟨hdistinct, hlength⟩ := h
  -- what fits in 32 bits fits in 64
  have hdistinct64 : distinctIds ds < 2 ^ 63 := by omega
  have hlength64 : ds.length < distinctIds ds + 2 ^ 63 := by omega
  refine ⟨?_, ?_, ?_, reportOf_exact_iff ⟨hdistinct, hlength⟩⟩
  · exact exact_eq_of_inRange ⟨hdistinct, hlength⟩
  · exact exact_eq_of_inRange ⟨hdistinct, hlength⟩
  · exact snapshotWith_set_exact isCounting_int64 Int64.ofNat_add hcomm
      (fun _ hn => Int64.toInt_ofNat_of_lt hn) hdistinct64 hlength64

/-- A click of the ad `__proto__` is reported by all services but the TypeScript one. -/
theorem reports_of_protoClick :
    (∀ order, (Go.snapshot (recorded Int64 .go [⟨"c-1", "__proto__"⟩]) order).exact Int64.toInt =
      trueReport [⟨"c-1", "__proto__"⟩]) ∧
    (TypeScript.snapshot (recorded Number .typescript [⟨"c-1", "__proto__"⟩])).exact
      Number.value ≠ trueReport [⟨"c-1", "__proto__"⟩] := by
  have hrange : InRange [⟨"c-1", "__proto__"⟩] := by
    refine ⟨?_, ?_⟩ <;> decide
  obtain ⟨-, -, hgo, htypescript⟩ := four_reports_agree_iff [⟨"c-1", "__proto__"⟩] hrange
  refine ⟨hgo, ?_⟩
  intro hexact
  exact absurd (htypescript.1 hexact) (by decide)

end AdClick.Counter
