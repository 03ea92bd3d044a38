import AdClick.Counter.Counters
import Mathlib.Algebra.BigOperators.Ring.Finset

/-!
# The report of the TypeScript service

`snapshot` copies the counts into a plain object, on which the assignment to `__proto__` does
nothing, and adds them up as Numbers. So the report adds up exactly when no counted click has the ad
`__proto__` and no Number has run out of precision (`counts_add_up_iff`): a counter gets stuck at
`2 ^ 53`, and a total that is greater may be rounded. With at most `2 ^ 53` calls only the ad
`__proto__` matters.
-/

set_option autoImplicit false

namespace AdClick.Counter

open AdClick.Ecma AdClick.Library

/-- The ads in the order in which they were first counted. -/
def adsInOrder (ds : List ClickEnvelope) : List String :=
  firsts id ∅ ((firstDeliveries ds).map ClickEnvelope.adId)

/-- The number of distinct clicks of every counted ad, in that order. -/
def countsInOrder (ds : List ClickEnvelope) : List Nat := (adsInOrder ds).map (distinctClicks ds)

/-- As exact integers: `counts` has one key per counted ad, with its number of distinct clicks; the
values add up to the total, which is the number of distinct click ids; and total and duplicates add
up to the calls. -/
def AddsUp (ds : List ClickEnvelope) (report : Snapshot Number) : Prop :=
  (∀ adId, (report.counts.get? adId).map Number.value =
    if distinctClicks ds adId = 0 then none else some (distinctClicks ds adId : Int)) ∧
  (report.counts.values.map Number.value).sum = report.totalUnique.value ∧
  report.totalUnique.value = distinctIds ds ∧
  report.totalUnique.value + report.duplicatesRejected.value = ds.length

/-- No counted click has the ad `__proto__`, and no counter, sum or tally is too great for a
Number. -/
def Reportable (ds : List ClickEnvelope) : Prop :=
  distinctClicks ds "__proto__" = 0 ∧ (∀ adId, distinctClicks ds adId ≤ 2 ^ 53) ∧
    SumsExactly (countsInOrder ds) ∧ ds.length ≤ distinctIds ds + 2 ^ 53

/-! ## The order of the counts -/

theorem values_afterDeliveries (ds : List ClickEnvelope) :
    (afterDeliveries .typescript ds).counts.values = countsInOrder ds := by
  obtain ⟨-, hcounts, -⟩ := after_deliveries .typescript ds .empty
  have hkeys : (afterDeliveries .typescript ds).counts.entries.map Prod.fst = adsInOrder ds := by
    rw [afterDeliveries, hcounts, InsertionMap.map_fst_tally]
    rfl
  rw [InsertionMap.values_eq_map_count, hkeys, countsInOrder]
  exact List.map_congr_left fun adId _ => count_afterDeliveries .typescript ds adId

/-! ## What is reported -/

/-- The report after a run. -/
def reportOf (ds : List ClickEnvelope) : Snapshot Number :=
  TypeScript.snapshot (recorded Number .typescript ds)

theorem reportOf_eq (ds : List ClickEnvelope) :
    let s := afterDeliveries .typescript ds
    reportOf ds =
      ⟨(s.counts.mapValues Number.ofCount).restrict fun adId => adId ≠ "__proto__",
        (s.counts.values.map Number.ofCount).foldl (· + ·) 0, Number.ofCount s.duplicates⟩ := by
  intro s
  rw [reportOf, recorded_eq isCounting_number, TypeScript.snapshot, snapshotWith_eq]
  have hcopied : (s.mapCounters Number.ofCount).counts.entries.foldl
      (fun counts e => TypeScript.assign counts e.1 e.2) .empty =
        (s.counts.mapValues Number.ofCount).restrict fun adId => adId ≠ "__proto__" := by
    rw [← InsertionMap.foldl_set_entries]
    simp only [TypeScript.assign, decide_eq_true_eq]
    rfl
  have hvalues : (s.mapCounters Number.ofCount).counts.entries.map Prod.snd =
      s.counts.values.map Number.ofCount := InsertionMap.values_mapValues _ _
  rw [hcopied, hvalues]
  rfl

/-- The count that is reported for an ad, if any. -/
theorem get?_reportOf (ds : List ClickEnvelope) (adId : String) :
    ((reportOf ds).counts.get? adId).map Number.value =
      if adId = "__proto__" ∨ distinctClicks ds adId = 0 then none
      else some (Number.ofCount (distinctClicks ds adId)).value := by
  rw [reportOf_eq]
  by_cases hproto : adId = "__proto__"
  · rw [if_pos (Or.inl hproto), InsertionMap.get?_restrict_of_neg (by simpa using hproto)]
    rfl
  · rw [InsertionMap.get?_restrict (by simpa using hproto), InsertionMap.get?_mapValues,
      get?_afterDeliveries]
    by_cases hzero : distinctClicks ds adId = 0
    · rw [if_pos hzero, if_pos (Or.inr hzero)]
      rfl
    · rw [if_neg hzero, if_neg (not_or.2 ⟨hproto, hzero⟩)]
      rfl

/-- Every reported count is right exactly when none is left out or stuck. -/
theorem counts_right_iff (ds : List ClickEnvelope) :
    (∀ adId, ((reportOf ds).counts.get? adId).map Number.value =
        if distinctClicks ds adId = 0 then none else some (distinctClicks ds adId : Int)) ↔
      distinctClicks ds "__proto__" = 0 ∧ ∀ adId, distinctClicks ds adId ≤ 2 ^ 53 := by
  simp only [get?_reportOf]
  constructor
  · intro h
    have hproto : distinctClicks ds "__proto__" = 0 := by
      by_contra hne
      have hreported := h "__proto__"
      rw [if_pos (Or.inl rfl), if_neg hne] at hreported
      cases hreported
    refine ⟨hproto, ?_⟩
    intro adId
    by_cases hzero : distinctClicks ds adId = 0
    · omega
    · have hne : adId ≠ "__proto__" := by
        rintro rfl
        exact hzero hproto
      have hreported := h adId
      rw [if_neg (not_or.2 ⟨hne, hzero⟩), if_neg hzero] at hreported
      exact (Number.value_ofCount_eq_iff _).1 (Option.some.inj hreported)
  · rintro ⟨hproto, hle⟩ adId
    by_cases hzero : distinctClicks ds adId = 0
    · rw [if_pos (Or.inr hzero), if_pos hzero]
    · have hne : adId ≠ "__proto__" := by
        rintro rfl
        exact hzero hproto
      rw [if_neg (not_or.2 ⟨hne, hzero⟩), if_neg hzero,
        (Number.value_ofCount_eq_iff _).2 (hle adId)]

/-- While the counts are exact, the total is their sum as Numbers. -/
theorem value_foldl_ofCount (ns : List Nat) :
    ∀ total : Number, (∀ n ∈ ns, n ≤ 2 ^ 53) →
      ((ns.map Number.ofCount).foldl (· + ·) total).value =
        ns.foldl (fun (sum : Int) (n : Nat) => numberValue (sum + n)) total.value := by
  induction ns with
  | nil => exact fun _ _ => rfl
  | cons n ns ih =>
    intro total h
    rw [List.map_cons, List.foldl_cons, ih _ fun m hm => h m (List.mem_cons_of_mem n hm),
      Number.value_add, (Number.value_ofCount_eq_iff n).2 (h n List.mem_cons_self), List.foldl_cons]

theorem countsInOrder_le {ds : List ClickEnvelope}
    (h : ∀ adId, distinctClicks ds adId ≤ 2 ^ 53) : ∀ n ∈ countsInOrder ds, n ≤ 2 ^ 53 := by
  intro n hn
  obtain ⟨adId, -, rfl⟩ := List.mem_map.1 hn
  exact h adId

theorem sum_countsInOrder (ds : List ClickEnvelope) : (countsInOrder ds).sum = distinctIds ds := by
  rw [← values_afterDeliveries, sum_counts_afterDeliveries]

/-- While the counts are exact, the total is right exactly when they sum exactly. -/
theorem total_right_iff {ds : List ClickEnvelope} (h : ∀ adId, distinctClicks ds adId ≤ 2 ^ 53) :
    (reportOf ds).totalUnique.value = distinctIds ds ↔ SumsExactly (countsInOrder ds) := by
  have htotal : (reportOf ds).totalUnique.value =
      (countsInOrder ds).foldl (fun (sum : Int) (n : Nat) => numberValue (sum + n)) 0 := by
    rw [reportOf_eq, values_afterDeliveries]
    exact value_foldl_ofCount (countsInOrder ds) 0 (countsInOrder_le h)
  rw [htotal, SumsExactly, sum_countsInOrder]

/-- Without the ad `__proto__`, the exact counts of the copy add up to the distinct click ids. -/
theorem sum_reported {ds : List ClickEnvelope} (hproto : distinctClicks ds "__proto__" = 0)
    (hle : ∀ adId, distinctClicks ds adId ≤ 2 ^ 53) :
    ((reportOf ds).counts.values.map Number.value).sum = distinctIds ds := by
  have hnames : ∀ adId,
      ((afterDeliveries .typescript ds).counts.mapValues Number.ofCount).get? adId ≠ none →
        decide (adId ≠ "__proto__") = true := by
    intro adId hcounted
    refine decide_eq_true ?_
    rintro rfl
    rw [InsertionMap.get?_mapValues, get?_afterDeliveries, if_pos hproto] at hcounted
    exact hcounted rfl
  have hall : (reportOf ds).counts =
      (afterDeliveries .typescript ds).counts.mapValues Number.ofCount := by
    rw [reportOf_eq]
    exact InsertionMap.restrict_eq_self hnames
  have hvalues : (reportOf ds).counts.values.map Number.value =
      (countsInOrder ds).map fun n : Nat => (n : Int) := by
    rw [hall, InsertionMap.values_mapValues, values_afterDeliveries, List.map_map]
    exact List.map_congr_left fun n hn =>
      (Number.value_ofCount_eq_iff n).2 (countsInOrder_le hle n hn)
  rw [hvalues, ← sum_countsInOrder]
  exact (Nat.cast_list_sum _).symm

/-- The report of the TypeScript service adds up exactly when the run is reportable. -/
theorem counts_add_up_iff (ds : List ClickEnvelope) :
    AddsUp ds (TypeScript.snapshot (recorded Number .typescript ds)) ↔ Reportable ds := by
  have hduplicates := duplicates_afterDeliveries .typescript ds
  have htally : (reportOf ds).duplicatesRejected =
      Number.ofCount (afterDeliveries .typescript ds).duplicates := by
    rw [reportOf_eq]
  have htallyIff := Number.value_ofCount_eq_iff (afterDeliveries .typescript ds).duplicates
  rw [← htally] at htallyIff
  constructor
  · rintro ⟨hcounts, -, htotal, hsum⟩
    obtain ⟨hproto, hle⟩ := (counts_right_iff ds).1 hcounts
    refine ⟨hproto, hle, (total_right_iff hle).1 htotal, ?_⟩
    change (reportOf ds).totalUnique.value = _ at htotal
    change (reportOf ds).totalUnique.value + (reportOf ds).duplicatesRejected.value = _ at hsum
    have hexact := htallyIff.1 (by omega)
    omega
  · rintro ⟨hproto, hle, hsums, hlength⟩
    have htotal := (total_right_iff hle).2 hsums
    have hexact := htallyIff.2 (by omega)
    refine ⟨(counts_right_iff ds).2 ⟨hproto, hle⟩, ?_, htotal, ?_⟩
    · exact (sum_reported hproto hle).trans htotal.symm
    · refine (congrArg₂ HAdd.hAdd htotal hexact).trans ?_
      omega

/-- A click of the ad `__proto__` is in the total, but under no key. -/
theorem proto_click_is_not_reported :
    ¬ AddsUp [⟨"c-1", "__proto__"⟩]
      (TypeScript.snapshot (recorded Number .typescript [⟨"c-1", "__proto__"⟩])) := by
  rintro ⟨hcounts, -⟩
  exact absurd ((counts_right_iff _).1 hcounts).1 (by decide)

end AdClick.Counter
