import AdClick.Counter.Service
import AdClick.Library.FirstOccurrence
import AdClick.Library.Runs
import Mathlib.Data.Finset.Lattice.Lemmas

/-!
# Counting under at-least-once delivery

A run of `record` counts exactly the first deliveries of the click ids (`after_deliveries`), each
under the ad that its first delivery carries. When every click id always carries the same ad, the
ads of the first deliveries are a matter of which envelopes were delivered, so that neither
reordering nor redelivery changes the ids seen or the counts (`counting_is_idempotent`).
-/

set_option autoImplicit false

namespace AdClick.Counter

open AdClick.Library

/-- The service after the deliveries. -/
def afterDeliveries (language : Language) (ds : List ClickEnvelope) : CounterService Nat :=
  after (step language) .empty ds

/-- What the calls for the deliveries return. -/
def returned (language : Language) (ds : List ClickEnvelope) : List Bool :=
  outputs (step language) (CounterService.empty : CounterService Nat) ds

/-- The deliveries with a click id that has not been delivered before. -/
def firstDeliveries (ds : List ClickEnvelope) : List ClickEnvelope :=
  firsts ClickEnvelope.clickId ∅ ds

/-- The ad that the first delivery of a click id carries. -/
def firstAd (ds : List ClickEnvelope) (clickId : String) : Option String :=
  (ds.find? fun d => d.clickId = clickId).map ClickEnvelope.adId

/-- The number of distinct click ids whose first delivery carries the ad. -/
def distinctClicks (ds : List ClickEnvelope) (adId : String) : Nat :=
  (ds.map ClickEnvelope.clickId).dedup.countP fun clickId => firstAd ds clickId = some adId

/-- Every click id always carries the same ad. -/
def AdOfClick (ds : List ClickEnvelope) : Prop :=
  ∀ d ∈ ds, ∀ e ∈ ds, d.clickId = e.clickId → d.adId = e.adId

/-! ## One run -/

/-- The state after some deliveries, from any state. -/
theorem after_deliveries (language : Language) (ds : List ClickEnvelope) :
    ∀ s : CounterService Nat,
      (after (step language) s ds).seen = s.seen ∪ (ds.map ClickEnvelope.clickId).toFinset ∧
      (after (step language) s ds).counts =
        s.counts.tally ((firsts ClickEnvelope.clickId s.seen ds).map ClickEnvelope.adId) ∧
      (after (step language) s ds).duplicates +
          (firsts ClickEnvelope.clickId s.seen ds).length = s.duplicates + ds.length := by
  induction ds with
  | nil =>
    intro s
    exact ⟨(Finset.union_empty s.seen).symm, rfl, rfl⟩
  | cons d ds ih =>
    intro s
    rw [after_cons, step_eq]
    by_cases h : d.clickId ∈ s.seen
    · -- a duplicate: no first occurrence, and its id is already in the set
      rw [if_pos h, firsts, if_pos h]
      obtain ⟨hseen, hcounts, hduplicates⟩ := ih { s with duplicates := s.duplicates + 1 }
      refine ⟨?_, hcounts, ?_⟩
      · rw [hseen, List.map_cons, List.toFinset_cons, Finset.union_insert]
        exact (Finset.insert_eq_of_mem (Finset.mem_union_left _ h)).symm
      · refine hduplicates.trans ?_
        rw [List.length_cons]
        exact Nat.add_right_comm s.duplicates 1 ds.length
    · -- a new click: the next first occurrence
      rw [if_neg h, firsts, if_neg h]
      obtain ⟨hseen, hcounts, hduplicates⟩ := ih
        { s with
          seen := insert d.clickId s.seen
          counts := s.counts.increment d.adId }
      refine ⟨?_, hcounts, ?_⟩
      · rw [hseen, List.map_cons, List.toFinset_cons, Finset.union_insert, Finset.insert_union]
      · simp only [List.length_cons] at hduplicates ⊢
        omega

/-- The set of seen ids is the set of delivered ids. -/
theorem seen_afterDeliveries (language : Language) (ds : List ClickEnvelope) :
    (afterDeliveries language ds).seen = (ds.map ClickEnvelope.clickId).toFinset := by
  obtain ⟨hseen, -, -⟩ := after_deliveries language ds .empty
  exact hseen.trans (Finset.empty_union _)

/-- A call counts its click exactly when the click id has not been delivered before. -/
theorem output_at (language : Language) (ds : List ClickEnvelope) {i : Nat} {d : ClickEnvelope}
    (hd : ds[i]? = some d) :
    (returned language ds)[i]? =
      some (decide (d.clickId ∉ (ds.take i).map ClickEnvelope.clickId)) := by
  have hmem : d.clickId ∈ (afterDeliveries language (ds.take i)).seen ↔
      d.clickId ∈ (ds.take i).map ClickEnvelope.clickId := by
    rw [seen_afterDeliveries, List.mem_toFinset]
  rw [returned, outputs_getElem?, hd, Option.map_some, step_eq]
  split
  · rename_i h
    exact congrArg some (decide_eq_false (not_not_intro (hmem.1 h))).symm
  · rename_i h
    have hnew : d.clickId ∉ (ds.take i).map ClickEnvelope.clickId := by
      intro hin
      exact h (hmem.2 hin)
    exact congrArg some (decide_eq_true hnew).symm

/-- The count of an ad is its number of distinct clicks. -/
theorem count_afterDeliveries (language : Language) (ds : List ClickEnvelope) (adId : String) :
    (afterDeliveries language ds).counts.count adId = distinctClicks ds adId := by
  obtain ⟨-, hcounts, -⟩ := after_deliveries language ds .empty
  have hcount : (afterDeliveries language ds).counts.count adId =
      ((firstDeliveries ds).map ClickEnvelope.adId).count adId := by
    rw [afterDeliveries, hcounts, InsertionMap.count_tally]
    exact Nat.zero_add _
  rw [hcount, List.count, List.countP_map, firstDeliveries, countP_firsts, distinctClicks]
  apply List.countP_congr
  intro clickId _
  rw [firstAd]
  cases ds.find? fun d => d.clickId = clickId with
  | none => simp
  | some d => simp

/-- An ad has a count exactly when it has a distinct click. -/
theorem get?_afterDeliveries (language : Language) (ds : List ClickEnvelope) (adId : String) :
    (afterDeliveries language ds).counts.get? adId =
      if distinctClicks ds adId = 0 then none else some (distinctClicks ds adId) := by
  obtain ⟨-, hcounts, -⟩ := after_deliveries language ds .empty
  have hcount := count_afterDeliveries language ds adId
  rw [afterDeliveries, hcounts] at hcount ⊢
  rw [← hcount]
  exact InsertionMap.get?_tally_empty _ adId

/-! ## Two runs -/

/-- The ad of a click id is the ad of any of its deliveries. -/
theorem firstAd_eq_some_iff {ds : List ClickEnvelope} (h : AdOfClick ds) (clickId adId : String) :
    firstAd ds clickId = some adId ↔ ⟨clickId, adId⟩ ∈ ds := by
  simp only [firstAd]
  constructor
  · intro hfirst
    obtain ⟨d, hfind, rfl⟩ := Option.map_eq_some_iff.1 hfirst
    have hid : d.clickId = clickId := by simpa using List.find?_some hfind
    rw [← hid]
    exact List.mem_of_find?_eq_some hfind
  · intro hmem
    cases hfind : ds.find? fun d => d.clickId = clickId with
    | none =>
      have hnone := List.find?_eq_none.1 hfind _ hmem
      simp at hnone
    | some d =>
      -- the delivery found first may be another one, with the same ad
      have hid : d.clickId = clickId := by simpa using List.find?_some hfind
      exact congrArg some (h d (List.mem_of_find?_eq_some hfind) _ hmem hid)

/-- The distinct clicks of an ad depend on the set of envelopes only. -/
theorem distinctClicks_congr {ds ds' : List ClickEnvelope} (h : AdOfClick ds)
    (hsame : ∀ d, d ∈ ds ↔ d ∈ ds') (adId : String) :
    distinctClicks ds adId = distinctClicks ds' adId := by
  have h' : AdOfClick ds' := by
    intro d hd e he
    exact h d ((hsame d).2 hd) e ((hsame e).2 he)
  have hids : (ds.map ClickEnvelope.clickId).dedup.Perm (ds'.map ClickEnvelope.clickId).dedup := by
    apply (List.perm_ext_iff_of_nodup (List.nodup_dedup _) (List.nodup_dedup _)).2
    intro id
    rw [List.mem_dedup, List.mem_dedup, List.mem_map, List.mem_map]
    exact exists_congr fun d => and_congr_left fun _ => hsame d
  rw [distinctClicks, distinctClicks, hids.countP_eq]
  apply List.countP_congr
  intro id _
  rw [decide_eq_true_eq, decide_eq_true_eq, firstAd_eq_some_iff h, firstAd_eq_some_iff h', hsame]

/-- Every language counts each click id once, under the ad of its first delivery; and when click ids
determine ads, deliveries of the same envelopes, in any order and any number of times, lead to the
same set of ids and the same counts. -/
theorem counting_is_idempotent (language : Language) (ds : List ClickEnvelope) :
    (∀ i d, ds[i]? = some d → (returned language ds)[i]? =
      some (decide (d.clickId ∉ (ds.take i).map ClickEnvelope.clickId))) ∧
    (∀ adId, (afterDeliveries language ds).counts.count adId = distinctClicks ds adId) ∧
    (afterDeliveries language ds).seen = (ds.map ClickEnvelope.clickId).toFinset ∧
    (afterDeliveries language ds).duplicates + (ds.map ClickEnvelope.clickId).dedup.length =
      ds.length ∧
    ∀ ds', (∀ d, d ∈ ds ↔ d ∈ ds') → AdOfClick ds →
      (afterDeliveries language ds).seen = (afterDeliveries language ds').seen ∧
      ∀ adId, (afterDeliveries language ds).counts.get? adId =
        (afterDeliveries language ds').counts.get? adId := by
  refine ⟨?_, count_afterDeliveries language ds, seen_afterDeliveries language ds, ?_, ?_⟩
  · intro i d hd
    exact output_at language ds hd
  · -- the duplicates are the deliveries that are no first ones
    obtain ⟨-, -, hduplicates⟩ := after_deliveries language ds .empty
    rw [← length_firsts]
    exact hduplicates.trans (Nat.zero_add _)
  · intro ds' hsame h
    constructor
    · rw [seen_afterDeliveries, seen_afterDeliveries]
      ext id
      simp only [List.mem_toFinset, List.mem_map]
      exact exists_congr fun d => and_congr_left fun _ => hsame d
    · intro adId
      rw [get?_afterDeliveries, get?_afterDeliveries, distinctClicks_congr h hsame]

/-- The second click is delivered before the first, and the first one twice more. -/
def redelivered : List ClickEnvelope := [⟨"c-2", "ad-2"⟩, ⟨"c-1", "ad-1"⟩, ⟨"c-1", "ad-1"⟩]

/-- The redeliveries and the reordering change no count. -/
theorem idempotence_of_redelivered (adId : String) :
    (afterDeliveries .go redelivered).counts.get? adId =
      (afterDeliveries .go [⟨"c-1", "ad-1"⟩, ⟨"c-2", "ad-2"⟩]).counts.get? adId := by
  have hsame : ∀ d, d ∈ redelivered ↔
      d ∈ ([⟨"c-1", "ad-1"⟩, ⟨"c-2", "ad-2"⟩] : List ClickEnvelope) := by
    simp [redelivered, or_comm]
  have had : AdOfClick redelivered := by
    rw [AdOfClick]
    decide
  obtain ⟨-, -, -, -, hcongr⟩ := counting_is_idempotent .go redelivered
  exact (hcongr _ hsame had).2 adId

end AdClick.Counter
