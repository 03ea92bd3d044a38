import AdClick.Watermark.Quota
import AdClick.Watermark.Reference
import Mathlib.Algebra.BigOperators.Group.Finset.Piecewise
import Mathlib.Algebra.Order.BigOperators.Group.Finset

/-!
# Changing the settings

The tolerance and the threshold are read from the environment. Two services that differ in them see
the same watermark at every click, so with the larger tolerance fewer clicks are late. That shifts
the ranks of later clicks, so that a click which was accepted can become fraud; but a pair of an IP
and a minute has at least as many clicks that are not late, and the number of accepted ones is the
smaller of that and the threshold. So looser settings never lose an accepted click of a pair, nor in
total (`looser_settings_accept_more`). A negative tolerance would let the watermark differ, as a
late click can then be ahead of it.
-/

set_option autoImplicit false

namespace AdClick.Watermark

open AdClick.Library AdClick.Ecma

universe u

/-- Neither setting is smaller, and the tolerances are not negative. -/
structure Config.Looser (config config' : Config) : Prop where
  tolerance_nonneg : 0 ≤ config.watermarkToleranceMs
  tolerance_le : config.watermarkToleranceMs ≤ config'.watermarkToleranceMs
  threshold_le : config.fraudThreshold ≤ config'.fraudThreshold

/-! ## Lateness and ranks -/

section Reference

variable {κ : Type u} {tolerance tolerance' : Int} (cs : List (Click κ))

/-- A click that is late under the larger tolerance is late under the smaller one. -/
theorem lateAt_of_le (hle : tolerance ≤ tolerance') {i : Nat} (h : lateAt tolerance' cs i = true) :
    lateAt tolerance cs i = true := by
  cases hc : cs[i]? with
  | none =>
    rw [lateAt, hc] at h
    cases h
  | some c =>
    rw [lateAt_iff hc] at h ⊢
    obtain ⟨hpos, hlt⟩ := h
    exact ⟨hpos, by omega⟩

/-- Under the larger tolerance a key has at least as many clicks that are not late. -/
theorem onTimeCount_le [DecidableEq κ] (hle : tolerance ≤ tolerance') (k : κ) (n : Nat) :
    onTimeCount tolerance cs k n ≤ onTimeCount tolerance' cs k n := by
  apply List.countP_mono_left
  intro j _ h
  rw [Bool.and_eq_true, Bool.not_eq_true'] at h ⊢
  refine ⟨?_, h.2⟩
  rw [Bool.eq_false_iff]
  intro hlate
  exact Bool.eq_false_iff.1 h.1 (lateAt_of_le cs hle hlate)

end Reference

/-! ## Totals -/

/-- Entries at the same places that imply each other's conditions are counted alike. -/
theorem countP_le_of_getElem? {α : Type u} {p q : α → Bool} {xs : List α} :
    ∀ {ys : List α}, xs.length = ys.length →
      (∀ (i : Nat) (x y : α), xs[i]? = some x → ys[i]? = some y → p x = true → q y = true) →
      xs.countP p ≤ ys.countP q := by
  induction xs with
  | nil =>
    intro ys _ _
    exact Nat.zero_le _
  | cons x xs ih =>
    intro ys hlength h
    cases ys with
    | nil => cases hlength
    | cons y ys =>
      have hrest := ih (Nat.succ.inj hlength) fun i a b ha hb => h (i + 1) a b ha hb
      have hhead := h 0 x y rfl rfl
      rw [List.countP_cons, List.countP_cons]
      cases hp : p x with
      | false => exact Nat.le_trans hrest (Nat.le_add_right _ _)
      | true =>
        rw [hhead hp]
        exact Nat.succ_le_succ hrest

variable {host : Host}

/-- The entries with a status are those of the pairs. -/
theorem sum_entriesOf (status : Status) {pairs : Finset (String × MinuteWindow)}
    {processed : List ProcessedClick}
    (h : ∀ p ∈ processed, ∃ pair ∈ pairs, pairOf host p = some pair) :
    ∑ pair ∈ pairs, entriesOf host status pair processed = totalOf status processed := by
  induction processed with
  | nil => exact Finset.sum_const_zero
  | cons p processed ih =>
    obtain ⟨⟨pair, hpair, hp⟩, hrest⟩ := List.forall_mem_cons.1 h
    have hcons : ∀ pair', entriesOf host status pair' (p :: processed) =
        entriesOf host status pair' processed +
          if pair = pair' then (if p.status = status then 1 else 0) else 0 := by
      intro pair'
      rw [entriesOf, List.countP_cons, hp]
      by_cases hpair' : pair = pair' <;> by_cases hstatus : p.status = status <;>
        simp [entriesOf, hpair', hstatus]
    -- the entry is counted in the sum once, under its pair
    rw [Finset.sum_congr rfl fun pair' _ => hcons pair', Finset.sum_add_distrib, ih hrest,
      Finset.sum_ite_eq, if_pos hpair, totalOf, totalOf, List.countP_cons]
    simp

/-! ## Runs from a fresh service -/

section Fresh

variable (config : Config) (evs : List (Event host))

theorem processed_fresh_eq :
    (afterEvents config .fresh evs).processed = resultsOf config .fresh evs :=
  processed_afterEvents config .fresh evs

theorem length_processed_fresh : (afterEvents config .fresh evs).processed.length = evs.length := by
  rw [processed_fresh_eq, resultsOf, List.length_map, judged, List.length_zip, verdicts,
    length_outputs, List.length_map, Nat.min_self]

/-- Every event has its entry, as the stateless classification prescribes it. -/
theorem exists_matching {config : Config} (htol : 0 ≤ config.watermarkToleranceMs)
    {evs : List (Event host)} {i : Nat} {e : Event host} (h : evs[i]? = some e) :
    ∃ p, (afterEvents config .fresh evs).processed[i]? = some p ∧
      MatchesReference config evs i e p := by
  have hv : (verdicts config .fresh evs)[i]? = _ :=
    (outputs_eq_reference (evs.map Event.click) htol i).trans (reference_event h)
  exact ⟨_, processed_fresh h hv, matchesReference_result htol h (reference_event h)⟩

/-- The number of events of a pair that are not late. -/
def onTime (pair : String × MinuteWindow) : Nat :=
  onTimeCount config.watermarkToleranceMs (evs.map Event.click) pair evs.length

theorem count_fresh (htol : 0 ≤ config.watermarkToleranceMs) (pair : String × MinuteWindow) :
    (afterEvents config .fresh evs).ipWindowCounts.count (minuteKey pair.1 pair.2) =
      onTime config evs pair := by
  have hcount := count_after_take (evs.map Event.click) htol pair evs.length
  rw [List.take_of_length_le (Nat.le_of_eq (List.length_map _))] at hcount
  rw [onTime, ← hcount]
  exact congrArg (fun a => a.count pair) (tracker_afterEvents config .fresh evs)

/-- The accepted entries of a pair are the smaller of its events that are not late and the
threshold. -/
theorem accepted_fresh (htol : 0 ≤ config.watermarkToleranceMs)
    (pair : String × MinuteWindow) :
    entriesOf host .accepted pair (afterEvents config .fresh evs).processed =
      min (onTime config evs pair) config.fraudThreshold.toNat := by
  obtain ⟨m, hcount, hranks⟩ := ranksOf_judged config .fresh pair evs
  rw [count_fresh config evs htol] at hcount
  have hm : onTime config evs pair = m := hcount.trans (Nat.zero_add m)
  replace hranks : (judged config .fresh evs).filterMap (rankOf? pair) = List.range' 1 m := hranks
  rw [processed_fresh_eq, resultsOf, entriesOf_results config (by simp), hranks,
    accepted_ranks, hm]

end Fresh

/-! ## Two runs -/

namespace Config.Looser

variable {config config' : Config}

theorem tolerance_nonneg' (h : config.Looser config') : 0 ≤ config'.watermarkToleranceMs := by
  have hnonneg := h.tolerance_nonneg
  have hle := h.tolerance_le
  omega

variable {evs : List (Event host)}

theorem watermark_eq (h : config.Looser config') (evs : List (Event host)) :
    (afterEvents config' .fresh evs).watermarkMs = (afterEvents config .fresh evs).watermarkMs := by
  have hlow := congrArg Tracker.watermark (tracker_afterEvents config .fresh evs)
  have hhigh := congrArg Tracker.watermark (tracker_afterEvents config' .fresh evs)
  rw [after_watermark h.tolerance_nonneg] at hlow
  rw [after_watermark h.tolerance_nonneg'] at hhigh
  exact TimeValue.ext (hhigh.trans hlow.symm)

/-- The two entries of a click. -/
theorem entries (h : config.Looser config') {i : Nat} {p p' : ProcessedClick}
    (hp : (afterEvents config .fresh evs).processed[i]? = some p)
    (hp' : (afterEvents config' .fresh evs).processed[i]? = some p') :
    p'.clickId = p.clickId ∧ (p'.status = .late → p.status = .late) ∧
      (config'.watermarkToleranceMs = config.watermarkToleranceMs →
        p.status = .accepted → p'.status = .accepted) := by
  obtain ⟨hlt, -⟩ := List.getElem?_eq_some_iff.1 hp
  rw [length_processed_fresh] at hlt
  have he := List.getElem?_eq_getElem hlt
  obtain ⟨q, hq, hmatch⟩ := exists_matching h.tolerance_nonneg he
  obtain ⟨q', hq', hmatch'⟩ := exists_matching h.tolerance_nonneg' he
  cases hp.symm.trans hq
  cases hp'.symm.trans hq'
  refine ⟨hmatch'.clickId.trans hmatch.clickId.symm, ?_, ?_⟩
  · intro hlate
    rw [hmatch.late_iff, ← isLateAt_iff config he]
    rw [hmatch'.late_iff, ← isLateAt_iff config' he] at hlate
    exact lateAt_of_le _ h.tolerance_le hlate
  · intro htol haccepted
    -- with the same tolerance the rank is the same, and the threshold is no smaller
    obtain ⟨hlate, hrank⟩ := hmatch.accepted_iff.1 haccepted
    apply hmatch'.accepted_iff.2
    rw [IsLateAt, onTimeRank, htol]
    refine ⟨hlate, ?_⟩
    intro hfraud
    have hthreshold := h.threshold_le
    rw [onTimeRank] at hrank
    omega

theorem accepted_le (h : config.Looser config') (evs : List (Event host))
    (pair : String × MinuteWindow) :
    entriesOf host .accepted pair (afterEvents config .fresh evs).processed ≤
      entriesOf host .accepted pair (afterEvents config' .fresh evs).processed := by
  have hlow := accepted_fresh config evs h.tolerance_nonneg pair
  have hhigh := accepted_fresh config' evs h.tolerance_nonneg' pair
  -- both terms of the minimum grow
  have honTime : onTime config evs pair ≤ onTime config' evs pair :=
    onTimeCount_le (evs.map Event.click) h.tolerance_le pair evs.length
  have hthreshold := h.threshold_le
  omega

/-- All entries are of the pair of an event. -/
theorem exists_pairOf (config : Config) (evs : List (Event host)) :
    ∀ p ∈ (afterEvents config .fresh evs).processed,
      ∃ pair ∈ (evs.map Event.pair).toFinset, pairOf host p = some pair := by
  intro p hp
  rw [processed_fresh_eq] at hp
  obtain ⟨⟨e, v⟩, hq, rfl⟩ := List.mem_map.1 hp
  refine ⟨e.pair, ?_, pairOf_result config e v⟩
  rw [List.mem_toFinset]
  exact List.mem_map_of_mem (List.of_mem_zip hq).1

theorem totalAccepted_le (h : config.Looser config') (evs : List (Event host)) :
    totalOf .accepted (afterEvents config .fresh evs).processed ≤
      totalOf .accepted (afterEvents config' .fresh evs).processed := by
  rw [← sum_entriesOf .accepted (exists_pairOf config evs),
    ← sum_entriesOf .accepted (exists_pairOf config' evs)]
  exact Finset.sum_le_sum fun pair _ => h.accepted_le evs pair

theorem totalLate_le (h : config.Looser config') (evs : List (Event host)) :
    totalOf .late (afterEvents config' .fresh evs).processed ≤
      totalOf .late (afterEvents config .fresh evs).processed := by
  apply countP_le_of_getElem?
  · rw [length_processed_fresh, length_processed_fresh]
  · intro i p' p hp' hp hlate
    rw [decide_eq_true_eq] at hlate ⊢
    exact (h.entries hp hp').2.1 hlate

end Config.Looser

/-- The two runs of a service with looser settings and one with tighter ones, on envelopes whose IP
is a text or missing, throwing calls included: the watermark is the same, a click that is late in
the looser run is late in the tighter one, no pair of an IP and a minute has fewer accepted clicks
in the looser run, nor has the whole run; and if only the threshold is larger, every accepted click
stays accepted. -/
theorem looser_settings_accept_more (host : Host) (config config' : Config)
    (h : config.Looser config') (es : List ClickEnvelope) (hip : ∀ e ∈ es, TextIp e) :
    let s := after (step host config) .fresh es
    let s' := after (step host config') .fresh es
    s'.watermarkMs = s.watermarkMs ∧ s'.processed.length = s.processed.length ∧
      (∀ (i : Nat) (p p' : ProcessedClick), s.processed[i]? = some p →
        s'.processed[i]? = some p' → p'.clickId = p.clickId ∧
          (p'.status = .late → p.status = .late) ∧
          (config'.watermarkToleranceMs = config.watermarkToleranceMs →
            p.status = .accepted → p'.status = .accepted)) ∧
      (∀ ip window, entriesOf host .accepted (ip, window) s.processed ≤
        entriesOf host .accepted (ip, window) s'.processed) ∧
      (snapshot s).stats.accepted ≤ (snapshot s').stats.accepted ∧
      (snapshot s').stats.late ≤ (snapshot s).stats.late := by
  obtain ⟨evs, -, hafter⟩ := exists_events host es hip
  rw [hafter, hafter]
  refine ⟨h.watermark_eq evs, ?_, ?_, ?_, ?_, ?_⟩
  · rw [length_processed_fresh, length_processed_fresh]
  · intro i p p' hp hp'
    exact h.entries hp hp'
  · intro ip window
    exact h.accepted_le evs (ip, window)
  · rw [snapshot, snapshot, stats_eq, stats_eq]
    exact h.totalAccepted_le evs
  · rw [snapshot, snapshot, stats_eq, stats_eq]
    exact h.totalLate_le evs

/-- With a threshold of two instead of one, no click is lost. -/
theorem looser_of_twoClicks :
    (snapshot (after (step utcHost ⟨30000, 1⟩) .fresh twoClicks)).stats.accepted ≤
      (snapshot (after (step utcHost ⟨60000, 2⟩) .fresh twoClicks)).stats.accepted := by
  have hip : ∀ e ∈ twoClicks, TextIp e := by
    intro e he
    rcases List.mem_cons.1 he with rfl | he
    · exact ⟨"10.0.0.1", rfl⟩
    · rw [List.mem_singleton.1 he]
      exact ⟨"10.0.0.1", rfl⟩
  obtain ⟨-, -, -, -, haccepted, -⟩ := looser_settings_accept_more utcHost ⟨30000, 1⟩ ⟨60000, 2⟩
    ⟨by decide, by decide, by decide⟩ twoClicks hip
  exact haccepted

end AdClick.Watermark
