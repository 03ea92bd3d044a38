import AdClick.Watermark.Refinement

/-!
# The fraud quota

The entries of an IP in a minute that are not late carry consecutive ranks, and the rank alone
decides between accepted and fraud. So the entries of a run are counted by ranks
(`entriesOf_results`, `ranksOf_judged`), and from a fresh service the accepted ones are the first
ones up to the threshold (`fraud_quota`).
-/

set_option autoImplicit false

namespace AdClick.Watermark

open AdClick.Library AdClick.Ecma

variable {host : Host}

/-- The IP and the minute of an entry. -/
def pairOf (host : Host) (p : ProcessedClick) : Option (String × MinuteWindow) :=
  p.ip.str?.bind fun ip => (windowOf host p).map fun window => (ip, window)

/-- The number of entries of a pair with a status. -/
def entriesOf (host : Host) (status : Status) (pair : String × MinuteWindow)
    (processed : List ProcessedClick) : Nat :=
  processed.countP fun p => p.status = status ∧ pairOf host p = some pair

theorem pairOf_result (config : Config) (e : Event host) (v : Verdict) :
    pairOf host (e.result config v) = some e.pair := by
  rw [pairOf, windowOf_result]
  rfl

/-- The rank of a counted event of the pair. -/
def rankOf? (pair : String × MinuteWindow) (q : Event host × Verdict) : Option Nat :=
  rank? pair (q.1.click, q.2)

theorem ranks_eq (pair : String × MinuteWindow) (es : List (Event host)) (vs : List Verdict) :
    ranks pair (es.map Event.click) vs = (es.zip vs).filterMap (rankOf? pair) := by
  rw [ranks, List.zip_map_left, List.filterMap_map]
  rfl

/-- The counted events of a pair are ranked from its count on, and the count follows. -/
theorem ranksOf_judged (config : Config) (s : State) (pair : String × MinuteWindow)
    (es : List (Event host)) :
    ∃ m, (afterEvents config s es).ipWindowCounts.count (minuteKey pair.1 pair.2) =
        s.ipWindowCounts.count (minuteKey pair.1 pair.2) + m ∧
      (judged config s es).filterMap (rankOf? pair) =
        List.range' (s.ipWindowCounts.count (minuteKey pair.1 pair.2) + 1) m := by
  obtain ⟨m, hcount, hranks⟩ :=
    ranks_outputs config.watermarkToleranceMs pair (es.map Event.click) s.tracker
  rw [← tracker_afterEvents] at hcount
  rw [ranks_eq] at hranks
  exact ⟨m, hcount, hranks⟩

/-- Entries that are not late are counted by the ranks of their pair. -/
theorem entriesOf_results (config : Config) {status : Status} (hstatus : status ≠ .late)
    (pair : String × MinuteWindow) (qs : List (Event host × Verdict)) :
    entriesOf host status pair (qs.map fun q => q.1.result config q.2) =
      (qs.filterMap (rankOf? pair)).countP fun n => config.quota n = status := by
  induction qs with
  | nil => rfl
  | cons q qs ih =>
    obtain ⟨e, v⟩ := q
    simp only [entriesOf] at ih ⊢
    rw [List.map_cons, List.countP_cons, ih, List.filterMap_cons, pairOf_result]
    cases v with
    | late behind =>
      have hne : (e.result config (.late behind)).status ≠ status := fun h => hstatus h.symm
      simp [hne, rankOf?, rank?]
    | counted n =>
      have hstatus : (e.result config (.counted n)).status = config.quota n := rfl
      by_cases hpair : e.pair = pair
      · simp [rankOf?, rank?, Event.click, hpair, hstatus, List.countP_cons]
      · simp [rankOf?, rank?, Event.click, hpair]

/-! ## From a fresh service -/

/-- Of the first `m` ranks the accepted ones are those up to the threshold. -/
theorem accepted_ranks (config : Config) (m : Nat) :
    ((List.range' 1 m).countP fun n => config.quota n = .accepted) =
      min m config.fraudThreshold.toNat := by
  induction m with
  | zero => exact (Nat.zero_min _).symm
  | succ m ih =>
    rw [List.range'_1_concat, List.countP_append, List.countP_singleton, ih]
    by_cases hfraud : config.fraudThreshold < (1 + m : Nat)
    · -- the minimum has reached the threshold
      have hquota : config.quota (1 + m) = .fraud := if_pos hfraud
      simp only [hquota, reduceCtorEq, decide_false, Bool.false_eq_true, if_false, Nat.add_zero]
      omega
    · have hquota : config.quota (1 + m) = .accepted := if_neg hfraud
      simp only [hquota, decide_true, if_true]
      omega

/-- Every rank is accepted or fraud. -/
theorem quota_ranks (config : Config) (ns : List Nat) :
    (ns.countP fun n => config.quota n = .accepted) + (ns.countP fun n => config.quota n = .fraud) =
      ns.length := by
  induction ns with
  | nil => rfl
  | cons n ns ih =>
    simp only [List.countP_cons, List.length_cons, ← ih]
    by_cases hfraud : config.fraudThreshold < n
    · have hquota : config.quota n = .fraud := if_pos hfraud
      simp [hquota]
      omega
    · have hquota : config.quota n = .accepted := if_neg hfraud
      simp [hquota]
      omega

/-- Ranks grow along the log, so after a fraud entry of a pair none of its entries is accepted. -/
theorem pairwise_results {config : Config} {pair : String × MinuteWindow}
    {qs : List (Event host × Verdict)} (h : (qs.filterMap (rankOf? pair)).Pairwise (· < ·)) :
    (qs.map fun q => q.1.result config q.2).Pairwise fun earlier later =>
      earlier.status = .fraud → pairOf host earlier = some pair → pairOf host later = some pair →
        later.status ≠ .accepted := by
  rw [List.pairwise_map]
  apply (List.pairwise_filterMap.1 h).imp
  rintro ⟨e, v⟩ ⟨e', v'⟩ hlt hfraud hpair hpair' haccepted
  rw [pairOf_result, Option.some.injEq] at hpair hpair'
  cases v with
  | late behind => cases hfraud
  | counted n =>
    cases v' with
    | late behind => cases haccepted
    | counted n' =>
      have hrank : rankOf? pair (e, .counted n) = some n := if_pos hpair
      have hrank' : rankOf? pair (e', .counted n') = some n' := if_pos hpair'
      have hless := hlt n hrank n' hrank'
      -- the earlier rank is over the threshold, so the later one is
      have hover : config.fraudThreshold < n := by
        by_contra hnot
        rw [show (e.result config (.counted n)).status = .accepted from if_neg hnot] at hfraud
        cases hfraud
      have hover' : config.fraudThreshold < n' := by omega
      rw [show (e'.result config (.counted n')).status = .fraud from if_pos hover'] at haccepted
      cases haccepted

/-- One key is tallied for every entry that is not late. -/
theorem length_countedKeys (config : Config) (qs : List (Event host × Verdict)) :
    (qs.filterMap Event.countedKey?).length =
      totalOf .accepted (qs.map fun q => q.1.result config q.2) +
        totalOf .fraud (qs.map fun q => q.1.result config q.2) := by
  induction qs with
  | nil => rfl
  | cons q qs ih =>
    obtain ⟨e, v⟩ := q
    simp only [totalOf] at ih ⊢
    rw [List.filterMap_cons]
    simp only [List.map_cons, List.countP_cons]
    cases v with
    | late behind =>
      have hlate : (e.result config (.late behind)).status = .late := rfl
      simp [Event.countedKey?, hlate, ih]
    | counted n =>
      have hstatus : (e.result config (.counted n)).status = config.quota n := rfl
      by_cases hfraud : config.fraudThreshold < n
      · have hquota : config.quota n = .fraud := if_pos hfraud
        simp [Event.countedKey?, hstatus, hquota, ih]
        omega
      · have hquota : config.quota n = .accepted := if_neg hfraud
        simp [Event.countedKey?, hstatus, hquota, ih]
        omega

/-- From a fresh service, throwing calls included: the count of a pair is its number of entries that
are not late, the first ones of them up to the threshold are accepted and the others are fraud, and
the counts sum to the accepted and fraud totals. -/
theorem fraud_quota (host : Host) (config : Config) (hthreshold : 0 ≤ config.fraudThreshold)
    (es : List ClickEnvelope) (hip : ∀ e ∈ es, TextIp e) :
    (∀ ip window,
      (after (step host config) .fresh es).ipWindowCounts.count (minuteKey ip window) =
          entriesOf host .accepted (ip, window) (after (step host config) .fresh es).processed +
            entriesOf host .fraud (ip, window) (after (step host config) .fresh es).processed ∧
      (entriesOf host .accepted (ip, window) (after (step host config) .fresh es).processed : Int) =
        min ((after (step host config) .fresh es).ipWindowCounts.count (minuteKey ip window) : Int)
          config.fraudThreshold ∧
      (after (step host config) .fresh es).processed.Pairwise fun earlier later =>
        earlier.status = .fraud → pairOf host earlier = some (ip, window) →
          pairOf host later = some (ip, window) → later.status ≠ .accepted) ∧
    (after (step host config) .fresh es).ipWindowCounts.values.sum =
      (snapshot (after (step host config) .fresh es)).stats.accepted +
        (snapshot (after (step host config) .fresh es)).stats.fraud := by
  obtain ⟨evs, -, hafter⟩ := exists_events host es hip
  have hprocessed : (afterEvents config .fresh evs).processed = resultsOf config .fresh evs :=
    processed_afterEvents config .fresh evs
  rw [hafter]
  refine ⟨?_, ?_⟩
  · intro ip window
    -- the pair has handed out the ranks from 1 to `m`
    obtain ⟨m, hcount, hranks⟩ := ranksOf_judged config .fresh (ip, window) evs
    replace hcount : (afterEvents config .fresh evs).ipWindowCounts.count (minuteKey ip window) =
      m := hcount.trans (Nat.zero_add m)
    replace hranks : (judged config .fresh evs).filterMap (rankOf? (ip, window)) =
      List.range' 1 m := hranks
    rw [hprocessed, hcount, resultsOf, entriesOf_results config (by decide),
      entriesOf_results config (by decide), hranks]
    refine ⟨?_, ?_, pairwise_results ?_⟩
    · rw [quota_ranks, List.length_range']
    · rw [accepted_ranks]
      omega
    · rw [hranks]
      exact List.pairwise_lt_range'
  · show _ = (stats _).accepted + (stats _).fraud
    rw [stats_eq, counts_afterEvents, InsertionMap.sum_values_tally, hprocessed, countedKeys,
      length_countedKeys config]
    exact Nat.zero_add _

/-- Two clicks of one IP in one minute. -/
def twoClicks : List ClickEnvelope :=
  [⟨"c-1", "ad-1", .str "10.0.0.1", .undefined, "2026-06-12T10:05:34.123Z"⟩,
    ⟨"c-2", "ad-2", .str "10.0.0.1", .undefined, "2026-06-12T10:05:30.000Z"⟩]

/-- With a threshold of one, one of the two clicks is accepted. -/
theorem quota_of_twoClicks :
    entriesOf utcHost .accepted ("10.0.0.1", ⟨⟨1781258700000, by decide, by decide⟩, by decide⟩)
      (after (step utcHost ⟨30000, 1⟩) .fresh twoClicks).processed = 1 := by
  have hip : ∀ e ∈ twoClicks, TextIp e := by
    intro e he
    simp only [twoClicks, List.mem_cons, List.not_mem_nil, or_false] at he
    rcases he with rfl | rfl
    · exact ⟨"10.0.0.1", rfl⟩
    · exact ⟨"10.0.0.1", rfl⟩
  have h := (fraud_quota utcHost ⟨30000, 1⟩ (by decide) twoClicks hip).1 "10.0.0.1"
    ⟨⟨1781258700000, by decide, by decide⟩, by decide⟩
  have hcount : (after (step utcHost ⟨30000, 1⟩) .fresh twoClicks).ipWindowCounts.count
      (minuteKey "10.0.0.1" ⟨⟨1781258700000, by decide, by decide⟩, by decide⟩) = 2 := by decide
  rw [hcount] at h
  exact Int.ofNat_inj.1 h.2.1

end AdClick.Watermark
