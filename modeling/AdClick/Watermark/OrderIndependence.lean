import AdClick.Watermark.Quota

/-!
# Order within the tolerance does not matter

When all events lie within the tolerance of the largest event time and of the watermark, none of
them is late in any order (`WithinTolerance.allCounted`). Then every event is counted once under its
key, so the counts, the watermark and the ranks handed out under each key are the same for all
orders (`order_independence`); only which event gets which rank differs.
-/

set_option autoImplicit false

namespace AdClick.Watermark

open AdClick.Library AdClick.Ecma

variable {host : Host}

/-- No event is further than the tolerance behind the watermark or behind another event. -/
def WithinTolerance (config : Config) (s : State) (es : List (Event host)) : Prop :=
  ∀ e ∈ es, s.watermarkMs.ms - config.watermarkToleranceMs ≤ e.time.ms ∧
    ∀ d ∈ es, d.time.ms - config.watermarkToleranceMs ≤ e.time.ms

theorem WithinTolerance.perm {config : Config} {s : State} {es es' : List (Event host)}
    (h : WithinTolerance config s es) (hperm : es.Perm es') : WithinTolerance config s es' := by
  intro e he
  obtain ⟨hwatermark, hothers⟩ := h e (hperm.mem_iff.2 he)
  exact ⟨hwatermark, fun d hd => hothers d (hperm.mem_iff.2 hd)⟩

/-- Every event is counted. -/
def AllCounted (config : Config) (s : State) (es : List (Event host)) : Prop :=
  ∀ q ∈ judged config s es, ∃ n, q.2 = .counted n

/-- Events that are not late at the start, and lie within the tolerance of each other. -/
theorem allCounted_of_not_late {config : Config} {s : State} {es : List (Event host)}
    (hstart : ∀ e ∈ es, ¬ Late config.watermarkToleranceMs s.watermarkMs.ms e.time.ms)
    (hothers : ∀ e ∈ es, ∀ d ∈ es, d.time.ms - config.watermarkToleranceMs ≤ e.time.ms) :
    AllCounted config s es := by
  rintro ⟨e, v⟩ hq
  have hv : v ∈ verdicts config s es := (List.of_mem_zip hq).2
  apply counted_of_within _ _ v hv
  · intro c hc
    obtain ⟨e', he', rfl⟩ := List.mem_map.1 hc
    exact hstart e' he'
  · intro c hc d hd
    obtain ⟨e', he', rfl⟩ := List.mem_map.1 hc
    obtain ⟨d', hd', rfl⟩ := List.mem_map.1 hd
    exact hothers e' he' d' hd'

theorem WithinTolerance.allCounted {config : Config} {s : State} {es : List (Event host)}
    (h : WithinTolerance config s es) : AllCounted config s es := by
  apply allCounted_of_not_late
  · rintro e he ⟨-, hlt⟩
    have hge := (h e he).1
    omega
  · intro e he
    exact (h e he).2

/-- Then the results are not late. -/
theorem AllCounted.not_late {config : Config} {s : State} {es : List (Event host)}
    (h : AllCounted config s es) : ∀ p ∈ resultsOf config s es, p.status ≠ .late := by
  intro p hp
  obtain ⟨⟨e, v⟩, hq, rfl⟩ := List.mem_map.1 hp
  obtain ⟨n, rfl⟩ := h _ hq
  show config.quota n ≠ .late
  simp only [Config.quota]
  split <;> decide

/-- Then one key is tallied per event. -/
theorem AllCounted.countedKeys_eq {config : Config} {s : State} {es : List (Event host)}
    (h : AllCounted config s es) : countedKeys config s es = es.map Event.windowKey := by
  have hfst : (judged config s es).map Prod.fst = es := by
    apply List.map_fst_zip
    rw [verdicts, length_outputs, List.length_map]
  have hkeys : countedKeys config s es =
      (judged config s es).filterMap fun q => some q.1.windowKey := by
    apply List.filterMap_congr
    rintro ⟨e, v⟩ hq
    obtain ⟨n, rfl⟩ := h _ hq
    rfl
  calc countedKeys config s es
      = (judged config s es).filterMap fun q => some q.1.windowKey := hkeys
    _ = ((judged config s es).map Prod.fst).map Event.windowKey := by
      rw [List.filterMap_eq_map', List.map_map]
      rfl
    _ = es.map Event.windowKey := by rw [hfst]

/-- The counts depend on which events were processed, not on their order. -/
theorem get?_perm {config : Config} {s : State} {es es' : List (Event host)}
    (h : WithinTolerance config s es) (hperm : es.Perm es') (key : String) :
    (afterEvents config s es).ipWindowCounts.get? key =
      (afterEvents config s es').ipWindowCounts.get? key := by
  have hkeys := hperm.map Event.windowKey
  rw [counts_afterEvents, counts_afterEvents, h.allCounted.countedKeys_eq,
    (h.perm hperm).allCounted.countedKeys_eq, InsertionMap.get?_tally, InsertionMap.get?_tally,
    hkeys.count_eq key]
  exact if_congr hkeys.mem_iff rfl rfl

/-- The ranks handed out under a pair do not depend on the order. -/
theorem ranks_perm {config : Config} {s : State} {es es' : List (Event host)}
    (h : WithinTolerance config s es) (hperm : es.Perm es') (pair : String × MinuteWindow) :
    (judged config s es).filterMap (rankOf? pair) =
      (judged config s es').filterMap (rankOf? pair) := by
  obtain ⟨m, hcount, hranks⟩ := ranksOf_judged config s pair es
  obtain ⟨m', hcount', hranks'⟩ := ranksOf_judged config s pair es'
  -- as many ranks were handed out as the count has grown
  have hsame : m = m' := by
    have hget := get?_perm h hperm (minuteKey pair.1 pair.2)
    simp only [InsertionMap.count] at hcount hcount'
    rw [hget] at hcount
    omega
  rw [hranks, hranks', hsame]

/-- The entries that the log has gained. -/
def newEntries (s t : State) : List ProcessedClick := t.processed.drop s.processed.length

theorem newEntries_afterEvents (config : Config) (s : State) (es : List (Event host)) :
    newEntries s (afterEvents config s es) = resultsOf config s es := by
  rw [newEntries, processed_afterEvents, List.drop_left]

/-- Two orders of events that all lie within the tolerance: no event is late in either, and the
watermark, the counts and the numbers of newly accepted and newly fraud events of every pair are the
same. -/
theorem order_independence (host : Host) (config : Config) (s : State)
    (htol : 0 ≤ config.watermarkToleranceMs) (es es' : List (Event host))
    (hwithin : WithinTolerance config s es) (hperm : es.Perm es') :
    (∀ r ∈ outputs (step host config) s (es.map Event.envelope) ++
        outputs (step host config) s (es'.map Event.envelope),
      ∃ p, r = .ok p ∧ p.status ≠ .late) ∧
    (afterEvents config s es).watermarkMs = (afterEvents config s es').watermarkMs ∧
    (∀ key, (afterEvents config s es).ipWindowCounts.get? key =
      (afterEvents config s es').ipWindowCounts.get? key) ∧
    ∀ ip window,
      entriesOf host .accepted (ip, window) (newEntries s (afterEvents config s es)) =
          entriesOf host .accepted (ip, window) (newEntries s (afterEvents config s es')) ∧
        entriesOf host .fraud (ip, window) (newEntries s (afterEvents config s es)) =
          entriesOf host .fraud (ip, window) (newEntries s (afterEvents config s es')) := by
  refine ⟨?_, ?_, get?_perm hwithin hperm, ?_⟩
  · intro r hr
    rw [outputs_events, outputs_events] at hr
    rcases List.mem_append.1 hr with hr | hr
    · obtain ⟨p, hp, rfl⟩ := List.mem_map.1 hr
      exact ⟨p, rfl, hwithin.allCounted.not_late p hp⟩
    · obtain ⟨p, hp, rfl⟩ := List.mem_map.1 hr
      exact ⟨p, rfl, (hwithin.perm hperm).allCounted.not_late p hp⟩
  · have hwatermark : ∀ ds : List (Event host), (afterEvents config s ds).watermarkMs.ms =
        largest s.watermarkMs.ms (ds.map Event.click) := by
      intro ds
      exact (congrArg Tracker.watermark (tracker_afterEvents config s ds)).trans
        (after_watermark htol s.tracker (ds.map Event.click))
    apply TimeValue.ext
    rw [hwatermark, hwatermark, largest_perm (hperm.map Event.click)]
  · intro ip window
    -- the statuses of a pair are read off its ranks
    have hranks := ranks_perm hwithin hperm (ip, window)
    rw [newEntries_afterEvents, newEntries_afterEvents, resultsOf, resultsOf]
    constructor
    · rw [entriesOf_results config (by decide), entriesOf_results config (by decide), hranks]
    · rw [entriesOf_results config (by decide), entriesOf_results config (by decide), hranks]

/-- A click of one IP at a second past 10:05. -/
def clickAt (clickId eventTime : String) (time : TimeValue)
    (h : utcHost.newDate eventTime = some time) : Event utcHost where
  envelope := ⟨clickId, "ad-1", .str "10.0.0.1", .undefined, eventTime⟩
  time := time
  ip := "10.0.0.1"
  parses := h
  resolves := rfl

def firstEvent : Event utcHost :=
  clickAt "c-1" "2026-06-12T10:05:34.123Z" ⟨1781258734123, by decide, by decide⟩ (by decide)

def secondEvent : Event utcHost :=
  clickAt "c-2" "2026-06-12T10:05:30.000Z" ⟨1781258730000, by decide, by decide⟩ (by decide)

/-- Both orders of two events four seconds apart leave the same watermark. -/
theorem order_of_twoEvents :
    (afterEvents .default .fresh [firstEvent, secondEvent]).watermarkMs =
      (afterEvents .default .fresh [secondEvent, firstEvent]).watermarkMs := by
  have hwithin : WithinTolerance .default .fresh [firstEvent, secondEvent] := by
    rw [WithinTolerance]
    decide
  exact (order_independence utcHost .default .fresh (by decide) [firstEvent, secondEvent]
    [secondEvent, firstEvent] hwithin (List.Perm.swap _ _ _)).2.1

end AdClick.Watermark
