import AdClick.Watermark.Refinement

/-!
# Traffic of other IPs

Two trackers, one of which has been given more clicks than the other: its watermark is at least as
far, and they count the clicks of one IP alike (`Covers`). A click of another IP keeps it so when
only the larger tracker sees it (`Covers.of_other`), and a click of the IP that is not late for the
larger one is not late for the smaller one, where it gets the same rank (`Covers.of_counted`).

So as long as no event of an IP is late, what `process` decides about its events, and what it counts
for them, is what it would decide and count without the events of all other IPs (`ip_isolation`).
-/

set_option autoImplicit false

namespace AdClick.Watermark

open AdClick.Library AdClick.Ecma

universe u

/-! ## One click -/

section Trackers

variable {κ : Type u} {mine : κ → Prop} {tolerance : Int} {a b : Tracker κ} {c : Click κ}

/-- The tracker `a` is as far as `b` and counts the keys of `mine` as `b` does. -/
structure Covers (mine : κ → Prop) (a b : Tracker κ) : Prop where
  watermark : b.watermark ≤ a.watermark
  count : ∀ k, mine k → b.count k = a.count k

theorem covers_refl (mine : κ → Prop) (a : Tracker κ) : Covers mine a a := ⟨le_rfl, fun _ _ => rfl⟩

/-- A click that is in time for the tracker that is further on is in time for the other one. -/
theorem Covers.not_late (h : Covers mine a b) {time : Int}
    (hlate : ¬ Late tolerance a.watermark time) : ¬ Late tolerance b.watermark time := by
  rintro ⟨hpos, hlt⟩
  have hle := h.watermark
  exact hlate ⟨by omega, by omega⟩

variable [DecidableEq κ]

/-- A click of another key only moves the watermark on. -/
theorem Covers.of_other (h : Covers mine a b) (tolerance : Int) (hc : ¬ mine c.key) :
    Covers mine (classify tolerance a c).1 b := by
  refine ⟨h.watermark.trans (classify_watermark_le tolerance a c), ?_⟩
  intro k hk
  rw [h.count k hk]
  by_cases hlate : Late tolerance a.watermark c.time
  · rw [classify_of_late hlate]
  · have hne : k ≠ c.key := by
      rintro rfl
      exact hc hk
    rw [classify_of_not_late hlate]
    simp [Tracker.bump, hne]

/-- A click of the keys of `mine` that is in time gets the same rank from both. -/
theorem Covers.of_counted (h : Covers mine a b) (hc : mine c.key)
    (hlate : ¬ Late tolerance a.watermark c.time) :
    (classify tolerance b c).2 = (classify tolerance a c).2 ∧
      Covers mine (classify tolerance a c).1 (classify tolerance b c).1 := by
  rw [classify_of_not_late hlate, classify_of_not_late (h.not_late hlate)]
  refine ⟨?_, ?_, ?_⟩
  · show Verdict.counted (b.count c.key + 1) = _
    rw [h.count c.key hc]
  · exact max_le_max_right c.time h.watermark
  · intro k hk
    show b.count k + _ = a.count k + _
    rw [h.count k hk]

end Trackers

/-! ## Whole runs -/

variable {host : Host}

/-- The events of one IP. -/
def eventsOf (ip : String) (es : List (Event host)) : List (Event host) :=
  es.filter fun e => e.ip = ip

/-- The pair is one of the IP. -/
def OfIp (ip : String) (pair : String × MinuteWindow) : Prop := pair.1 = ip

theorem not_late_of_verdict {config : Config} {s : State} {e : Event host}
    (h : ∀ behind, (classify config.watermarkToleranceMs s.tracker e.click).2 ≠ .late behind) :
    ¬ Late config.watermarkToleranceMs s.tracker.watermark e.click.time := by
  intro hlate
  rw [classify_of_late hlate] at h
  exact h _ rfl

/-- When no event of the IP is late, the run on its events alone judges them as the whole run
does. -/
theorem judged_eventsOf (config : Config) {ip : String} {es : List (Event host)} :
    ∀ {s t : State}, Covers (OfIp ip) s.tracker t.tracker →
      (∀ q ∈ judged config s es, q.1.ip = ip → ∀ behind, q.2 ≠ .late behind) →
      judged config t (eventsOf ip es) = (judged config s es).filter (fun q => q.1.ip = ip) ∧
        Covers (OfIp ip) (afterEvents config s es).tracker
          (afterEvents config t (eventsOf ip es)).tracker := by
  induction es with
  | nil =>
    intro s t h _
    exact ⟨rfl, h⟩
  | cons e es ih =>
    intro s t h hlate
    rw [judged_cons] at hlate
    have hrest := fun q hq => hlate q (List.mem_cons_of_mem _ hq)
    obtain ⟨-, htracker, -⟩ := step_event config s e
    by_cases hip : e.ip = ip
    · -- both runs take the event
      have hnot := not_late_of_verdict (hlate _ List.mem_cons_self hip)
      obtain ⟨hverdict, hnext⟩ := h.of_counted (c := e.click) hip hnot
      obtain ⟨-, htracker', -⟩ := step_event config t e
      rw [← htracker, ← htracker'] at hnext
      obtain ⟨hjudged, hend⟩ := ih hnext hrest
      have hkeep : eventsOf ip (e :: es) = e :: eventsOf ip es :=
        List.filter_cons_of_pos (by simpa using hip)
      rw [hkeep, judged_cons, judged_cons, hverdict, hjudged,
        List.filter_cons_of_pos (by simpa using hip)]
      exact ⟨rfl, hend⟩
    · -- only the whole run takes it
      have hnext := h.of_other config.watermarkToleranceMs (c := e.click) hip
      rw [← htracker] at hnext
      obtain ⟨hjudged, hend⟩ := ih hnext hrest
      have hdrop : eventsOf ip (e :: es) = eventsOf ip es :=
        List.filter_cons_of_neg (by simpa using hip)
      rw [hdrop, judged_cons, hjudged, List.filter_cons_of_neg (by simpa using hip)]
      exact ⟨rfl, hend⟩

/-- The events with what the calls of `process` for them return. -/
def answers (config : Config) (s : State) (es : List (Event host)) :
    List (Event host × Except JsError ProcessedClick) :=
  es.zip (outputs (step host config) s (es.map Event.envelope))

theorem answers_eq (config : Config) (s : State) (es : List (Event host)) :
    answers config s es = (judged config s es).map fun q => (q.1, .ok (q.1.result config q.2)) := by
  have hfst : es = (judged config s es).map Prod.fst := by
    symm
    apply List.map_fst_zip
    rw [verdicts, length_outputs, List.length_map]
  rw [answers, outputs_events, resultsOf]
  nth_rewrite 1 [hfst]
  rw [List.map_map, List.zip_map']
  rfl

/-- An event with a late verdict is answered with a late result. -/
theorem not_late_of_answers {config : Config} {s : State} {ip : String} {es : List (Event host)}
    (h : ∀ q ∈ answers config s es, q.1.ip = ip → ∀ p, q.2 = .ok p → p.status ≠ .late) :
    ∀ q ∈ judged config s es, q.1.ip = ip → ∀ behind, q.2 ≠ .late behind := by
  rintro ⟨e, v⟩ hq hip behind rfl
  rw [answers_eq] at h
  exact h _ (List.mem_map_of_mem hq) hip _ rfl rfl

/-- The count of a window is there exactly when it is not zero. -/
theorem get?_afterEvents_fresh (config : Config) (es : List (Event host)) (key : String) :
    (afterEvents config .fresh es).ipWindowCounts.get? key =
      if (afterEvents config .fresh es).ipWindowCounts.count key = 0 then none
      else some ((afterEvents config .fresh es).ipWindowCounts.count key) := by
  rw [counts_afterEvents]
  exact InsertionMap.get?_tally_empty _ key

/-- When no event of an IP is late in a run from a fresh service, a fresh service that is given the
events of this IP only returns the same for each of them, and counts the same in each window of the
IP. -/
theorem ip_isolation (host : Host) (config : Config) (es : List (Event host)) (ip : String)
    (hlate : ∀ q ∈ answers config .fresh es, q.1.ip = ip →
      ∀ p, q.2 = .ok p → p.status ≠ .late) :
    answers config .fresh (eventsOf ip es) =
        (answers config .fresh es).filter (fun q => q.1.ip = ip) ∧
      ∀ window, (afterEvents config .fresh (eventsOf ip es)).ipWindowCounts.get?
          (minuteKey ip window) =
        (afterEvents config .fresh es).ipWindowCounts.get? (minuteKey ip window) := by
  obtain ⟨hjudged, hend⟩ := judged_eventsOf config (covers_refl (OfIp ip) _)
    (not_late_of_answers hlate)
  constructor
  · rw [answers_eq, answers_eq, hjudged, List.filter_map]
    rfl
  · intro window
    have hcount := hend.count (ip, window) rfl
    simp only [State.tracker] at hcount
    rw [get?_afterEvents_fresh, get?_afterEvents_fresh, hcount]

/-- A click at 34 seconds past 10:05. -/
def clickFrom (ip : String) : Event utcHost where
  envelope := ⟨"c-1", "ad-1", .str ip, .undefined, "2026-06-12T10:05:34.000Z"⟩
  time := ⟨1781258734000, by decide, by decide⟩
  ip := ip
  parses := show utcHost.newDate "2026-06-12T10:05:34.000Z" = _ by decide
  resolves := rfl

/-- Two clicks of one IP around a click whose IP reads like a key of the first. -/
def mixedTraffic : List (Event utcHost) :=
  [clickFrom "10.0.0.1", clickFrom "10.0.0.1|2026-06-12T10:05:00.000Z", clickFrom "10.0.0.1"]

/-- The foreign click changes nothing for the two clicks. -/
theorem isolation_of_mixedTraffic :
    answers .default .fresh (eventsOf "10.0.0.1" mixedTraffic) =
      (answers .default .fresh mixedTraffic).filter fun q => q.1.ip = "10.0.0.1" := by
  have hstatus : ∀ q ∈ answers .default .fresh mixedTraffic,
      q.2.toOption.map ProcessedClick.status ≠ some .late := by
    decide
  refine (ip_isolation utcHost .default mixedTraffic "10.0.0.1" ?_).1
  rintro ⟨e, r⟩ hq - p rfl hlate
  exact hstatus _ hq (congrArg some hlate)

end AdClick.Watermark
