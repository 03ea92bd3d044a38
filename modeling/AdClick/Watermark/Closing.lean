import AdClick.Watermark.Refinement

/-!
# The watermark closes windows

Once a window ends at or before the watermark minus the tolerance, all its later clicks are late,
whatever else is processed in between: its counts and its entries that are not late are final
(`watermark_closes_window`).
-/

set_option autoImplicit false

namespace AdClick.Watermark

open AdClick.Library AdClick.Ecma

variable {host : Host}

/-- The accepted and the fraud entries of a window. -/
def settled (host : Host) (window : MinuteWindow) (processed : List ProcessedClick) :
    List ProcessedClick :=
  processed.filter fun p => p.status ≠ .late ∧ windowOf host p = some window

/-- The window lies behind the watermark minus the tolerance. -/
def Closed (config : Config) (s : State) (window : MinuteWindow) : Prop :=
  0 < s.watermarkMs.ms ∧
    window.start.ms + msPerMinute ≤ s.watermarkMs.ms - config.watermarkToleranceMs

/-- The events of a closed window are late. -/
theorem late_of_closed {config : Config} {s : State} {window : MinuteWindow}
    (h : Closed config s window) {es : List (Event host)} :
    ∀ q ∈ judged config s es, q.1.time.window = window → ∃ behind, q.2 = .late behind := by
  rintro ⟨e, v⟩ hq hwindow
  have hclick : (e.click, v) ∈ (es.map Event.click).zip (verdicts config s es) := by
    rw [List.zip_map_left]
    exact List.mem_map.2 ⟨(e, v), hq, rfl⟩
  apply late_of_behind h.1 (e.click, v) hclick
  -- the window ends by the watermark minus the tolerance, and the click lies before its end
  obtain ⟨-, hlt⟩ := (TimeValue.window_eq_iff e.time window).1 hwindow
  have hle := h.2
  show e.time.ms < s.watermarkMs.ms - config.watermarkToleranceMs
  omega

/-- No later event is counted under a closed window. -/
theorem count_of_closed {config : Config} {s : State} {window : MinuteWindow}
    (h : Closed config s window) (ip : String) (es : List (Event host)) :
    minuteKey ip window ∉ countedKeys config s es := by
  intro hmem
  obtain ⟨⟨e, v⟩, hq, hkey⟩ := List.mem_filterMap.1 hmem
  cases v with
  | late behind => cases hkey
  | counted n =>
    obtain ⟨-, hwindow⟩ := minuteKey_injective (Option.some.inj hkey)
    obtain ⟨behind, hlate⟩ := late_of_closed h _ hq hwindow
    cases hlate

/-- No later event adds an entry to a closed window that is not late. -/
theorem settled_of_closed {config : Config} {s : State} {window : MinuteWindow}
    (h : Closed config s window) (es : List (Event host)) :
    settled host window (resultsOf config s es) = [] := by
  apply List.filter_eq_nil_iff.2
  intro p hp
  obtain ⟨⟨e, v⟩, hq, rfl⟩ := List.mem_map.1 hp
  rw [windowOf_result]
  intro hsettled
  obtain ⟨hstatus, hwindow⟩ := of_decide_eq_true hsettled
  obtain ⟨behind, rfl⟩ := late_of_closed h _ hq (Option.some.inj hwindow)
  exact hstatus rfl

/-- Events leave a closed window closed. -/
theorem closed_afterEvents {config : Config} {s : State} {window : MinuteWindow}
    (h : Closed config s window) (es : List (Event host)) :
    Closed config (afterEvents config s es) window := by
  have hle : s.watermarkMs.ms ≤ (afterEvents config s es).watermarkMs.ms := by
    have hmono := watermark_le_after config.watermarkToleranceMs s.tracker (es.map Event.click)
    rw [← tracker_afterEvents] at hmono
    exact hmono
  exact ⟨h.1.trans_le hle, h.2.trans (by omega)⟩

/-- After any further calls, throwing ones included, the count of an IP in a closed window and the
accepted and fraud entries of the window are what they were, and every later click of the window is
late. -/
theorem watermark_closes_window (host : Host) (config : Config) (s : State) (ip : String)
    (window : MinuteWindow) (hpos : 0 < s.watermarkMs.ms)
    (hclosed : window.start.ms + 60000 ≤ s.watermarkMs.ms - config.watermarkToleranceMs)
    (es : List ClickEnvelope) (hip : ∀ e ∈ es, TextIp e) :
    (after (step host config) s es).ipWindowCounts.get? (minuteKey ip window) =
        s.ipWindowCounts.get? (minuteKey ip window) ∧
      (∀ (i : Nat) (e : ClickEnvelope) (t : TimeValue), es[i]? = some e →
        host.newDate e.eventTime = some t → window.start.ms ≤ t.ms →
        t.ms < window.start.ms + 60000 → ∃ p : ProcessedClick,
          (outputs (step host config) s es)[i]? = some (.ok p) ∧ p.status = .late) ∧
      settled host window (after (step host config) s es).processed =
        settled host window s.processed := by
  have h : Closed config s window := ⟨hpos, hclosed⟩
  obtain ⟨evs, -, hafter⟩ := exists_events host es hip
  rw [hafter, counts_afterEvents, processed_afterEvents, InsertionMap.get?_tally,
    if_neg (count_of_closed h ip evs)]
  refine ⟨rfl, ?_, ?_⟩
  · intro i e t he ht hle hlt
    -- the window is still closed when the call comes
    obtain ⟨before, -, hbefore⟩ := exists_events host (es.take i) fun d hd =>
      hip d (List.mem_of_mem_take hd)
    obtain ⟨text, hresolves⟩ := hip e (List.mem_of_getElem? he)
    obtain ⟨hpos', hclosed'⟩ := closed_afterEvents h before
    have hlate : Late config.watermarkToleranceMs (afterEvents config s before).watermarkMs.ms
        t.ms := by
      refine ⟨hpos', ?_⟩
      simp only [msPerMinute] at hclosed'
      omega
    have hstep := step_of_late (e := ⟨e, t, text, ht, hresolves⟩) hlate
    rw [outputs_getElem?, he, hbefore, Option.map_some, hstep]
    exact ⟨_, rfl, rfl⟩
  · have hnil := settled_of_closed h evs
    rw [settled] at hnil ⊢
    rw [List.filter_append, hnil, List.append_nil]
    rfl

/-- A service that has processed one click, half a minute past 10:05. -/
def oneClick : State :=
  after (step utcHost .default) .fresh
    [⟨"c-1", "ad-1", .str "10.0.0.1", .undefined, "2026-06-12T10:05:34.123Z"⟩]

/-- The minute from 10:04. -/
def previousMinute : MinuteWindow := ⟨⟨1781258640000, by decide, by decide⟩, by decide⟩

/-- A click in the last millisecond of the minute from 10:04. -/
def straggler : ClickEnvelope :=
  ⟨"c-2", "ad-1", .str "10.0.0.1", .undefined, "2026-06-12T10:04:59.999Z"⟩

/-- With a tolerance of half a minute the minute before is closed, and its straggler is late. -/
theorem closing_of_previousMinute :
    (after (step utcHost .default) oneClick [straggler]).ipWindowCounts.get?
        (minuteKey "10.0.0.1" previousMinute) =
      oneClick.ipWindowCounts.get? (minuteKey "10.0.0.1" previousMinute) ∧
    ∃ p, (outputs (step utcHost .default) oneClick [straggler])[0]? = some (.ok p) ∧
      p.status = .late := by
  have hip : ∀ e ∈ [straggler], TextIp e := by
    intro e he
    rw [List.mem_singleton.1 he]
    exact ⟨"10.0.0.1", rfl⟩
  obtain ⟨hcount, hlate, -⟩ := watermark_closes_window utcHost .default oneClick "10.0.0.1"
    previousMinute (by decide) (by decide) [straggler] hip
  exact ⟨hcount, hlate 0 straggler ⟨1781258699999, by decide, by decide⟩ rfl (by decide) (by decide)
    (by decide)⟩

end AdClick.Watermark
