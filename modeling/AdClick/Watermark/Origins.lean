import AdClick.Watermark.Refinement

/-!
# Where the log comes from

Whatever envelopes the watermark service is called with, the entries of its log copy some of them,
in the order of the calls; the watermark is zero or the event time of one of them; and a click is
late only when one of them is more than the tolerance ahead of it (`explained_after`). So the
service makes up no clicks and no times, and calls that throw leave nothing behind.
-/

set_option autoImplicit false

namespace AdClick.Watermark

open AdClick.Library AdClick.Ecma

/-- What a call copies from its envelope to the log. -/
structure Origin where
  clickId : String
  adId : String
  ip : JsValue
  eventTime : String

def ClickEnvelope.origin (e : ClickEnvelope) : Origin :=
  ⟨e.clickId, e.adId, resolvedIp e, e.eventTime⟩

def ProcessedClick.origin (p : ProcessedClick) : Origin :=
  ⟨p.clickId, p.adId, p.ip, p.eventTime⟩

/-- The times of the envelopes whose event time is a date. -/
def times (host : Host) (es : List ClickEnvelope) : List Int :=
  es.filterMap fun e => (host.newDate e.eventTime).map TimeValue.ms

/-- The state can be explained by calls for the envelopes. -/
structure Explained (host : Host) (config : Config) (es : List ClickEnvelope) (s : State) :
    Prop where
  watermark : s.watermarkMs.ms = 0 ∨ s.watermarkMs.ms ∈ times host es
  copies : (s.processed.map ProcessedClick.origin).Sublist (es.map ClickEnvelope.origin)
  late : ∀ p ∈ s.processed, p.status = .late → ∃ time, host.newDate p.eventTime = some time ∧
    ∃ x ∈ times host es, time.ms < x - config.watermarkToleranceMs

variable {host : Host} {config : Config} {es : List ClickEnvelope} {s : State}

theorem times_snoc (host : Host) (es : List ClickEnvelope) {e : ClickEnvelope} {time : TimeValue}
    (htime : host.newDate e.eventTime = some time) :
    times host (es ++ [e]) = times host es ++ [time.ms] := by
  rw [times, List.filterMap_append, List.filterMap_cons, htime]
  rfl

namespace Explained

/-- A call for one more envelope that leaves the state as it was. -/
theorem idle (h : Explained host config es s) (e : ClickEnvelope) :
    Explained host config (es ++ [e]) s := by
  have htimes : ∀ x ∈ times host es, x ∈ times host (es ++ [e]) := by
    intro x hx
    rw [times, List.filterMap_append]
    exact List.mem_append_left _ hx
  refine ⟨h.watermark.imp_right (htimes _), ?_, ?_⟩
  · rw [List.map_append]
    exact h.copies.trans (List.sublist_append_left _ _)
  · intro p hp hlate
    obtain ⟨time, htime, x, hx, hlt⟩ := h.late p hp hlate
    exact ⟨time, htime, x, htimes x hx, hlt⟩

theorem copies_snoc (h : Explained host config es s) {e : ClickEnvelope} {p : ProcessedClick}
    (hp : p.origin = e.origin) :
    ((s.processed ++ [p]).map ProcessedClick.origin).Sublist
      ((es ++ [e]).map ClickEnvelope.origin) := by
  rw [List.map_append, List.map_append, List.map_singleton, List.map_singleton, hp]
  exact h.copies.append (List.Sublist.refl _)

/-- Every call keeps the explanation. -/
theorem step (h : Explained host config es s) (e : ClickEnvelope) :
    Explained host config (es ++ [e]) (Watermark.step host config s e).1 := by
  cases htime : host.newDate e.eventTime with
  | none =>
    rw [step_of_invalid_date htime]
    exact h.idle e
  | some time =>
    cases htext : (resolvedIp e).toText with
    | error err =>
      rw [step_of_invalid_ip htime htext]
      exact h.idle e
    | ok text =>
      have hidle := h.idle e
      cases hlate : isLate config s (some time) with
      | true =>
        rw [step_of_isLate htime htext hlate]
        refine ⟨hidle.watermark, h.copies_snoc rfl, ?_⟩
        intro p hp hstatus
        rcases List.mem_append.1 hp with hp | hp
        · exact hidle.late p hp hstatus
        · rw [List.mem_singleton.1 hp]
          -- the watermark is a time of the envelopes, as it is not zero
          obtain ⟨hpos, hlt⟩ := isLate_iff.1 hlate
          refine ⟨time, htime, s.watermarkMs.ms, ?_, hlt⟩
          rcases hidle.watermark with hzero | hmem
          · change 0 < s.watermarkMs.ms at hpos
            omega
          · exact hmem
      | false =>
        rw [step_of_not_isLate htime htext hlate]
        refine ⟨?_, h.copies_snoc rfl, ?_⟩
        · change (advance s.watermarkMs (some time)).ms = 0 ∨ _
          rw [advance]
          split
          · right
            rw [times_snoc host es htime]
            exact List.mem_append_right _ (List.mem_singleton_self _)
          · exact hidle.watermark
        · intro p hp hstatus
          rcases List.mem_append.1 hp with hp | hp
          · exact hidle.late p hp hstatus
          · rw [List.mem_singleton.1 hp] at hstatus
            change (if _ then Status.fraud else Status.accepted) = Status.late at hstatus
            split at hstatus
            · cases hstatus
            · cases hstatus

end Explained

/-- A service that has only been called with the envelopes is explained by them. -/
theorem explained_after (host : Host) (config : Config) (es : List ClickEnvelope) :
    Explained host config es (after (step host config) .fresh es) := by
  induction es using List.reverseRecOn with
  | nil => exact ⟨.inl rfl, List.Sublist.slnil, fun p hp => by cases hp⟩
  | append_singleton es e ih =>
    rw [after, List.foldl_append]
    exact ih.step e

end AdClick.Watermark
