import AdClick.Watermark.Refinement

/-!
# Late and malformed clicks have no influence

What `process` decides depends on the watermark and on the counts alone (`SameDecisions`), and a
call that throws or classifies its click as late changes neither. So the calls that are left when
these are taken out of a run behave as they did in it (`ignored_calls_have_no_influence`).
-/

set_option autoImplicit false

namespace AdClick.Watermark

open AdClick.Library AdClick.Ecma

/-- The states agree on what later calls read. -/
structure SameDecisions (s t : State) : Prop where
  watermarkMs : s.watermarkMs = t.watermarkMs
  ipWindowCounts : s.ipWindowCounts = t.ipWindowCounts

theorem sameDecisions_refl (s : State) : SameDecisions s s := ⟨rfl, rfl⟩

/-- The call threw, or its click was late. -/
def ignored : Except JsError ProcessedClick → Bool
  | .error _ => true
  | .ok p => p.status = .late

variable {host : Host} {config : Config}

theorem isLate_congr (config : Config) {s t : State} (h : SameDecisions s t) (eventMs : Date) :
    isLate config s eventMs = isLate config t eventMs := by
  rw [isLate, isLate, h.watermarkMs]

/-- Calls in states that agree return the same and leave states that agree. -/
theorem step_congr {s t : State} (h : SameDecisions s t) (envelope : ClickEnvelope) :
    (step host config s envelope).2 = (step host config t envelope).2 ∧
      SameDecisions (step host config s envelope).1 (step host config t envelope).1 := by
  cases htime : host.newDate envelope.eventTime with
  | none =>
    rw [step_of_invalid_date htime, step_of_invalid_date htime]
    exact ⟨rfl, h⟩
  | some time =>
    cases htext : (resolvedIp envelope).toText with
    | error err =>
      rw [step_of_invalid_ip htime htext, step_of_invalid_ip htime htext]
      exact ⟨rfl, h⟩
    | ok text =>
      have hcongr := isLate_congr config h (some time)
      cases hlate : isLate config s (some time) with
      | true =>
        rw [step_of_isLate htime htext hlate, step_of_isLate htime htext (hcongr ▸ hlate),
          h.watermarkMs]
        exact ⟨rfl, rfl, h.ipWindowCounts⟩
      | false =>
        rw [step_of_not_isLate htime htext hlate, step_of_not_isLate htime htext (hcongr ▸ hlate),
          h.watermarkMs, h.ipWindowCounts]
        exact ⟨rfl, rfl, rfl⟩

/-- An ignored call leaves what later calls read as it was. -/
theorem step_of_ignored {s t : State} (h : SameDecisions s t) {envelope : ClickEnvelope}
    (hignored : ignored (step host config s envelope).2 = true) :
    SameDecisions (step host config s envelope).1 t := by
  cases htime : host.newDate envelope.eventTime with
  | none =>
    rw [step_of_invalid_date htime]
    exact h
  | some time =>
    cases htext : (resolvedIp envelope).toText with
    | error err =>
      rw [step_of_invalid_ip htime htext]
      exact h
    | ok text =>
      cases hlate : isLate config s (some time) with
      | true =>
        rw [step_of_isLate htime htext hlate]
        exact ⟨h.watermarkMs, h.ipWindowCounts⟩
      | false =>
        -- a click that is not late is accepted or fraud, and neither is ignored
        rw [step_of_not_isLate htime htext hlate] at hignored
        revert hignored
        simp only [ignored]
        split <;> simp

/-- A call with a text for an IP throws exactly when its event time does not parse, and then leaves
the state as it was. -/
theorem step_throws_iff (host : Host) (config : Config) {envelope : ClickEnvelope}
    (hip : TextIp envelope) (s : State) :
    ((∃ err, (step host config s envelope).2 = .error err) ↔
      host.newDate envelope.eventTime = none) ∧
    (host.newDate envelope.eventTime = none → (step host config s envelope).1 = s) := by
  obtain ⟨text, htext⟩ := hip.toText
  cases htime : host.newDate envelope.eventTime with
  | none =>
    rw [step_of_invalid_date htime]
    exact ⟨⟨fun _ => rfl, fun _ => ⟨.rangeError, rfl⟩⟩, fun _ => rfl⟩
  | some time =>
    refine ⟨⟨?_, fun h => by cases h⟩, fun h => by cases h⟩
    -- both conversions succeed, and nothing after them throws
    rintro ⟨err, herr⟩
    cases hlate : isLate config s (some time) with
    | true =>
      rw [step_of_isLate htime htext hlate] at herr
      cases herr
    | false =>
      rw [step_of_not_isLate htime htext hlate] at herr
      cases herr

/-- The envelopes of a run whose calls are not ignored, with what these calls return. -/
def kept (host : Host) (config : Config) (s : State) (es : List ClickEnvelope) :
    List (ClickEnvelope × Except JsError ProcessedClick) :=
  (es.zip (outputs (step host config) s es)).filter fun q => !ignored q.2

/-- Calls throw exactly on the event times that do not parse and then change nothing, and the run
without the calls that throw or find their click late returns what they returned in the full run and
ends with the same watermark and counts. -/
theorem ignored_calls_have_no_influence (host : Host) (config : Config) (s : State)
    (es : List ClickEnvelope) (hip : ∀ e ∈ es, TextIp e) :
    (∀ i e, es[i]? = some e →
      ((∃ err, (outputs (step host config) s es)[i]? = some (.error err)) ↔
        host.newDate e.eventTime = none) ∧
      (host.newDate e.eventTime = none →
        after (step host config) s (es.take (i + 1)) = after (step host config) s (es.take i))) ∧
    outputs (step host config) s ((kept host config s es).map Prod.fst) =
      (kept host config s es).map Prod.snd ∧
    (∀ r ∈ outputs (step host config) s ((kept host config s es).map Prod.fst),
      ∃ p, r = .ok p ∧ p.status ≠ .late) ∧
    SameDecisions (after (step host config) s es)
      (after (step host config) s ((kept host config s es).map Prod.fst)) := by
  obtain ⟨houtputs, hsame⟩ := outputs_filter (step host config) ignored
    (fun s t e h => step_congr h e) (fun s t e h hi => step_of_ignored h hi) es s s
    (sameDecisions_refl s)
  refine ⟨?_, houtputs, ?_, hsame⟩
  · intro i e he
    have hthrows := step_throws_iff host config (hip e (List.mem_of_getElem? he))
      (after (step host config) s (es.take i))
    constructor
    · rw [outputs_getElem?, he, ← hthrows.1]
      simp
    · intro hnone
      rw [List.take_add_one, after_append, he]
      exact hthrows.2 hnone
  · intro r hr
    have hr' : r ∈ (kept host config s es).map Prod.snd := houtputs ▸ hr
    obtain ⟨q, hq, rfl⟩ := List.mem_map.1 hr'
    have hkept := (List.mem_filter.1 hq).2
    cases hq2 : q.2 with
    | error err =>
      rw [hq2] at hkept
      cases hkept
    | ok p =>
      rw [hq2] at hkept
      exact ⟨p, rfl, by simpa [ignored] using hkept⟩

/-- A click, one whose event time is no date, and one more than the tolerance behind the first. -/
def mixedEnvelopes : List ClickEnvelope :=
  [⟨"c-1", "ad-1", .str "10.0.0.1", .undefined, "2026-06-12T10:05:34.123Z"⟩,
    ⟨"c-2", "ad-1", .str "10.0.0.1", .undefined, "yesterday"⟩,
    ⟨"c-3", "ad-1", .undefined, .undefined, "2026-06-12T10:04:00.000Z"⟩]

/-- Only the first of the three is kept, and alone it leads to the same watermark and counts. -/
theorem influence_of_mixedEnvelopes :
    ((kept utcHost .default .fresh mixedEnvelopes).map fun q => q.1.clickId) = ["c-1"] ∧
      SameDecisions (after (step utcHost .default) .fresh mixedEnvelopes)
        (after (step utcHost .default) .fresh
          ((kept utcHost .default .fresh mixedEnvelopes).map Prod.fst)) := by
  have hip : ∀ e ∈ mixedEnvelopes, TextIp e := by
    intro e he
    simp only [mixedEnvelopes, List.mem_cons, List.not_mem_nil, or_false] at he
    rcases he with rfl | rfl | rfl
    · exact ⟨"10.0.0.1", rfl⟩
    · exact ⟨"10.0.0.1", rfl⟩
    · exact ⟨"unknown", rfl⟩
  obtain ⟨-, -, -, hsame⟩ :=
    ignored_calls_have_no_influence utcHost .default .fresh mixedEnvelopes hip
  exact ⟨by decide, hsame⟩

end AdClick.Watermark
