import AdClick.Ingest.Contract

/-!
# What a request leaves in the log

For every outcome of the append, a request leaves at most one record behind what the log holds
(`logOf_serve`), whatever the answer is. The header of such a record carries the click id of its
value and its key the ad id, and only the Java service appends one without a key
(`of_mem_appended`). A request that is answered with a success leaves the record that the answer
tells, if its append takes effect; and in the C# service it does (`appended_of_ok`).
-/

set_option autoImplicit false

namespace AdClick.Ingest

open AdClick.Ecma AdClick.Counter

/-- The record of a request that the language takes, if its append takes effect. -/
def appended (json : JsonStack) (call : Call) (request : Request) (language : Language) :
    List (Record Members) :=
  match readPayload json request language with
  | none => []
  | some payload =>
    if passesAdId language request.adId then
      landed call.append
        (call.record request.adId (idOf request.clickId call.minted language) (payload.getD []))
    else []

section Handle

variable (call : Call) (request : Request) (log : List (Record Members))

theorem logOf_typescript :
    logOf (TypeScript.post some call request.body log) =
      log ++ if passesAdId .typescript request.adId then
        landed call.append (call.record request.adId
          (idOf request.clickId call.minted .typescript) (request.payload.getD []))
      else [] := by
  rw [TypeScript.post, validate_body]
  cases request.adId with
  | none => exact (List.append_nil log).symm
  | some adId =>
    by_cases hempty : adId = ""
    · rw [hempty]
      exact (List.append_nil log).symm
    · have hpasses : passesAdId .typescript (some adId) = true := by
        simpa [passesAdId] using hempty
      simp only [if_neg hempty]
      rw [TypeScript.publish_eq, if_pos hpasses]
      rfl

theorem logOf_java :
    logOf (Java.publish call [] request log) =
      log ++ landed call.append (call.record request.adId
        (idOf request.clickId call.minted .java) (request.payload.getD [])) := by
  rw [Java.publish_eq]
  split
  · rfl
  · split <;> rfl

theorem logOf_csharp :
    logOf (CSharp.post call [] request log) =
      log ++ if passesAdId .csharp request.adId then
        landed call.append (call.record request.adId
          (idOf request.clickId call.minted .csharp) (request.payload.getD []))
      else [] := by
  rw [CSharp.post]
  cases request.adId with
  | none => exact (List.append_nil log).symm
  | some adId =>
    change logOf ((if CSharp.isBlank adId then _ else _ : Handler Members Ack) log) = _
    cases hblank : CSharp.isBlank adId with
    | true =>
      have hfails : ¬ passesAdId .csharp (some adId) = true := by simp [passesAdId, hblank]
      rw [if_neg hfails]
      exact (List.append_nil log).symm
    | false =>
      have hpasses : passesAdId .csharp (some adId) = true := by simp [passesAdId, hblank]
      rw [if_neg Bool.false_ne_true, CSharp.publishAsync_eq, if_pos hpasses]
      split <;> rfl

theorem logOf_go :
    logOf (Go.post call [] ⟨request.clickId.getD "", request.adId.getD "", request.payload⟩ log) =
      log ++ if passesAdId .go request.adId then
        landed call.append (call.record request.adId
          (idOf request.clickId call.minted .go) (request.payload.getD []))
      else [] := by
  rw [Go.post]
  cases request.adId with
  | none => exact (List.append_nil log).symm
  | some adId =>
    change logOf ((if adId = "" then _ else _ : Handler Members Ack) log) = _
    by_cases hempty : adId = ""
    · rw [hempty]
      exact (List.append_nil log).symm
    · have hpasses : passesAdId .go (some adId) = true := by simpa [passesAdId] using hempty
      rw [if_neg hempty, Go.publish_eq, if_pos hpasses]
      split <;> rfl

end Handle

/-- A request appends its record to the log, and leaves what is there. -/
theorem logOf_serve (json : JsonStack) (call : Call) (request : Request) (language : Language)
    (log : List (Record Members)) :
    logOf (serve json call request language log) = log ++ appended json call request language := by
  rw [serve, appended]
  cases readPayload json request language with
  | none => exact (List.append_nil log).symm
  | some payload =>
    cases language with
    | typescript => exact logOf_typescript call { request with payload := payload } log
    | java => exact logOf_java call { request with payload := payload } log
    | csharp => exact logOf_csharp call { request with payload := payload } log
    | go => exact logOf_go call { request with payload := payload } log

/-- An append leaves its record or nothing. -/
theorem mem_landed {append : Append} {record x : Record Members} (h : x ∈ landed append record) :
    x = record := by
  cases append with
  | applied => exact List.mem_singleton.1 h
  | failedAtCall => cases h
  | failedLater => cases h

/-- Header and key repeat the ids of the value, and a missing key comes from the Java service. -/
theorem of_mem_appended {json : JsonStack} {call : Call} {request : Request} {language : Language}
    {record : Record Members} (h : record ∈ appended json call request language) :
    record.clickIdHeader = record.value.clickId ∧ record.key = record.value.adId ∧
      (record.key = none → language = .java) := by
  rw [appended] at h
  split at h
  · cases h
  · split at h
    · rename_i hpasses
      rw [mem_landed h]
      refine ⟨rfl, rfl, ?_⟩
      intro hkey
      change request.adId = none at hkey
      rw [hkey] at hpasses
      -- the other services refuse a request without an ad id
      cases language with
      | java => rfl
      | typescript => cases hpasses
      | csharp => cases hpasses
      | go => cases hpasses
    · cases h

/-! ## Acknowledged requests -/

section Acknowledged

variable {json : JsonStack} {call : Call} {request : Request} {language : Language}
  {log log' : List (Record Members)} {ack : Ack}

/-- When the append takes effect, and in the C# service always, a success is truthful. -/
theorem truthful_of_ok (h : serve json call request language log = .ok ack log')
    (happlied : call.append = .applied ∨ language = .csharp) : Truthful log (.ok ack log') := by
  rw [serve] at h
  cases hread : readPayload json request language with
  | none =>
    rw [hread] at h
    cases h
  | some payload =>
    rw [hread] at h
    rw [← h]
    cases language with
    | csharp => exact CSharp.truthful call [] { request with payload := payload } log
    | typescript =>
      have hcall := happlied.resolve_right (by simp)
      exact (TypeScript.truthful_iff some call _ log).2 (Or.inr hcall)
    | java =>
      have hcall := happlied.resolve_right (by simp)
      apply (Java.truthful_iff call [] { request with payload := payload } log).2
      refine ⟨?_, ?_⟩
      · intro _ hadId
        -- without an ad id the answer would be an error
        change Java.publish call [] { request with payload := payload } log = _ at h
        rw [Java.publish_eq, hcall, if_neg (by simp)] at h
        change request.adId = none at hadId
        simp only [hadId] at h
        cases h
      · intro hlater
        rw [hcall] at hlater
        cases hlater
    | go =>
      have hcall := happlied.resolve_right (by simp)
      refine (Go.truthful_iff call [] _ log).2 (Or.inr ?_)
      rw [hcall]
      simp

/-- The record of an acknowledged request is in the log under the acknowledged ids. -/
theorem appended_of_ok (h : serve json call request language log = .ok ack log')
    (happlied : call.append = .applied ∨ language = .csharp) :
    ∃ record ∈ appended json call request language,
      record.clickIdHeader = ack.clickId ∧ record.key = some ack.adId := by
  obtain ⟨record, hlog, hkey, -, hheader, -⟩ := truthful_of_ok h happlied
  have hserve := logOf_serve json call request language log
  rw [h, logOf, hlog, List.append_cancel_left_eq] at hserve
  refine ⟨record, ?_, hheader, hkey⟩
  rw [← hserve]
  exact List.mem_singleton_self record

end Acknowledged

end AdClick.Ingest
