import AdClick.Ingest.Producers

/-!
# What an answer says about the log

An answer is truthful when a 202 means that exactly one record was appended for the request, with
the acknowledged ad and click, and an error means that none was (`Truthful`). `publish_eq` and
`post_eq` of each language say what a call answers and appends, for every outcome of the append.

Only the C# service waits for the delivery report, and only its answers are always truthful. The
others acknowledge an append whose failure nobody has noticed, and the Java service appends a record
without a key before it finds that it has no ad id to answer with (`truthful_iff`).
-/

set_option autoImplicit false

namespace AdClick.Ingest

open AdClick.Ecma

variable {π : Type}

/-- A success stands for exactly one new record with the acknowledged ids, an error for none. -/
def Truthful (log : List (Record π)) :
    EStateM.Result HttpError (List (Record π)) Ack → Prop
  | .ok ack log' => ∃ record, log' = log ++ [record] ∧
      record.key = some ack.adId ∧ record.value.adId = some ack.adId ∧
      record.clickIdHeader = ack.clickId ∧ record.value.clickId = ack.clickId
  | .error _ log' => log' = log

/-! ## What the calls do -/

/-- The record of a click. -/
def Call.record (call : Call) (adId : Option String) (clickId : String) (payload : π) : Record π :=
  ⟨adId, clickId, ⟨clickId, adId, payload, call.now⟩⟩

/-- The answer to a click. -/
def Call.ack (call : Call) (adId clickId : String) : Ack := ⟨"accepted", call.topic, clickId, adId⟩

/-- What an append leaves in the log. -/
def landed (append : Append) (record : Record π) : List (Record π) :=
  match append with
  | .applied => [record]
  | .failedAtCall => []
  | .failedLater => []

theorem landed_of_applied {append : Append} (h : append = .applied) (record : Record π) :
    landed append record = [record] := by
  rw [h]
  rfl

/-- After a request the record is in the log if it landed, and a reported failure ends the call. -/
theorem requestAppend_bind {β : Type} (reported : Append → Bool) (append : Append)
    (record : Record π) (f : Unit → Handler π β) (log : List (Record π)) :
    (requestAppend reported append record >>= f) log =
      if reported append then .error .internalServerError (log ++ landed append record)
      else f () (log ++ landed append record) := by
  have hrun : requestAppend reported append record log =
      if reported append then .error .internalServerError (log ++ landed append record)
      else .ok () (log ++ landed append record) := by
    unfold requestAppend
    cases append with
    | applied => cases reported .applied <;> rfl
    | failedAtCall =>
      rw [landed, List.append_nil]
      cases reported .failedAtCall <;> rfl
    | failedLater =>
      rw [landed, List.append_nil]
      cases reported .failedLater <;> rfl
  show EStateM.bind _ f log = _
  rw [EStateM.bind, hrun]
  cases reported append <;> rfl

theorem TypeScript.publish_eq (call : Call) (dto : TypeScript.PublishClickDto)
    (log : List (Record Members)) :
    let clickId := idOf dto.clickId call.minted
    let record := call.record (some dto.adId) clickId (dto.payload.getD [])
    TypeScript.publish call dto log =
      .ok (call.ack dto.adId clickId) (log ++ landed call.append record) :=
  requestAppend_bind (fun _ => false) call.append _ _ log

theorem Java.publish_eq (call : Call) (emptyMap : π) (dto : PublishClickDto π)
    (log : List (Record π)) :
    let clickId := idOf dto.clickId call.minted
    let record := call.record dto.adId clickId (dto.payload.getD emptyMap)
    Java.publish call emptyMap dto log =
      if call.append = .failedAtCall then
        .error .internalServerError (log ++ landed call.append record)
      else
        match dto.adId with
        | none => .error .internalServerError (log ++ landed call.append record)
        | some adId => .ok (call.ack adId clickId) (log ++ landed call.append record) := by
  obtain ⟨clickId?, adId?, payload?⟩ := dto
  intro clickId record
  refine (requestAppend_bind _ call.append _ _ log).trans ?_
  by_cases happend : call.append = .failedAtCall
  · rw [if_pos happend]
    exact if_pos (decide_eq_true happend)
  · rw [if_neg happend]
    refine (if_neg (by simpa using happend)).trans ?_
    cases adId? with
    | none => rfl
    | some adId => rfl

theorem CSharp.publishAsync_eq (call : Call) (emptyMap : π) (dto : PublishClickDto π)
    (adId : String) (log : List (Record π)) :
    let clickId := idOf dto.clickId call.minted
    let record := call.record (some adId) clickId (dto.payload.getD emptyMap)
    CSharp.publishAsync call emptyMap dto adId log =
      if call.append = .applied then
        .ok (call.ack adId clickId) (log ++ landed call.append record)
      else .error .internalServerError (log ++ landed call.append record) := by
  intro clickId record
  refine (requestAppend_bind _ call.append _ _ log).trans ?_
  by_cases happend : call.append = .applied
  · rw [if_pos happend]
    exact if_neg (by simpa using happend)
  · rw [if_neg happend]
    exact if_pos (decide_eq_true happend)

theorem Go.publish_eq (call : Call) (emptyMap : π) (dto : Go.PublishClickDto π)
    (log : List (Record π)) :
    let clickId := idOf dto.clickId call.minted
    let record := call.record (some dto.adId) clickId (dto.payload.getD emptyMap)
    Go.publish call emptyMap dto log =
      if call.append = .failedAtCall then
        .error .internalServerError (log ++ landed call.append record)
      else .ok (call.ack dto.adId clickId) (log ++ landed call.append record) := by
  intro clickId record
  refine (requestAppend_bind _ call.append _ _ log).trans ?_
  by_cases happend : call.append = .failedAtCall
  · rw [if_pos happend]
    exact if_pos (decide_eq_true happend)
  · rw [if_neg happend]
    exact if_neg (by simpa using happend)

/-! ## Truthful answers -/

/-- A success is truthful when its record has landed. -/
theorem truthful_ok_iff (call : Call) (log : List (Record π)) (adId clickId : String)
    (payload : π) :
    Truthful log (.ok (call.ack adId clickId)
        (log ++ landed call.append (call.record (some adId) clickId payload))) ↔
      call.append = .applied := by
  cases happend : call.append with
  | applied =>
    simp only [iff_true]
    exact ⟨_, rfl, rfl, rfl, rfl, rfl⟩
  | failedAtCall => simp [Truthful, landed]
  | failedLater => simp [Truthful, landed]

/-- An error is truthful when nothing has landed. -/
theorem truthful_error_iff (err : HttpError) (append : Append) (record : Record π)
    (log : List (Record π)) :
    Truthful log (.error err (log ++ landed append record)) ↔ append ≠ .applied := by
  cases append with
  | applied => simp [Truthful, landed]
  | failedAtCall => simp [Truthful, landed]
  | failedLater => simp [Truthful, landed]

theorem TypeScript.truthful_iff (transform : Members → Option Members) (call : Call)
    (body : Members) (log : List (Record Members)) :
    Truthful log (TypeScript.post transform call body log) ↔
      (∃ err, TypeScript.validate transform body = .error err) ∨ call.append = .applied := by
  unfold TypeScript.post
  cases hvalid : TypeScript.validate transform body with
  | error err =>
    show log = log ↔ _
    simp
  | ok dto =>
    show Truthful log (TypeScript.publish call dto log) ↔ _
    rw [TypeScript.publish_eq, truthful_ok_iff]
    simp

theorem Java.truthful_iff (call : Call) (emptyMap : π) (dto : PublishClickDto π)
    (log : List (Record π)) :
    Truthful log (Java.publish call emptyMap dto log) ↔
      (call.append = .applied → dto.adId ≠ none) ∧
        (call.append = .failedLater → dto.adId = none) := by
  rw [Java.publish_eq]
  by_cases hcall : call.append = .failedAtCall
  · rw [if_pos hcall, truthful_error_iff, hcall]
    simp
  · rw [if_neg hcall]
    cases dto.adId with
    | none =>
      show Truthful log (.error _ _) ↔ _
      rw [truthful_error_iff]
      simp
    | some adId =>
      show Truthful log (.ok _ _) ↔ _
      rw [truthful_ok_iff]
      cases happend : call.append with
      | applied => simp
      | failedAtCall => exact absurd happend hcall
      | failedLater => simp

theorem CSharp.truthful (call : Call) (emptyMap : π) (dto : PublishClickDto π)
    (log : List (Record π)) : Truthful log (CSharp.post call emptyMap dto log) := by
  unfold CSharp.post
  cases dto.adId with
  | none => rfl
  | some adId =>
    show Truthful log ((if CSharp.isBlank adId then throw .badRequest
      else CSharp.publishAsync call emptyMap dto adId) log)
    split
    · rfl
    · rw [CSharp.publishAsync_eq]
      split
      · rename_i happend
        exact (truthful_ok_iff ..).2 happend
      · rename_i happend
        exact (truthful_error_iff ..).2 happend

theorem Go.truthful_iff (call : Call) (emptyMap : π) (dto : Go.PublishClickDto π)
    (log : List (Record π)) :
    Truthful log (Go.post call emptyMap dto log) ↔
      dto.adId = "" ∨ call.append ≠ .failedLater := by
  unfold Go.post
  by_cases hempty : dto.adId = ""
  · rw [if_pos hempty]
    exact iff_of_true rfl (Or.inl hempty)
  · rw [if_neg hempty, Go.publish_eq]
    by_cases hcall : call.append = .failedAtCall
    · rw [if_pos hcall, truthful_error_iff, hcall]
      simp
    · rw [if_neg hcall, truthful_ok_iff]
      cases happend : call.append with
      | applied => simp
      | failedAtCall => exact absurd happend hcall
      | failedLater => simp [hempty]

/-- When the answers of the four services are truthful, for every request and every outcome of the
append. -/
theorem acknowledgement_is_truthful_iff (emptyMap : π) (call : Call) :
    (∀ transform body log, Truthful log (TypeScript.post transform call body log) ↔
      (∃ err, TypeScript.validate transform body = .error err) ∨ call.append = .applied) ∧
    (∀ dto log, Truthful log (Java.publish call emptyMap dto log) ↔
      (call.append = .applied → dto.adId ≠ none) ∧
        (call.append = .failedLater → dto.adId = none)) ∧
    (∀ dto log, Truthful log (CSharp.post call emptyMap dto log)) ∧
    (∀ dto log, Truthful log (Go.post call emptyMap dto log) ↔
      dto.adId = "" ∨ call.append ≠ .failedLater) := by
  refine ⟨?_, ?_, ?_, ?_⟩
  · intro transform body log
    exact TypeScript.truthful_iff transform call body log
  · intro dto log
    exact Java.truthful_iff call emptyMap dto log
  · intro dto log
    exact CSharp.truthful call emptyMap dto log
  · intro dto log
    exact Go.truthful_iff call emptyMap dto log

/-- A call whose append has the outcome. -/
def callWith (append : Append) : Call := ⟨"ad-clicks", "c-1", "2026-06-12T10:05:34.123Z", append⟩

/-- The TypeScript service acknowledges a click whose append fails after `emit` has returned, and
the Java service answers with an error after it has appended a click without an ad id. -/
theorem answer_disagrees_with_log :
    ¬ Truthful [] (TypeScript.post some (callWith .failedLater) [("adId", .str "ad-1")] []) ∧
      ¬ Truthful [] (Java.publish (callWith .applied) () ⟨none, none, none⟩ []) := by
  constructor
  · rintro ⟨record, hlog, -⟩
    cases hlog
  · intro hlog
    cases hlog

end AdClick.Ingest
