import AdClick.Ingest.Validation
import AdClick.Watermark.Service

/-!
# From the late-data ingest-api to the watermark service

The ingest-api of the late-data lesson validates a body (`validate`), fills in what is missing and
emits an envelope (`publish`); the watermark service then processes it. `process` throws on an event
time that is no date and on an IP that has no text, and the validation lets both through: the event
time is any string, and the IP is taken from a payload that is any object. So a click that was
acknowledged is processed exactly when its event time, if it has one, is a date, and its IP has a
text (`processedOnce_iff_processable`).
-/

set_option autoImplicit false

namespace AdClick.Ingest.LateData

open AdClick.Ecma AdClick.Watermark

/-! ## The code -/

/-- A body that has passed the validation. -/
structure PublishClickDto where
  clickId : Option String
  adId : String
  eventTime : Option String
  payload : Option Members

/-- The checks of `PublishClickDto` and of the validation pipe. -/
def validate (transform : Members → Option Members) (body : Members) :
    Except HttpError PublishClickDto := do
  let value := JsValue.obj body
  -- the payload comes first, as the transformation throws before anything is checked
  let payload ← optionalObject transform (value.optionalGet "payload")
  whitelisted ["clickId", "adId", "eventTime", "payload"] body
  let clickId ← optionalString (value.optionalGet "clickId")
  let adId ← requiredString (value.optionalGet "adId")
  let eventTime ← optionalString (value.optionalGet "eventTime")
  return { clickId, adId, eventTime, payload }

/-- What `publish` emits to the topic. -/
structure Message where
  key : String
  value : Watermark.ClickEnvelope
  clickIdHeader : String

structure Ack where
  status : String
  topic : String
  clickId : String
  adId : String
  eventTime : String

/-- Emits one click event and acknowledges it; `minted` is the fresh UUID, `now` the server time. -/
def publish (topic minted : String) (now : TimeValue) (dto : PublishClickDto) : Message × Ack :=
  let clickId := dto.clickId.getD minted
  let eventTime := dto.eventTime.getD (isoString now)
  let envelope : Watermark.ClickEnvelope := {
    clickId := clickId
    adId := dto.adId
    ip := .undefined
    payload := .obj (dto.payload.getD [])
    eventTime := eventTime }
  (⟨dto.adId, envelope, clickId⟩, ⟨"accepted", topic, clickId, dto.adId, eventTime⟩)

/-- `POST /clicks`: a body that passes the validation is published. -/
def postClicks (transform : Members → Option Members) (topic minted : String) (now : TimeValue)
    (body : Members) : Except HttpError (Message × Ack) := do
  let dto ← validate transform body
  return publish topic minted now dto

/-! ## Clicks that are accepted -/

/-- Every property of an accepted body has passed its checks. -/
theorem validate_eq_ok {transform : Members → Option Members} {body : Members}
    {dto : PublishClickDto} (h : validate transform body = .ok dto) :
    optionalString ((JsValue.obj body).optionalGet "clickId") = .ok dto.clickId ∧
      requiredString ((JsValue.obj body).optionalGet "adId") = .ok dto.adId ∧
      optionalString ((JsValue.obj body).optionalGet "eventTime") = .ok dto.eventTime ∧
      optionalObject transform ((JsValue.obj body).optionalGet "payload") = .ok dto.payload := by
  obtain ⟨payload, hpayload, h⟩ := except_bind_eq_ok h
  obtain ⟨-, -, h⟩ := except_bind_eq_ok h
  obtain ⟨clickId, hclickId, h⟩ := except_bind_eq_ok h
  obtain ⟨adId, hadId, h⟩ := except_bind_eq_ok h
  obtain ⟨eventTime, heventTime, h⟩ := except_bind_eq_ok h
  cases h
  exact ⟨hclickId, hadId, heventTime, hpayload⟩

/-! ## Clicks that are processed -/

/-- Exactly one of the three totals has grown, by one. -/
def OneMore (before after : Stats) : Prop := ∃ status, after = before.bump status

/-- The call of `process` for the message returns, appends one entry with the acknowledged click and
ad, and counts it in one of the totals. -/
def ProcessedOnce (host : Host) (config : Config) (s : State) (published : Message × Ack) : Prop :=
  ∃ p t, step host config s published.1.value = (t, .ok p) ∧ t.processed = s.processed ++ [p] ∧
    p.clickId = published.2.clickId ∧ p.adId = published.2.adId ∧
    OneMore (snapshot s).stats (snapshot t).stats

/-- The IP in a payload as the processor resolves it, when the transformation has not thrown. -/
def ipIn (transform : Members → Option Members) : JsValue → JsValue
  | .obj members =>
    ((JsValue.obj ((transform members).getD [])).optionalGet "ip").coalesce (.str "unknown")
  | _ => .str "unknown"

/-- The event time of the body, if there is one, is a date, and the IP in its payload has a text. -/
def Processable (host : Host) (transform : Members → Option Members) (body : Members) : Prop :=
  (∀ text, (JsValue.obj body).optionalGet "eventTime" = .str text →
    ∃ t, host.newDate text = some t) ∧
  ∃ text, (ipIn transform ((JsValue.obj body).optionalGet "payload")).toText = .ok text

/-- The event time that is emitted is a date exactly when the one in the body is, if there is one:
the server writes a date. -/
theorem newDate_publish (host : Host) (topic minted : String) (now : TimeValue)
    (dto : PublishClickDto) :
    (∃ t, host.newDate (publish topic minted now dto).1.value.eventTime = some t) ↔
      ∀ text, dto.eventTime = some text → ∃ t, host.newDate text = some t := by
  show (∃ t, host.newDate (dto.eventTime.getD (isoString now)) = some t) ↔ _
  cases dto.eventTime with
  | none =>
    constructor
    · intro _ text h
      cases h
    · intro _
      exact ⟨now, host.newDate_isoString now⟩
  | some text =>
    constructor
    · intro h text' htext
      cases htext
      exact h
    · intro h
      exact h text rfl

/-- The processor resolves the IP in the payload of the body. -/
theorem resolvedIp_publish {transform : Members → Option Members} {payload : JsValue}
    {dto : PublishClickDto} (h : optionalObject transform payload = .ok dto.payload)
    (topic minted : String) (now : TimeValue) :
    resolvedIp (publish topic minted now dto).1.value = ipIn transform payload := by
  show ((JsValue.obj (dto.payload.getD [])).optionalGet "ip").coalesce (.str "unknown") = _
  cases payload with
  | undefined =>
    rw [← Except.ok.inj h]
    rfl
  | null =>
    rw [← Except.ok.inj h]
    rfl
  | obj members =>
    rw [optionalObject] at h
    split at h
    · cases h
    · rename_i transformed htransformed
      rw [← Except.ok.inj h, ipIn, htransformed]
  | bool b => cases h
  | num text => cases h
  | str s => cases h
  | arr elems => cases h

theorem oneMore_of_append {processed : List ProcessedClick} (p : ProcessedClick) :
    OneMore (stats processed) (stats (processed ++ [p])) := by
  refine ⟨p.status, ?_⟩
  rw [stats, List.foldl_append]
  rfl

/-- A call with a date and a text for an IP appends one entry for its click and ad. -/
theorem step_of_valid {host : Host} (config : Config) {envelope : Watermark.ClickEnvelope}
    {time : TimeValue} {text : String} (htime : host.newDate envelope.eventTime = some time)
    (htext : (resolvedIp envelope).toText = .ok text) (s : State) :
    ∃ p t, step host config s envelope = (t, .ok p) ∧ t.processed = s.processed ++ [p] ∧
      p.clickId = envelope.clickId ∧ p.adId = envelope.adId := by
  cases hlate : isLate config s (some time) with
  | true => exact ⟨_, _, step_of_isLate htime htext hlate, rfl, rfl, rfl⟩
  | false => exact ⟨_, _, step_of_not_isLate htime htext hlate, rfl, rfl, rfl⟩

/-- A call that returns was given a date and a text for an IP. -/
theorem valid_of_step {host : Host} {config : Config} {envelope : Watermark.ClickEnvelope}
    {s t : State} {p : ProcessedClick} (h : step host config s envelope = (t, .ok p)) :
    (∃ time, host.newDate envelope.eventTime = some time) ∧
      ∃ text, (resolvedIp envelope).toText = .ok text := by
  cases htime : host.newDate envelope.eventTime with
  | none =>
    rw [step_of_invalid_date htime] at h
    cases h
  | some time =>
    refine ⟨⟨time, rfl⟩, ?_⟩
    cases htext : (resolvedIp envelope).toText with
    | error err =>
      rw [step_of_invalid_ip htime htext] at h
      cases h
    | ok text => exact ⟨text, rfl⟩

/-- A click that the ingest-api has accepted is processed, in whatever state the watermark service
is, exactly when its event time and its IP can be read. -/
theorem processedOnce_iff_processable (transform : Members → Option Members) (host : Host)
    (config : Config) (topic minted : String) (now : TimeValue) (body : Members)
    (published : Message × Ack)
    (haccepted : postClicks transform topic minted now body = .ok published) (s : State) :
    ProcessedOnce host config s published ↔ Processable host transform body := by
  obtain ⟨dto, hvalid, hpublished⟩ := except_bind_eq_ok haccepted
  cases hpublished
  obtain ⟨-, -, htime, hpayload⟩ := validate_eq_ok hvalid
  have hprocessable : Processable host transform body ↔
      (∃ t, host.newDate (publish topic minted now dto).1.value.eventTime = some t) ∧
        ∃ text, (resolvedIp (publish topic minted now dto).1.value).toText = .ok text := by
    rw [newDate_publish, resolvedIp_publish hpayload, Processable]
    simp only [eq_str_iff_of_optionalString htime]
  rw [hprocessable]
  constructor
  · rintro ⟨p, t, hstep, -⟩
    exact valid_of_step hstep
  · rintro ⟨⟨time, hdate⟩, ⟨text, htext⟩⟩
    obtain ⟨p, t, hstep, hlog, hclick, had⟩ := step_of_valid config hdate htext s
    refine ⟨p, t, hstep, hlog, hclick, had, ?_⟩
    show OneMore (stats s.processed) (stats t.processed)
    rw [hlog]
    exact oneMore_of_append p

/-- A body with nothing but an ad. -/
def plainBody : Members := [("adId", .str "ad-1")]

def noon : TimeValue := ⟨1781265600000, by decide, by decide⟩

/-- The click of a plain body is processed. -/
theorem plainBody_is_processed :
    ∃ published, postClicks some "ad-clicks" "c-1" noon plainBody = .ok published ∧
      ProcessedOnce utcHost .default .fresh published := by
  refine ⟨_, rfl, ?_⟩
  refine (processedOnce_iff_processable some utcHost .default "ad-clicks" "c-1" noon plainBody _ rfl
    .fresh).2 ⟨?_, "unknown", rfl⟩
  intro text htext
  cases htext

/-- A body whose event time is no date. -/
def undatedBody : Members := [("adId", .str "ad-1"), ("eventTime", .str "yesterday")]

/-- Its click is acknowledged, and the processor throws. -/
theorem undatedBody_is_dropped :
    ∃ published, postClicks some "ad-clicks" "c-1" noon undatedBody = .ok published ∧
      ¬ ProcessedOnce utcHost .default .fresh published := by
  refine ⟨_, rfl, ?_⟩
  rintro ⟨p, t, hstep, -⟩
  obtain ⟨⟨time, htime⟩, -⟩ := valid_of_step hstep
  have hnone : utcHost.newDate "yesterday" = none := by decide
  cases hnone.symm.trans htime

end AdClick.Ingest.LateData
