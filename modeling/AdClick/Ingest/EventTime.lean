import AdClick.Counter.RecordValue
import AdClick.Ingest.Producers
import AdClick.Window.Service

/-!
# From the windowed ingest-api to the aggregator

The ingest-api of the windowed lesson checks a body as the event-ingestion lesson does. It stamps
the click with the time of its own clock and answers with this event time, so that a caller can find
the window of the click (`publish`). The aggregator parses the value of the record and hands it to
`record`.

So the call of `record` for an accepted click never throws, and it bumps one bucket: that of the ad
and of the acknowledged event time (`accepted_click_reaches_its_bucket`). The time zone of the
aggregator is one that is a fixed number of whole minutes ahead of UTC.

How the payload is written is a parameter.
-/

set_option autoImplicit false

namespace AdClick.Ingest.Windowed

open AdClick.Counter AdClick.Ecma AdClick.Library

/-! ## The ingest-api -/

/-- What a call takes from its environment. -/
structure Call where
  topic : String
  minted : String
  now : TimeValue
  append : Append

structure Envelope where
  clickId : String
  adId : String
  payload : Members
  eventTime : String

structure Message where
  key : String
  value : Envelope
  clickIdHeader : String

/-- The body of a 202 answer. -/
structure Ack where
  status : String
  topic : String
  clickId : String
  adId : String
  eventTime : String

/-- The class of the body has the properties and checks of the event-ingestion lesson. -/
def validate (transform : Members → Option Members) (body : Members) :
    Except HttpError TypeScript.PublishClickDto :=
  TypeScript.validate transform body

/-- The message that is emitted, and the answer. -/
def publish (call : Call) (dto : TypeScript.PublishClickDto) : Message × Ack :=
  let clickId := dto.clickId.getD call.minted
  let eventTime := isoString call.now
  let envelope : Envelope := {
    clickId := clickId
    adId := dto.adId
    payload := dto.payload.getD []
    eventTime := eventTime }
  (⟨dto.adId, envelope, clickId⟩, ⟨"accepted", call.topic, clickId, dto.adId, eventTime⟩)

/-- `POST /clicks`. -/
def postClicks (transform : Members → Option Members) (call : Call) (body : Members) :
    Except HttpError (Message × Ack) := do
  let dto ← validate transform body
  return publish call dto

/-! ## The record on the wire -/

/-- The members of the envelope, in the order in which they are written. -/
def Envelope.members (write : Members → List (String × Json)) (envelope : Envelope) :
    List (String × Json) :=
  [("clickId", .str envelope.clickId),
    ("adId", .str envelope.adId),
    ("payload", .obj (write envelope.payload)),
    ("eventTime", .str envelope.eventTime)]

def Envelope.valueOf (write : Members → List (String × Json)) (envelope : Envelope) : RecordValue :=
  .json (.obj (envelope.members write))

/-- The click in a parsed value, where its members are texts. -/
def readClick : RecordValue → Option Window.ClickEnvelope
  | .json (.obj members) =>
    match lastMember? "clickId" members, lastMember? "adId" members,
        lastMember? "eventTime" members with
    | some (.str clickId), some (.str adId), some (.str eventTime) =>
      some ⟨clickId, adId, eventTime⟩
    | _, _, _ => none
  | _ => none

/-- The click of a message, as the aggregator reads it. -/
def Message.click (message : Message) : Window.ClickEnvelope :=
  ⟨message.value.clickId, message.value.adId, message.value.eventTime⟩

theorem readClick_valueOf (write : Members → List (String × Json)) (message : Message) :
    readClick (message.value.valueOf write) = some message.click := rfl

/-! ## Accepted clicks -/

/-- An accepted click is stamped with the time of the call, and key, header and answer repeat the
ids of the envelope. -/
theorem of_postClicks_eq_ok {transform : Members → Option Members} {call : Call} {body : Members}
    {message : Message} {ack : Ack} (h : postClicks transform call body = .ok (message, ack)) :
    message.key = message.value.adId ∧ message.clickIdHeader = message.value.clickId ∧
      message.value.eventTime = isoString call.now ∧ ack.clickId = message.value.clickId ∧
      ack.adId = message.value.adId ∧ ack.eventTime = message.value.eventTime := by
  obtain ⟨dto, -, hpublished⟩ := except_bind_eq_ok h
  cases hpublished
  exact ⟨rfl, rfl, rfl, rfl, rfl, rfl⟩

/-- The event time of an accepted click is in the minute of the call. -/
theorem windowOf_click {message : Message} {now : TimeValue}
    (h : message.value.eventTime = isoString now) (host : Host) :
    Window.windowOf host message.click = some now.window := by
  rw [Window.windowOf, Message.click, h, Host.newDate_isoString]
  rfl

/-- The snapshot has an entry for a bucket that has just been bumped. -/
theorem mem_snapshot_increment {adId : String} (hbar : '|' ∉ adId.toList)
    (buckets : Window.Buckets) (window : MinuteWindow) :
    let key := Window.windowKey adId window
    (⟨adId, isoString window.start, buckets.count key + 1⟩ : Window.Row) ∈
      Window.snapshot (buckets.increment key) := by
  intro key
  have hget : (buckets.increment key).get? key = some (buckets.count key + 1) := by
    rw [InsertionMap.get?_increment, if_pos rfl]
  have hentry := (InsertionMap.mem_entries_iff _ key _).2 hget
  have hrow := List.mem_map_of_mem (f := fun bucket : String × Nat =>
    (⟨Window.keyAdId bucket.1, Window.keyWindowStart bucket.1, bucket.2⟩ : Window.Row)) hentry
  rw [Window.keyAdId_windowKey hbar, Window.keyWindowStart_windowKey hbar] at hrow
  exact hrow

/-- Whatever the aggregator has recorded before, it records an accepted click in the bucket that the
answer tells: that of the acknowledged ad and of the acknowledged event time, truncated to the
minute. An ad id free of `|` is then found in the snapshot with this window. -/
theorem accepted_click_reaches_its_bucket (transform : Members → Option Members)
    (write : Members → List (String × Json)) (host : Host) (call : Call) (body : Members)
    (message : Message) (ack : Ack)
    (haccepted : postClicks transform call body = .ok (message, ack)) (buckets : Window.Buckets) :
    ∃ click windowStart, readClick (message.value.valueOf write) = some click ∧
      click.clickId = ack.clickId ∧ Window.toWindowStart host ack.eventTime = .ok windowStart ∧
      Window.record host click buckets =
        .ok () (buckets.increment (ack.adId ++ "|" ++ windowStart)) ∧
      ('|' ∉ ack.adId.toList →
        ⟨ack.adId, windowStart, buckets.count (ack.adId ++ "|" ++ windowStart) + 1⟩ ∈
          Window.snapshot (buckets.increment (ack.adId ++ "|" ++ windowStart))) := by
  obtain ⟨-, -, htime, hid, had, htime'⟩ := of_postClicks_eq_ok haccepted
  -- envelope and answer carry the same text, so both ends truncate the same time
  rw [htime] at htime'
  have hwindow := windowOf_click htime host
  refine ⟨message.click, isoString call.now.window.start, readClick_valueOf write message, ?_, ?_,
    ?_, ?_⟩
  · rw [hid, Message.click]
  · rw [htime', Window.toWindowStart, Host.isoMinute_eq, Host.newDate_isoString]
    rfl
  · rw [Window.record_eq, Window.keyOf, hwindow, had]
    rfl
  · rw [had]
    intro hbar
    exact mem_snapshot_increment hbar buckets call.now.window

def plainCall : Call := ⟨"ad-clicks", "minted", ⟨1781258752500, by decide, by decide⟩, .applied⟩

/-- A body with nothing but an ad. -/
def plainBody : Members := [("adId", .str "ad-1")]

theorem plainBody_reaches_its_bucket :
    ∃ message ack, postClicks some plainCall plainBody = .ok (message, ack) ∧
      ∃ click windowStart, readClick (message.value.valueOf fun _ => []) = some click ∧
        Window.record utcHost click .empty =
          .ok () (InsertionMap.increment .empty (ack.adId ++ "|" ++ windowStart)) := by
  refine ⟨_, _, rfl, ?_⟩
  obtain ⟨click, windowStart, hread, -, -, hrecord, -⟩ :=
    accepted_click_reaches_its_bucket some (fun _ => []) utcHost plainCall plainBody _ _ rfl .empty
  exact ⟨click, windowStart, hread, hrecord⟩

end AdClick.Ingest.Windowed
