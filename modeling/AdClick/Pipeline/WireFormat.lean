import AdClick.Counter.Listeners
import AdClick.Ingest.Appended

/-!
# The envelope between producer and consumer

A producer writes its envelope as a JSON object, and the consumer of the same language reads two
members of it. Whatever a producer appends, its consumer records the click id that the header
carries under the ad id that the key carries, and goes on (`turn_of_appended`): the header and the
key, which the consumers do not look at, tell what is in the value. A record without a key, which
only the Java service appends, is recorded under the ad `"null"`. That is so in every state of the
consumer and for counters of any width.

How a JSON library writes a payload is a parameter.
-/

set_option autoImplicit false

namespace AdClick.Pipeline

open AdClick.Counter AdClick.Ecma AdClick.Ingest AdClick.Library

/-- How the JSON library of a language writes a payload. The Go service has read it into doubles,
and writes no number that is none. -/
structure PayloadWriter where
  write : Language → Members → List (String × Json)
  go_fits : ∀ payload, Go.membersFit (write .go payload) = true

/-- The ad id as a member of the envelope. -/
def adIdMember : Option String → Json
  | none => .null
  | some adId => .str adId

/-- The members of the envelope, in the order in which every producer writes them. -/
def PayloadWriter.members (writer : PayloadWriter) (language : Language)
    (envelope : Ingest.ClickEnvelope Members) : List (String × Json) :=
  [("clickId", .str envelope.clickId),
    ("adId", adIdMember envelope.adId),
    ("payload", .obj (writer.write language envelope.payload)),
    ("timestamp", .str envelope.timestamp)]

/-- The value of the record on the wire. -/
def PayloadWriter.valueOf (writer : PayloadWriter) (language : Language)
    (envelope : Ingest.ClickEnvelope Members) : RecordValue :=
  .json (.obj (writer.members language envelope))

/-- What the consumer of a language keeps, how a state of `record` looks there, what a call of
`record` does to it, the counts in it, and a turn of its loop; `none` when the loop does not go
on. -/
structure ConsumeLoop (ν : Type) where
  State : Type
  ofCounter : CounterService ν → State
  record : State → Counter.ClickEnvelope → State
  counts : State → InsertionMap String ν
  turn : State → RecordValue → Option State

section Loop

variable (ν : Type) [Zero ν] [One ν] [Add ν]

/-- The consumer of a language over a type of counters, with the text that Java gives a number. -/
def consumeLoop (numberText : Int → Int → String) : Language → ConsumeLoop ν
  | .typescript =>
    { State := CounterService ν
      ofCounter := id
      record := fun s click => (step .typescript s click).1
      counts := CounterService.counts
      turn := TypeScript.handle }
  | .java =>
    { State := CounterService ν
      ofCounter := id
      record := fun s click => (step .java s click).1
      counts := CounterService.counts
      turn := Java.consume numberText }
  | .csharp =>
    { State := CSharp.NullableCounter ν
      ofCounter := CSharp.NullableCounter.ofCounter
      record := CSharp.NullableCounter.record
      counts := CSharp.NullableCounter.counts
      turn := CSharp.consume }
  | .go =>
    { State := CounterService ν
      ofCounter := id
      record := fun s click => (step .go s click).1
      counts := CounterService.counts
      turn := Go.consume }

variable (numberText : Int → Int → String) (language : Language)

/-- A call of `record` on a state without a null id is the one that all languages share. -/
theorem record_ofCounter (s : CounterService ν) (click : Counter.ClickEnvelope) :
    (consumeLoop ν numberText language).record ((consumeLoop ν numberText language).ofCounter s)
        click =
      (consumeLoop ν numberText language).ofCounter (step language s click).1 := by
  cases language with
  | typescript => rfl
  | java => rfl
  | csharp => exact CSharp.NullableCounter.record_ofCounter s click
  | go => rfl

theorem counts_ofCounter (s : CounterService ν) :
    (consumeLoop ν numberText language).counts ((consumeLoop ν numberText language).ofCounter s) =
      s.counts := by
  cases language with
  | typescript => rfl
  | java => rfl
  | csharp => rfl
  | go => rfl

end Loop

/-- The click of a record, from its header and its key. -/
def clickOf (record : Record Members) : Counter.ClickEnvelope :=
  ⟨record.clickIdHeader, record.key.getD "null"⟩

/-! ## What each consumer reads -/

section Read

variable {ν : Type} [Zero ν] [One ν] [Add ν] (writer : PayloadWriter)
  (envelope : Ingest.ClickEnvelope Members) {adId : String}

theorem lastMember?_clickId (language : Language) :
    lastMember? "clickId" (writer.members language envelope) = some (.str envelope.clickId) := rfl

theorem lastMember?_adId (language : Language) :
    lastMember? "adId" (writer.members language envelope) = some (adIdMember envelope.adId) := rfl

theorem typescript_turn (s : CounterService ν) (hadId : envelope.adId = some adId) :
    TypeScript.handle s (writer.valueOf .typescript envelope) =
      some (step .typescript s ⟨envelope.clickId, adId⟩).1 := by
  have hread : TypeScript.readIds (writer.valueOf .typescript envelope) =
      some ⟨envelope.clickId, adId⟩ := by
    rw [PayloadWriter.valueOf, TypeScript.readIds, lastMember?_clickId, lastMember?_adId, hadId]
    rfl
  rw [TypeScript.handle, hread]
  rfl

theorem java_turn (s : CounterService ν) (numberText : Int → Int → String) :
    Java.consume numberText s (writer.valueOf .java envelope) =
      some (step .java s ⟨envelope.clickId, envelope.adId.getD "null"⟩).1 := by
  have htext : Java.asText numberText (adIdMember envelope.adId) = envelope.adId.getD "null" := by
    cases envelope.adId <;> rfl
  rw [← htext]
  exact Java.consume_of_readTree numberText s rfl (lastMember?_clickId writer envelope .java)
    (lastMember?_adId writer envelope .java)

theorem csharp_turn (s : CSharp.NullableCounter ν) (hadId : envelope.adId = some adId) :
    CSharp.consume s (writer.valueOf .csharp envelope) =
      some (s.record ⟨envelope.clickId, adId⟩) := by
  have hread : CSharp.readIds (.obj (writer.members .csharp envelope)) =
      .ok (some envelope.clickId, some adId) := by
    rw [CSharp.readIds, CSharp.getProperty, CSharp.getProperty, lastMember?_clickId,
      lastMember?_adId, hadId]
    rfl
  exact CSharp.consume_of_texts hread s

theorem go_turn (s : CounterService ν) (hadId : envelope.adId = some adId) :
    Go.consume s (writer.valueOf .go envelope) =
      some (step .go s ⟨envelope.clickId, adId⟩).1 := by
  -- the two ids are stored in turn, and the other members are for fields that are not kept
  have hclick : Go.storeMember ⟨"", ""⟩ ("clickId", .str envelope.clickId) =
      some ⟨envelope.clickId, ""⟩ := by
    have hfield : Go.fieldOf "clickId" = some .clickId := by decide
    rw [Go.storeMember, hfield]
    rfl
  have had : Go.storeMember ⟨envelope.clickId, ""⟩ ("adId", .str adId) =
      some ⟨envelope.clickId, adId⟩ := by
    have hfield : Go.fieldOf "adId" = some .adId := by decide
    rw [Go.storeMember, hfield]
    rfl
  have hpayload : Go.storeMember ⟨envelope.clickId, adId⟩
      ("payload", .obj (writer.write .go envelope.payload)) =
        some ⟨envelope.clickId, adId⟩ := by
    have hfield : Go.fieldOf "payload" = some .payload := by decide
    have hfits : Go.fitsField .payload (.obj (writer.write .go envelope.payload)) = true :=
      writer.go_fits envelope.payload
    rw [Go.storeMember, hfield]
    exact if_pos hfits
  have htimestamp : Go.storeMember ⟨envelope.clickId, adId⟩
      ("timestamp", .str envelope.timestamp) = some ⟨envelope.clickId, adId⟩ := by
    have hfield : Go.fieldOf "timestamp" = some .timestamp := by decide
    rw [Go.storeMember, hfield]
    rfl
  have hread : Go.unmarshal (writer.valueOf .go envelope) = some ⟨envelope.clickId, adId⟩ := by
    rw [PayloadWriter.valueOf, PayloadWriter.members, hadId, adIdMember, Go.unmarshal,
      List.foldlM_cons, hclick,
      Option.bind_eq_bind, Option.bind_some, List.foldlM_cons, had, Option.bind_eq_bind,
      Option.bind_some, List.foldlM_cons, hpayload, Option.bind_eq_bind, Option.bind_some,
      List.foldlM_cons, htimestamp]
    rfl
  rw [Go.consume, hread]
  rfl

end Read

/-! ## Round trip -/

section RoundTrip

variable (ν : Type) [Zero ν] [One ν] [Add ν]

/-- A record whose header and key tell the ids in its value is recorded as their click. -/
theorem turn_of_record (writer : PayloadWriter) (numberText : Int → Int → String)
    (language : Language) {record : Record Members}
    (hheader : record.clickIdHeader = record.value.clickId)
    (hkey : record.key = record.value.adId) (hjava : record.key = none → language = .java)
    (s : (consumeLoop ν numberText language).State) :
    (consumeLoop ν numberText language).turn s (writer.valueOf language record.value) =
      some ((consumeLoop ν numberText language).record s (clickOf record)) := by
  rw [clickOf, hheader, hkey]
  rw [hkey] at hjava
  cases hadId : record.value.adId with
  | none =>
    cases hjava hadId
    have hturn := java_turn writer record.value (s : CounterService ν) numberText
    rw [hadId] at hturn
    exact hturn
  | some adId =>
    cases language with
    | typescript => exact typescript_turn writer record.value s hadId
    | java =>
      have hturn := java_turn writer record.value (s : CounterService ν) numberText
      rw [hadId] at hturn
      exact hturn
    | csharp => exact csharp_turn writer record.value s hadId
    | go => exact go_turn writer record.value s hadId

/-- What a producer appends, the consumer of its language records as the click that header and key
tell, whatever state it is in; and a state that `record` can be in is left as `record` leaves it. -/
theorem turn_of_appended (json : JsonStack) (writer : PayloadWriter)
    (numberText : Int → Int → String) (call : Call) (request : Request) (language : Language)
    {record : Record Members} (hrecord : record ∈ appended json call request language) :
    let loop := consumeLoop ν numberText language
    let value := writer.valueOf language record.value
    (∀ s : loop.State, loop.turn s value = some (loop.record s (clickOf record))) ∧
      ∀ s : CounterService ν, loop.turn (loop.ofCounter s) value =
        some (loop.ofCounter (step language s (clickOf record)).1) := by
  intro loop value
  obtain ⟨hheader, hkey, hjava⟩ := of_mem_appended hrecord
  have hturn := turn_of_record ν writer numberText language hheader hkey hjava
  refine ⟨hturn, ?_⟩
  intro s
  rw [← record_ofCounter]
  exact hturn (loop.ofCounter s)

end RoundTrip

/-- The Java service answers a request without an ad id with an error, but its record is counted. -/
theorem turn_of_keylessRecord :
    (consumeLoop Int32 (fun coefficient _ => toString coefficient) .java).turn
        (CounterService.empty : CounterService Int32)
        (PayloadWriter.valueOf ⟨fun _ _ => [], fun _ => rfl⟩ .java
          ⟨"c-1", none, [], "2026-06-12T10:05:34.123Z"⟩) =
      some (Counter.step .java .empty ⟨"c-1", "null"⟩).1 :=
  (turn_of_appended Int32 (fun _ payload => some payload) ⟨fun _ _ => [], fun _ => rfl⟩
    (fun coefficient _ => toString coefficient)
    ⟨"ad-clicks", "minted", "2026-06-12T10:05:34.123Z", .applied⟩ ⟨some "c-1", none, none⟩ .java
    (List.mem_singleton_self _)).2 .empty

end AdClick.Pipeline
