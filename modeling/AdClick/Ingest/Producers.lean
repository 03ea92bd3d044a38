import AdClick.Counter.Service
import AdClick.Ingest.Validation

/-!
# The four producers

`POST /clicks` of the event-ingestion lesson in its four implementations. Each decides whether the
request is well formed, keeps the caller's click id or mints one, hands one record to its Kafka
client and answers. They differ in what counts as missing, and in what they wait for: the TypeScript
service only starts the send, the Java service learns of a send that fails at once but does not wait
for the result, the C# service waits for the delivery report, and the Go service waits for a writer
that asks the brokers for no acknowledgement.

The state of a call is the log it appends to. An error answer keeps what has been appended.
-/

set_option autoImplicit false

namespace AdClick.Ingest

open AdClick.Ecma AdClick.Counter

/-- What becomes of the append that is requested from the Kafka client: it takes effect; or it
fails, and the client knows before its call returns; or it fails when the call has returned. -/
inductive Append where
  | applied
  | failedAtCall
  | failedLater
  deriving DecidableEq

/-- What a call takes from its environment. -/
structure Call where
  topic : String
  minted : String
  now : String
  append : Append

/-- The value of a record. -/
structure ClickEnvelope (π : Type) where
  clickId : String
  adId : Option String
  payload : π
  timestamp : String

structure Record (π : Type) where
  key : Option String
  clickIdHeader : String
  value : ClickEnvelope π

/-- The body of a 202 answer. -/
structure Ack where
  status : String
  topic : String
  clickId : String
  adId : String

/-- A request handler over the log. -/
abbrev Handler (π : Type) := EStateM HttpError (List (Record π))

variable {π : Type}

/-- Requests an append from a Kafka client, and throws when a failure is reported to the caller. -/
def requestAppend (reported : Append → Bool) (append : Append) (record : Record π) :
    Handler π Unit := do
  if append = .applied then
    modify fun log => log ++ [record]
  if reported append then
    throw .internalServerError

namespace TypeScript

/-- A body that has passed the validation. -/
structure PublishClickDto where
  clickId : Option String
  adId : String
  payload : Option Members

def validate (transform : Members → Option Members) (body : Members) :
    Except HttpError PublishClickDto := do
  let value := JsValue.obj body
  -- the payload comes first, as the transformation throws before anything is checked
  let payload ← optionalObject transform (value.optionalGet "payload")
  whitelisted ["clickId", "adId", "payload"] body
  let clickId ← optionalString (value.optionalGet "clickId")
  let adId ← requiredString (value.optionalGet "adId")
  return { clickId, adId, payload }

/-- `clickId ?? randomUUID()`. -/
def idOf (clickId : Option String) (minted : String) : String := clickId.getD minted

/-- A call only starts the send. -/
def emit (append : Append) (record : Record Members) : Handler Members Unit :=
  requestAppend (fun _ => false) append record

def publish (call : Call) (dto : PublishClickDto) : Handler Members Ack := do
  let clickId := idOf dto.clickId call.minted
  let envelope : ClickEnvelope Members := {
    clickId := clickId
    adId := some dto.adId
    payload := dto.payload.getD []
    timestamp := call.now }
  emit call.append ⟨some dto.adId, clickId, envelope⟩
  return ⟨"accepted", call.topic, clickId, dto.adId⟩

def post (transform : Members → Option Members) (call : Call) (body : Members) :
    Handler Members Ack :=
  match validate transform body with
  | .error err => throw err
  | .ok dto => publish call dto

end TypeScript

/-! ## Blank texts -/

/-- The Unicode category `Zs`. -/
def isSpaceSeparator (c : Char) : Bool :=
  c.toNat ∈ [0x20, 0xA0, 0x1680, 0x2000, 0x2001, 0x2002, 0x2003, 0x2004, 0x2005, 0x2006, 0x2007,
    0x2008, 0x2009, 0x200A, 0x202F, 0x205F, 0x3000]

/-- The categories `Zl` and `Zp` and the controls from tab to carriage return. -/
def isLineBreak (c : Char) : Bool :=
  c.toNat ∈ [0x2028, 0x2029, 0x09, 0x0A, 0x0B, 0x0C, 0x0D]

/-- Keeps a click id that is there and not blank. -/
def idUnlessBlank (isBlank : String → Bool) (clickId : Option String) (minted : String) : String :=
  match clickId with
  | none => minted
  | some clickId => if isBlank clickId then minted else clickId

/-- A body as a typed object; what is `null` or absent is `none`. -/
structure PublishClickDto (π : Type) where
  clickId : Option String
  adId : Option String
  payload : Option π

namespace Java

/-- `Character.isWhitespace`: no space that is non-breaking, and the separators of ASCII. -/
def isWhitespace (c : Char) : Bool :=
  (isSpaceSeparator c && !(c.toNat ∈ [0xA0, 0x2007, 0x202F])) || isLineBreak c ||
    c.toNat ∈ [0x1C, 0x1D, 0x1E, 0x1F]

def isBlank (s : String) : Bool := s.toList.all isWhitespace

def idOf (clickId : Option String) (minted : String) : String :=
  idUnlessBlank isBlank clickId minted

/-- Throws on a failure that is known at once, and does not wait for the result. -/
def send (append : Append) (record : Record π) : Handler π Unit :=
  requestAppend (fun append => append = .failedAtCall) append record

/-- `Map.of` takes no `null`. -/
def publish (call : Call) (emptyMap : π) (dto : PublishClickDto π) : Handler π Ack := do
  let clickId := idOf dto.clickId call.minted
  let envelope : ClickEnvelope π := {
    clickId := clickId
    adId := dto.adId
    payload := dto.payload.getD emptyMap
    timestamp := call.now }
  send call.append ⟨dto.adId, clickId, envelope⟩
  match dto.adId with
  | none => throw .internalServerError
  | some adId => return ⟨"accepted", call.topic, clickId, adId⟩

end Java

namespace CSharp

/-- `char.IsWhiteSpace`. -/
def isWhiteSpace (c : Char) : Bool := isSpaceSeparator c || isLineBreak c || c.toNat = 0x85

def isBlank (s : String) : Bool := s.toList.all isWhiteSpace

def idOf (clickId : Option String) (minted : String) : String :=
  idUnlessBlank isBlank clickId minted

/-- Waits for the delivery report, and throws when the append failed. -/
def produceAsync (append : Append) (record : Record π) : Handler π Unit :=
  requestAppend (fun append => append ≠ .applied) append record

def publishAsync (call : Call) (emptyMap : π) (dto : PublishClickDto π) (adId : String) :
    Handler π Ack := do
  let clickId := idOf dto.clickId call.minted
  let envelope : ClickEnvelope π := {
    clickId := clickId
    adId := some adId
    payload := dto.payload.getD emptyMap
    timestamp := call.now }
  produceAsync call.append ⟨some adId, clickId, envelope⟩
  return ⟨"accepted", call.topic, clickId, adId⟩

/-- The handler rejects an ad id that `IsNullOrWhiteSpace`. -/
def post (call : Call) (emptyMap : π) (dto : PublishClickDto π) : Handler π Ack :=
  match dto.adId with
  | none => throw .badRequest
  | some adId => if isBlank adId then throw .badRequest else publishAsync call emptyMap dto adId

end CSharp

namespace Go

/-- A decoded body: an absent text is the empty text. -/
structure PublishClickDto (π : Type) where
  clickId : String
  adId : String
  payload : Option π

/-- Mints when the click id is empty. -/
def idOf (clickId minted : String) : String := if clickId = "" then minted else clickId

/-- The writer is built without `RequiredAcks`, and then requires none: it reports that a request
could not be written, but not that a broker refused it. -/
def writeMessages (append : Append) (record : Record π) : Handler π Unit :=
  requestAppend (fun append => append = .failedAtCall) append record

def publish (call : Call) (emptyMap : π) (dto : PublishClickDto π) : Handler π Ack := do
  let clickId := idOf dto.clickId call.minted
  let envelope : ClickEnvelope π := {
    clickId := clickId
    adId := some dto.adId
    payload := dto.payload.getD emptyMap
    timestamp := call.now }
  writeMessages call.append ⟨some dto.adId, clickId, envelope⟩
  return ⟨"accepted", call.topic, clickId, dto.adId⟩

/-- The handler rejects an empty ad id. -/
def post (call : Call) (emptyMap : π) (dto : PublishClickDto π) : Handler π Ack :=
  if dto.adId = "" then throw .badRequest else publish call emptyMap dto

end Go

end AdClick.Ingest
