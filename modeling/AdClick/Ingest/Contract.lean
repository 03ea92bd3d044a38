import AdClick.Ingest.Acknowledgement

/-!
# One contract in four languages

The same request is put to the four services, with an append that takes effect (`serve`). What a
language's JSON library makes of a payload object on its way from the body to the record is a
parameter; it may also refuse the object.

A service takes a request, up to the append, when its library reads the payload and the ad id passes
its own test (`Takes`); it then appends one record with the click id it settles on (`serve_eq`). The
tests for what is missing differ: the Java service has none for the ad id, an empty ad id is missing
for the others, a blank one for the C# service only; an empty click id is replaced by all but the
TypeScript service, a blank one by the Java and the C# service, which do not agree on what is blank.
So the contract is one exactly for the requests that none takes, and for those that all take whose
click id is not blank in either sense and whose payload all re-encode alike (`sameContract_iff`).
-/

set_option autoImplicit false

namespace AdClick.Ingest

open AdClick.Ecma AdClick.Counter

/-- A body with texts for ids and an object for a payload, any of them possibly absent. -/
abbrev Request := PublishClickDto Members

/-- What becomes of a payload object from the body to the record; `none` when it is refused. -/
abbrev JsonStack := Language → Members → Option Members

/-- The request as a JSON object. -/
def Request.body (request : Request) : Members :=
  (request.clickId.map fun clickId => ("clickId", JsValue.str clickId)).toList ++
    (request.adId.map fun adId => ("adId", JsValue.str adId)).toList ++
      (request.payload.map fun payload => ("payload", JsValue.obj payload)).toList

/-- The handler of a language, for a request whose payload it has read. -/
def handle (call : Call) (request : Request) : Language → Handler Members Ack
  | .typescript => TypeScript.post some call request.body
  | .java => Java.publish call [] request
  | .csharp => CSharp.post call [] request
  | .go => Go.post call [] ⟨request.clickId.getD "", request.adId.getD "", request.payload⟩

/-- The payload of the request as a language reads it. -/
def readPayload (json : JsonStack) (request : Request) (language : Language) :
    Option (Option Members) :=
  match request.payload with
  | none => some none
  | some payload => (json language payload).map some

/-- `POST /clicks` of a language. -/
def serve (json : JsonStack) (call : Call) (request : Request) (language : Language) :
    Handler Members Ack :=
  match readPayload json request language with
  | none => throw .badRequest
  | some payload => handle call { request with payload := payload } language

/-- Two outcomes with the same decision, which leave the same log. -/
def SameOutcome : EStateM.Result HttpError (List (Record Members)) Ack →
    EStateM.Result HttpError (List (Record Members)) Ack → Prop
  | .ok _ log, .ok _ log' => log = log'
  | .error _ log, .error _ log' => log = log'
  | .ok _ _, .error _ _ => False
  | .error _ _, .ok _ _ => False

/-- Given the same fresh id and the same time, any two languages do the same with the request. As
the id is any text, this includes that they make the same decision between keeping and minting. -/
def SameContract (json : JsonStack) (request : Request) : Prop :=
  ∀ topic minted now language language',
    SameOutcome (serve json ⟨topic, minted, now, .applied⟩ request language [])
      (serve json ⟨topic, minted, now, .applied⟩ request language' [])

/-! ## What each language does -/

/-- The ad id passes the test of the language; the Java service has none. -/
def passesAdId : Language → Option String → Bool
  | .typescript, adId => adId.any fun adId => adId ≠ ""
  | .java, _ => true
  | .csharp, adId => adId.any fun adId => !CSharp.isBlank adId
  | .go, adId => adId.any fun adId => adId ≠ ""

/-- The language takes the request up to the append. -/
def Takes (json : JsonStack) (request : Request) (language : Language) : Prop :=
  readPayload json request language ≠ none ∧ passesAdId language request.adId = true

/-- The click id that the language settles on. -/
def idOf (clickId : Option String) (minted : String) : Language → String
  | .typescript => TypeScript.idOf clickId minted
  | .java => Java.idOf clickId minted
  | .csharp => CSharp.idOf clickId minted
  | .go => Go.idOf (clickId.getD "") minted

/-- Of a request with texts and an object, the validation tests the ad id. -/
theorem validate_body (request : Request) :
    TypeScript.validate some request.body =
      match request.adId with
      | none => .error .badRequest
      | some adId =>
        if adId = "" then .error .badRequest else .ok ⟨request.clickId, adId, request.payload⟩ := by
  obtain ⟨clickId, adId, payload⟩ := request
  cases adId with
  | none => cases clickId <;> cases payload <;> rfl
  | some adId =>
    have hread : TypeScript.validate some (Request.body ⟨clickId, some adId, payload⟩) =
        requiredString (.str adId) >>= fun adId => .ok ⟨clickId, adId, payload⟩ := by
      cases clickId <;> cases payload <;> rfl
    have hid : requiredString (.str adId) =
        if adId = "" then .error .badRequest else .ok adId := rfl
    rw [hread, hid]
    by_cases hempty : adId = ""
    · simp only [if_pos hempty]
      rfl
    · simp only [if_neg hempty]
      rfl

section Handle

variable (call : Call) (request : Request)

/-- An ad id that fails the test of the language is answered with an error, and the log is kept. -/
theorem handle_of_not_passes {language : Language} (h : passesAdId language request.adId = false) :
    handle call request language [] = .error .badRequest [] := by
  cases language with
  | typescript =>
    show TypeScript.post some call request.body [] = _
    rw [TypeScript.post, validate_body]
    cases hadId : request.adId with
    | none => rfl
    | some adId =>
      rw [hadId] at h
      have hempty : adId = "" := by simpa [passesAdId] using h
      rw [hempty]
      rfl
  | java => cases h
  | csharp =>
    show CSharp.post call [] request [] = _
    unfold CSharp.post
    cases hadId : request.adId with
    | none => rfl
    | some adId =>
      rw [hadId] at h
      have hblank : CSharp.isBlank adId = true := by simpa [passesAdId] using h
      show (if CSharp.isBlank adId then _ else _ : Handler Members Ack) [] = _
      rw [if_pos hblank]
      rfl
  | go =>
    show Go.post call [] ⟨_, request.adId.getD "", _⟩ [] = _
    have hempty : request.adId.getD "" = "" := by
      cases hadId : request.adId with
      | none => rfl
      | some adId =>
        rw [hadId] at h
        simpa [passesAdId] using h
    rw [hempty]
    rfl

/-- An ad id that passes is answered with a 202, and one record is appended. -/
theorem handle_of_passes (happlied : call.append = .applied) {language : Language}
    {adId : String} (hadId : request.adId = some adId)
    (h : passesAdId language request.adId = true) :
    let clickId := idOf request.clickId call.minted language
    handle call request language [] =
      .ok (call.ack adId clickId)
        [call.record (some adId) clickId (request.payload.getD [])] := by
  rw [hadId] at h
  cases language with
  | typescript =>
    have hne : adId ≠ "" := by simpa [passesAdId] using h
    show TypeScript.post some call request.body [] = _
    rw [TypeScript.post, validate_body, hadId]
    simp only [if_neg hne]
    rw [TypeScript.publish_eq, landed_of_applied happlied]
    rfl
  | java =>
    show Java.publish call [] request [] = _
    rw [Java.publish_eq, if_neg (by rw [happlied]; decide), landed_of_applied happlied, hadId]
    rfl
  | csharp =>
    have hblank : CSharp.isBlank adId = false := by simpa [passesAdId] using h
    show CSharp.post call [] request [] = _
    rw [CSharp.post, hadId]
    show (if CSharp.isBlank adId then _ else _ : Handler Members Ack) [] = _
    rw [if_neg (by rw [hblank]; decide), CSharp.publishAsync_eq, if_pos happlied,
      landed_of_applied happlied]
    rfl
  | go =>
    have hne : adId ≠ "" := by simpa [passesAdId] using h
    show Go.post call [] ⟨_, request.adId.getD "", _⟩ [] = _
    rw [Go.post, hadId]
    rw [if_neg (show ¬ (some adId).getD "" = "" from hne), Go.publish_eq,
      if_neg (by rw [happlied]; decide), landed_of_applied happlied]
    rfl

/-- Without an ad id the Java service appends a record, and then has nothing to answer with. -/
theorem handle_java_of_no_adId (happlied : call.append = .applied) (hadId : request.adId = none) :
    handle call request .java [] =
      .error .internalServerError
        [call.record none (Java.idOf request.clickId call.minted) (request.payload.getD [])] := by
  show Java.publish call [] request [] = _
  rw [Java.publish_eq, if_neg (by rw [happlied]; decide), landed_of_applied happlied, hadId]
  rfl

end Handle

section Serve

variable {json : JsonStack} {request : Request} {language : Language} (call : Call)

/-- A request that the language does not take is answered with an error, and the log is kept. -/
theorem serve_of_not_takes (h : ¬ Takes json request language) :
    serve json call request language [] = .error .badRequest [] := by
  unfold serve
  cases hread : readPayload json request language with
  | none => rfl
  | some payload =>
    have hfails : passesAdId language request.adId = false := by
      rw [← Bool.not_eq_true]
      intro hpasses
      exact h ⟨by rw [hread]; exact Option.some_ne_none _, hpasses⟩
    exact handle_of_not_passes call { request with payload := payload } hfails

/-- What a request that the language takes leaves in the log. -/
theorem serve_of_takes (happlied : call.append = .applied) (h : Takes json request language) :
    ∃ payload, readPayload json request language = some payload ∧
      let record := call.record request.adId (idOf request.clickId call.minted language)
        (payload.getD [])
      match request.adId with
      | none => serve json call request language [] = .error .internalServerError [record]
      | some adId =>
        serve json call request language [] =
          .ok (call.ack adId record.clickIdHeader) [record] := by
  obtain ⟨hread, hpasses⟩ := h
  obtain ⟨payload, hread⟩ := Option.ne_none_iff_exists'.mp hread
  refine ⟨payload, hread, ?_⟩
  obtain ⟨clickId, adId, given⟩ := request
  rw [serve, hread]
  cases adId with
  | none =>
    cases language with
    | java => exact handle_java_of_no_adId call ⟨clickId, none, payload⟩ happlied rfl
    | typescript => cases hpasses
    | csharp => cases hpasses
    | go => cases hpasses
  | some adId =>
    exact handle_of_passes call ⟨clickId, some adId, payload⟩ happlied rfl hpasses

end Serve

/-! ## Where the contract is one -/

/-- A click id, if there is one, is blank for neither service that replaces blank ones. -/
def KeepsClickId (request : Request) : Prop :=
  ∀ clickId, request.clickId = some clickId →
    Java.isBlank clickId = false ∧ CSharp.isBlank clickId = false

/-- A payload, if there is one, becomes the same object in all four languages. -/
def ReadsPayloadAlike (json : JsonStack) (request : Request) : Prop :=
  ∀ payload, request.payload = some payload →
    ∀ language language', json language payload = json language' payload

/-- The log that an outcome leaves. -/
def logOf : EStateM.Result HttpError (List (Record Members)) Ack → List (Record Members)
  | .ok _ log => log
  | .error _ log => log

theorem SameOutcome.log_eq : ∀ {out out'}, SameOutcome out out' → logOf out = logOf out'
  | .ok _ _, .ok _ _, h => h
  | .error _ _, .error _ _, h => h

variable {json : JsonStack} {request : Request} {language language' : Language}

/-- A click id that is not blank in either sense is kept by every language. -/
theorem idOf_eq_getD (hkeeps : KeepsClickId request) (minted : String) (language : Language) :
    idOf request.clickId minted language = request.clickId.getD minted := by
  cases hclick : request.clickId with
  | none => cases language <;> rfl
  | some clickId =>
    obtain ⟨hjava, hcsharp⟩ := hkeeps clickId hclick
    cases language with
    | typescript => rfl
    | java =>
      show (if Java.isBlank clickId then minted else clickId) = clickId
      rw [if_neg (by rw [hjava]; decide)]
    | csharp =>
      show (if CSharp.isBlank clickId then minted else clickId) = clickId
      rw [if_neg (by rw [hcsharp]; decide)]
    | go =>
      have hne : clickId ≠ "" := by
        rintro rfl
        cases hjava
      show (if clickId = "" then minted else clickId) = clickId
      rw [if_neg hne]

/-- Of two languages that settle on the same id when it is minted as `"x"`, a click id that one
keeps is kept by the other. -/
theorem isBlank_eq_false_of_idOf_eq {isBlank : String → Bool} {clickId : String}
    (hx : isBlank "x" = false) (hid : idUnlessBlank isBlank (some clickId) "x" = clickId) :
    isBlank clickId = false := by
  rw [← Bool.not_eq_true]
  intro hblank
  have hminted : idUnlessBlank isBlank (some clickId) "x" = "x" := if_pos hblank
  rw [hminted] at hid
  rw [← hid, hx] at hblank
  cases hblank

theorem readPayload_eq_of_alike (halike : ReadsPayloadAlike json request)
    (language language' : Language) :
    readPayload json request language = readPayload json request language' := by
  unfold readPayload
  cases hpayload : request.payload with
  | none => rfl
  | some payload => exact congrArg (Option.map some) (halike payload hpayload language language')

/-- A request that the C# service takes has an ad id. -/
theorem adId_of_takes (h : Takes json request .csharp) : ∃ adId, request.adId = some adId := by
  obtain ⟨-, hpasses⟩ := h
  cases hadId : request.adId with
  | none =>
    rw [hadId] at hpasses
    cases hpasses
  | some adId => exact ⟨adId, rfl⟩

/-- What a request that the language takes leaves in the log, whatever the answer. -/
theorem logOf_serve_of_takes (call : Call) (happlied : call.append = .applied)
    (h : Takes json request language) :
    ∃ payload, readPayload json request language = some payload ∧
      logOf (serve json call request language []) =
        [call.record request.adId (idOf request.clickId call.minted language)
          (payload.getD [])] := by
  obtain ⟨payload, hread, hserve⟩ := serve_of_takes call happlied h
  refine ⟨payload, hread, ?_⟩
  cases hadId : request.adId with
  | none =>
    rw [hadId] at hserve
    rw [hserve]
    rfl
  | some adId =>
    rw [hadId] at hserve
    rw [hserve]
    rfl

/-- Under one contract, a request that one language takes is taken by every language. -/
theorem takes_of_sameContract (hsame : SameContract json request)
    (h : Takes json request language) : Takes json request language' := by
  by_contra hnot
  have hlog := (hsame "" "" "" language language').log_eq
  obtain ⟨payload, -, htaken⟩ := logOf_serve_of_takes ⟨"", "", "", .applied⟩ rfl h
  rw [htaken, serve_of_not_takes _ hnot] at hlog
  cases hlog

/-- Under one contract, two languages that take a request settle on the same id and payload. -/
theorem record_eq_of_sameContract (hsame : SameContract json request)
    (h : Takes json request language) (h' : Takes json request language') :
    idOf request.clickId "x" language = idOf request.clickId "x" language' ∧
      ∀ payload, request.payload = some payload →
        json language payload = json language' payload := by
  have hlog := (hsame "" "x" "" language language').log_eq
  obtain ⟨given, hread, hserve⟩ := logOf_serve_of_takes ⟨"", "x", "", .applied⟩ rfl h
  obtain ⟨given', hread', hserve'⟩ := logOf_serve_of_takes ⟨"", "x", "", .applied⟩ rfl h'
  rw [hserve, hserve'] at hlog
  have hrecord := List.head_eq_of_cons_eq hlog
  refine ⟨congrArg Record.clickIdHeader hrecord, ?_⟩
  intro payload hpayload
  have hgiven : given.getD [] = given'.getD [] :=
    congrArg (fun record => record.value.payload) hrecord
  unfold readPayload at hread hread'
  rw [hpayload] at hread hread'
  obtain ⟨members, hjson, rfl⟩ := Option.map_eq_some_iff.mp hread
  obtain ⟨members', hjson', rfl⟩ := Option.map_eq_some_iff.mp hread'
  rw [hjson, hjson']
  exact congrArg some hgiven

/-- The four services meet one contract on a request exactly when none takes it, or all take it,
keep its click id and read its payload alike. -/
theorem sameContract_iff (json : JsonStack) (request : Request) :
    SameContract json request ↔
      (∀ language, ¬ Takes json request language) ∨
        ((∀ language, Takes json request language) ∧ KeepsClickId request ∧
          ReadsPayloadAlike json request) := by
  constructor
  · intro hsame
    by_cases htaken : ∃ language, Takes json request language
    · obtain ⟨language, htakes⟩ := htaken
      have hall : ∀ language', Takes json request language' :=
        fun language' => takes_of_sameContract hsame htakes
      refine Or.inr ⟨hall, ?_, ?_⟩
      · -- the TypeScript service keeps any text, so the others keep this one
        intro clickId hclick
        have hjava := (record_eq_of_sameContract hsame (hall .java) (hall .typescript)).1
        have hcsharp := (record_eq_of_sameContract hsame (hall .csharp) (hall .typescript)).1
        rw [hclick] at hjava hcsharp
        exact ⟨isBlank_eq_false_of_idOf_eq (by decide) hjava,
          isBlank_eq_false_of_idOf_eq (by decide) hcsharp⟩
      · intro payload hpayload language language'
        exact (record_eq_of_sameContract hsame (hall language) (hall language')).2 payload hpayload
    · exact Or.inl (not_exists.mp htaken)
  · rintro (hnone | ⟨hall, hkeeps, halike⟩) topic minted now language language'
    · rw [serve_of_not_takes _ (hnone language), serve_of_not_takes _ (hnone language')]
      rfl
    · obtain ⟨adId, hadId⟩ := adId_of_takes (hall .csharp)
      obtain ⟨payload, hread, hserve⟩ :=
        serve_of_takes ⟨topic, minted, now, .applied⟩ rfl (hall language)
      obtain ⟨payload', hread', hserve'⟩ :=
        serve_of_takes ⟨topic, minted, now, .applied⟩ rfl (hall language')
      have hpayload : payload = payload' := by
        rw [readPayload_eq_of_alike halike language language', hread'] at hread
        exact (Option.some.inj hread).symm
      rw [hadId] at hserve hserve'
      rw [hserve, hserve', hpayload, idOf_eq_getD hkeeps minted language,
        idOf_eq_getD hkeeps minted language']
      rfl

/-- An empty click id: the TypeScript service appends it, the others mint one. -/
theorem empty_clickId_is_kept_once :
    ¬ SameContract (fun _ payload => some payload) ⟨some "", some "ad-1", none⟩ := by
  intro hsame
  have hlog := (hsame "ad-clicks" "x" "" .typescript .go).log_eq
  exact absurd (congrArg (List.map Record.clickIdHeader) hlog) (by decide)

end AdClick.Ingest
