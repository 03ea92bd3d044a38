import AdClick.Counter.ConsumeLoop

/-!
# The listeners of the Java and the TypeScript service

The Java listener reads the JSON value that a text starts with, and what follows it makes no
difference. It takes the text of two members of the root, whatever they are: the text of `null` is
`"null"`, and that of an object or an array is empty. It throws when a member is not there, and its
container goes on with the next record once it has given up on this one. So a malformed value is
recorded exactly when both members are there, and a log is counted as if it held no malformed values
exactly when none of them has both (`Java.listener_is_undisturbed_iff`).

The TypeScript handler passes the parsed value on, and is modelled where its two ids are texts.
-/

set_option autoImplicit false

namespace AdClick.Counter

open AdClick.Library

namespace Java

inductive Thrown where
  | noValue
  | jsonProcessingException
  | nullPointerException

/-- `node.get(name)`; `none` stands for `null`. -/
def get (name : String) : Json → Option Json
  | .obj members => lastMember? name members
  | _ => none

/-- `node.asText()`, with the text that a number is given. -/
def asText (numberText : Int → Int → String) : Json → String
  | .null => "null"
  | .bool b => if b then "true" else "false"
  | .num coefficient exponent => numberText coefficient exponent
  | .str s => s
  | .arr _ => ""
  | .obj _ => ""

/-- `env.get(name).asText()`. -/
def textOf (numberText : Int → Int → String) (name : String) (env : Json) :
    Except Thrown String :=
  match get name env with
  | none => .error .nullPointerException
  | some node => .ok (asText numberText node)

/-- The arguments of the call of `record`. -/
def readIds (numberText : Int → Int → String) (env : Json) : Except Thrown ClickEnvelope := do
  let clickId ← textOf numberText "clickId" env
  let adId ← textOf numberText "adId" env
  return ⟨clickId, adId⟩

variable {ν : Type} [One ν] [Add ν]

/-- `mapper.readTree(value)`: it stops behind the first JSON value of the text. -/
def readTree : RecordValue → Except Thrown Json
  | .absent => .error .noValue
  | .notJson => .error .jsonProcessingException
  | .followed env => .ok env
  | .json env => .ok env

/-- One call of the listener. -/
def handle (numberText : Int → Int → String) (value : RecordValue) :
    EStateM Thrown (CounterService ν) Unit :=
  match (readTree value).bind (readIds numberText) with
  | .error err => throw err
  | .ok envelope => modify fun s => (record envelope s).2

/-- The state in which the container goes on; it skips a record that the listener keeps throwing
on. -/
def consume (numberText : Int → Int → String) (s : CounterService ν) (value : RecordValue) :
    Option (CounterService ν) :=
  match handle numberText value s with
  | .ok _ t => some t
  | .error _ t => some t

/-- The text starts with an object that has both members, of whatever type. -/
def HasIds (value : RecordValue) : Bool :=
  match readTree value with
  | .ok (.obj members) =>
    (lastMember? "clickId" members).isSome && (lastMember? "adId" members).isSome
  | _ => false

/-- The first member that is missing makes the listener throw. -/
theorem readIds_of_missing (numberText : Int → Int → String) {members : List (String × Json)}
    (h : ((lastMember? "clickId" members).isSome && (lastMember? "adId" members).isSome) = false) :
    readIds numberText (.obj members) = .error .nullPointerException := by
  cases hclickId : lastMember? "clickId" members with
  | none =>
    rw [readIds, textOf, get, hclickId]
    rfl
  | some clickId =>
    cases hadId : lastMember? "adId" members with
    | none =>
      rw [readIds, textOf, textOf, get, get, hclickId, hadId]
      rfl
    | some adId =>
      rw [hclickId, hadId] at h
      cases h

theorem readIds_of_lastMember (numberText : Int → Int → String) {members : List (String × Json)}
    {clickId adId : Json} (hclickId : lastMember? "clickId" members = some clickId)
    (hadId : lastMember? "adId" members = some adId) :
    readIds numberText (.obj members) =
      .ok ⟨asText numberText clickId, asText numberText adId⟩ := by
  rw [readIds, textOf, textOf, get, get, hclickId, hadId]
  rfl

/-- A value without both members is skipped. -/
theorem consume_of_not_hasIds (numberText : Int → Int → String) (s : CounterService ν)
    {value : RecordValue} (h : HasIds value = false) : consume numberText s value = some s := by
  rw [HasIds] at h
  cases hread : readTree value with
  | error err =>
    rw [consume, handle, hread]
    rfl
  | ok env =>
    have hids : readIds numberText env = .error .nullPointerException := by
      rw [hread] at h
      cases env with
      | obj members => exact readIds_of_missing numberText h
      | null => rfl
      | bool b => rfl
      | num coefficient exponent => rfl
      | str text => rfl
      | arr elems => rfl
    rw [consume, handle, hread, Except.bind, hids]
    rfl

/-- A value with both members is recorded under their texts. -/
theorem consume_of_readTree [Zero ν] (numberText : Int → Int → String) (s : CounterService ν)
    {value : RecordValue} {members : List (String × Json)} {clickId adId : Json}
    (hread : readTree value = .ok (.obj members))
    (hclickId : lastMember? "clickId" members = some clickId)
    (hadId : lastMember? "adId" members = some adId) :
    consume numberText s value =
      some (step .java s ⟨asText numberText clickId, asText numberText adId⟩).1 := by
  have hids := readIds_of_lastMember numberText hclickId hadId
  rw [consume, handle, hread, Except.bind, hids]
  rfl

/-- The members of a value that has both. -/
theorem exists_members_of_hasIds {value : RecordValue} (h : HasIds value = true) :
    ∃ members clickId adId, readTree value = .ok (.obj members) ∧
      lastMember? "clickId" members = some clickId ∧ lastMember? "adId" members = some adId := by
  rw [HasIds] at h
  split at h
  · rename_i members hread
    obtain ⟨hclickId, hadId⟩ := Bool.and_eq_true_iff.1 h
    obtain ⟨clickId, hclick⟩ := Option.isSome_iff_exists.1 hclickId
    obtain ⟨adId, had⟩ := Option.isSome_iff_exists.1 hadId
    exact ⟨members, clickId, adId, hread, hclick, had⟩
  · cases h

theorem consume_some (numberText : Int → Int → String) (s : CounterService ν)
    (value : RecordValue) : ∃ t, consume numberText s value = some t := by
  rw [consume]
  cases handle numberText value s with
  | ok _ t => exact ⟨t, rfl⟩
  | error _ t => exact ⟨t, rfl⟩

theorem calls_of_consume {numberText : Int → Int → String} {s t : CounterService Nat}
    {value : RecordValue} (hids : HasIds value = true) (h : consume numberText s value = some t) :
    Go.calls t = Go.calls s + 1 := by
  obtain ⟨members, clickId, adId, hread, hclickId, hadId⟩ := exists_members_of_hasIds hids
  rw [consume_of_readTree numberText s hread hclickId hadId, step_eq] at h
  cases h
  split
  · rfl
  · rename_i hseen
    exact card_insert_add hseen s.duplicates

/-- A log is counted as if it held no malformed values exactly when none of them has both members.
A member of another type than a text is recorded under the text that it converts to, and a text with
something behind its object counts as that object. -/
theorem listener_is_undisturbed_iff (numberText : Int → Int → String) (log : List RecordValue) :
    Undisturbed (consume numberText) Eq (.empty : CounterService Nat) log ↔
      ∀ value ∈ log, value.wellFormed = false → HasIds value = false := by
  refine run_filter_iff Go.calls HasIds RecordValue.wellFormed ?_ ?_ ?_ ?_ ?_ .empty log
  · exact fun t => rfl
  · rintro t u rfl
    rfl
  · intro s value hids
    exact consume_of_not_hasIds numberText s hids
  · intro s value t hids hconsume
    exact calls_of_consume hids hconsume
  · intro s value _
    exact consume_some numberText s value

end Java

namespace TypeScript

variable {ν : Type} [Zero ν] [One ν] [Add ν]

/-- The ids of a parsed value, where both are texts. -/
def readIds : RecordValue → Option ClickEnvelope
  | .json (.obj members) =>
    match lastMember? "clickId" members, lastMember? "adId" members with
    | some (.str clickId), some (.str adId) => some ⟨clickId, adId⟩
    | _, _ => none
  | _ => none

/-- One call of the handler; `none` for a value that is outside of what is modelled. -/
def handle (s : CounterService ν) (data : RecordValue) : Option (CounterService ν) :=
  (readIds data).map fun envelope => (record envelope s).2

end TypeScript

end AdClick.Counter
