import AdClick.Counter.Service

/-!
# Record values and how they are decoded

The value of a record can be missing, be no JSON text, or be any JSON value. A text that is none may
still start with a JSON value, and a parser that stops behind it does not see the rest.

The C# consumer looks up two properties of the root and reads each as a text or `null`, and throws
where that does not work (`readIds`). The Go consumer unmarshals into a struct: it takes the name of
a member in any case, leaves a field as it is for `null` or when no member has its name, and rejects
a member of another type (`unmarshal`). Both reject a text that goes on behind its value.
-/

set_option autoImplicit false

namespace AdClick.Counter

/-- A JSON value as it is written: an object may repeat a name, and a number is
`coefficient * 10 ^ exponent`. -/
inductive Json where
  | null
  | bool (b : Bool)
  | num (coefficient exponent : Int)
  | str (s : String)
  | arr (elems : List Json)
  | obj (members : List (String × Json))

/-- The value of a record of the topic. -/
inductive RecordValue where
  | absent
  /-- A text that does not start with a JSON value. -/
  | notJson
  /-- A text that starts with a JSON value and goes on behind it with more than blanks. -/
  | followed (root : Json)
  | json (root : Json)

/-- The last member of a name. -/
def lastMember? (name : String) (members : List (String × Json)) : Option Json :=
  members.reverse.lookup name

def Json.isStr : Json → Bool
  | .str _ => true
  | _ => false

/-- A JSON object with texts for `clickId` and `adId`. -/
def RecordValue.wellFormed : RecordValue → Bool
  | .json (.obj members) =>
    (lastMember? "clickId" members).any Json.isStr && (lastMember? "adId" members).any Json.isStr
  | _ => false

def RecordValue.isPresent : RecordValue → Bool
  | .absent => false
  | _ => true

theorem isPresent_eq_false_iff (value : RecordValue) :
    value.isPresent = false ↔ value = .absent := by
  cases value <;> simp [RecordValue.isPresent]

namespace CSharp

inductive Thrown where
  | jsonException
  | invalidOperationException
  | keyNotFoundException
  | argumentNullException

/-- `element.GetProperty(name)`. -/
def getProperty (name : String) : Json → Except Thrown Json
  | .obj members =>
    match lastMember? name members with
    | none => .error .keyNotFoundException
    | some value => .ok value
  | _ => .error .invalidOperationException

/-- `element.GetString()`. -/
def getString : Json → Except Thrown (Option String)
  | .str s => .ok (some s)
  | .null => .ok none
  | _ => .error .invalidOperationException

/-- The arguments of the call of `Record`. -/
def readIds (root : Json) : Except Thrown (Option String × Option String) := do
  let clickId ← getString (← getProperty "clickId" root)
  let adId ← getString (← getProperty "adId" root)
  return (clickId, adId)

/-- A text under a name is what the two look-ups return. -/
theorem getProperty_of_isStr {name : String} {members : List (String × Json)}
    (h : (lastMember? name members).any Json.isStr = true) :
    ∃ text, getProperty name (.obj members) = .ok (.str text) := by
  obtain ⟨value, hlast, hstr⟩ := (Option.any_eq_true Json.isStr _).1 h
  cases value with
  | str text =>
    refine ⟨text, ?_⟩
    unfold getProperty
    simp only [hlast]
  | null => cases hstr
  | bool b => cases hstr
  | num coefficient exponent => cases hstr
  | arr elems => cases hstr
  | obj members => cases hstr

/-- The ids of a well-formed value are there. -/
theorem readIds_of_wellFormed {value : RecordValue} (h : value.wellFormed = true) :
    ∃ root clickId adId, value = .json root ∧ readIds root = .ok (some clickId, some adId) := by
  cases value with
  | absent => cases h
  | notJson => cases h
  | followed root => cases h
  | json root =>
    cases root with
    | obj members =>
      obtain ⟨hclickId, hadId⟩ := Bool.and_eq_true_iff.1 h
      obtain ⟨clickId, hclick⟩ := getProperty_of_isStr hclickId
      obtain ⟨adId, had⟩ := getProperty_of_isStr hadId
      refine ⟨.obj members, clickId, adId, rfl, ?_⟩
      rw [readIds, hclick, had]
      rfl
    | null => cases h
    | bool b => cases h
    | num coefficient exponent => cases h
    | str s => cases h
    | arr elems => cases h

end CSharp

namespace Go

/-- Folds the case of ASCII letters, and the two other letters that fold to one. -/
def foldRune (c : Char) : Char :=
  if c.toNat = 0x212A then 'K' else if c.toNat = 0x17F then 'S' else c.toUpper

def foldName (name : String) : List Char := name.toList.map foldRune

/-- The fields of the envelope. -/
inductive Field where
  | clickId
  | adId
  | payload
  | timestamp
  deriving DecidableEq

/-- The field that a member is for. -/
def fieldOf (name : String) : Option Field :=
  if foldName name = foldName "clickId" then some .clickId
  else if foldName name = foldName "adId" then some .adId
  else if foldName name = foldName "payload" then some .payload
  else if foldName name = foldName "timestamp" then some .timestamp
  else none

/-- The number rounds to a finite double. -/
def fitsFloat64 (coefficient exponent : Int) : Bool :=
  coefficient.natAbs * 10 ^ exponent.toNat < (2 ^ 1024 - 2 ^ 970) * 10 ^ (-exponent).toNat

mutual

/-- The value can be stored in an `interface{}`: all its numbers are doubles. -/
def numbersFit : Json → Bool
  | .num coefficient exponent => fitsFloat64 coefficient exponent
  | .arr elems => elemsFit elems
  | .obj members => membersFit members
  | .null => true
  | .bool _ => true
  | .str _ => true

def elemsFit : List Json → Bool
  | [] => true
  | elem :: elems => numbersFit elem && elemsFit elems

def membersFit : List (String × Json) → Bool
  | [] => true
  | (_, value) :: members => numbersFit value && membersFit members

end

/-- The value can be stored in a field. -/
def fitsField : Field → Json → Bool
  | .payload, value =>
    match value with
    | .null => true
    | .obj members => membersFit members
    | _ => false
  | _, value =>
    match value with
    | .null => true
    | .str _ => true
    | _ => false

/-- Stores a text; `null` leaves the field as it is. -/
def storeText (field : String) : Json → String
  | .str s => s
  | _ => field

/-- Stores a member in the part of the envelope that `record` reads. The first value that does not
fit is the error that is returned in the end, and the envelope is then dropped. -/
def storeMember (env : ClickEnvelope) (member : String × Json) : Option ClickEnvelope :=
  match fieldOf member.1 with
  | none => some env
  | some field =>
    if fitsField field member.2 then
      match field with
      | .clickId => some { env with clickId := storeText env.clickId member.2 }
      | .adId => some { env with adId := storeText env.adId member.2 }
      | .payload => some env
      | .timestamp => some env
    else none

/-- `json.Unmarshal` into an empty envelope; `none` when it returns an error. -/
def unmarshal : RecordValue → Option ClickEnvelope
  | .json .null => some ⟨"", ""⟩
  | .json (.obj members) => members.foldlM storeMember ⟨"", ""⟩
  | _ => none

/-- `null`, or an object whose members fit the fields that they are for. -/
def Decodable : RecordValue → Prop
  | .json .null => True
  | .json (.obj members) =>
    ∀ member ∈ members, ∀ field, fieldOf member.1 = some field → fitsField field member.2 = true
  | _ => False

theorem isSome_storeMember_iff (env : ClickEnvelope) (member : String × Json) :
    (storeMember env member).isSome ↔
      ∀ field, fieldOf member.1 = some field → fitsField field member.2 = true := by
  unfold storeMember
  cases hfield : fieldOf member.1 with
  | none => simp
  | some field =>
    by_cases hfits : fitsField field member.2 = true
    · simp only [if_pos hfits]
      cases field <;> simp [hfits]
    · simp [hfits]

/-- `Unmarshal` returns no error exactly for the decodable values. -/
theorem isSome_unmarshal_iff (value : RecordValue) :
    (unmarshal value).isSome ↔ Decodable value := by
  cases value with
  | absent => simp [unmarshal, Decodable]
  | notJson => simp [unmarshal, Decodable]
  | followed root => simp [unmarshal, Decodable]
  | json root =>
    cases root with
    | obj members =>
      have hfold : ∀ env : ClickEnvelope, (members.foldlM storeMember env).isSome ↔
          ∀ member ∈ members, ∀ field, fieldOf member.1 = some field →
            fitsField field member.2 = true := by
        induction members with
        | nil => simp
        | cons member members ih =>
          intro env
          rw [List.foldlM_cons, List.forall_mem_cons, ← isSome_storeMember_iff env member]
          cases hstore : storeMember env member with
          | none => simp
          | some env' => simpa using ih env'
      exact hfold ⟨"", ""⟩
    | null => simp [unmarshal, Decodable]
    | bool b => simp [unmarshal, Decodable]
    | num coefficient exponent => simp [unmarshal, Decodable]
    | str s => simp [unmarshal, Decodable]
    | arr elems => simp [unmarshal, Decodable]

end Go

end AdClick.Counter
