import AdClick.Ecma.Date

/-!
# JSON values as ECMAScript values

What a decoded Kafka message can hold where a service does not know the type: JSON values, and
`undefined` for a property that is absent. `coalesce` is `??`, `optionalGet` is `?.`, and `toText`
is the conversion of a template literal, which throws on an object whose own `toString` hides the
inherited one.
-/

set_option autoImplicit false

namespace AdClick.Ecma

/-- A number is kept as the text it converts to; the members of an object have distinct names. -/
inductive JsValue where
  | undefined
  | null
  | bool (b : Bool)
  | num (text : String)
  | str (s : String)
  | arr (elems : List JsValue)
  | obj (members : List (String × JsValue))

namespace JsValue

def isNullish : JsValue → Bool
  | undefined => true
  | null => true
  | _ => false

/-- `a ?? b`. -/
def coalesce (a b : JsValue) : JsValue := if a.isNullish then b else a

/-- `value?.name`, for a name that no prototype has. -/
def optionalGet (name : String) : JsValue → JsValue
  | obj members => (members.lookup name).getD undefined
  | _ => undefined

/-- The string a value is, if it is one. -/
def str? : JsValue → Option String
  | str s => some s
  | _ => none

mutual

/-- The text of a value in a template literal. A member `toString` of an object is no function, and
the inherited `valueOf` gives no primitive. -/
def toText : JsValue → Except JsError String
  | undefined => .ok "undefined"
  | null => .ok "null"
  | bool b => .ok (if b then "true" else "false")
  | num text => .ok text
  | str s => .ok s
  | arr elems => (elemTexts elems).map (String.intercalate ",")
  | obj members =>
    if (members.lookup "toString").isSome then .error .typeError else .ok "[object Object]"

/-- The texts that the join of an array puts between its commas. -/
def elemTexts : List JsValue → Except JsError (List String)
  | [] => .ok []
  | elem :: elems => do
    let text ← if elem.isNullish then .ok "" else toText elem
    let texts ← elemTexts elems
    return text :: texts

end

@[simp] theorem toText_str (s : String) : (str s).toText = .ok s := by simp [toText]

end JsValue

end AdClick.Ecma
