import AdClick.Ecma.Value

/-!
# The request bodies of the TypeScript ingest-apis

The validation pipe turns a decoded body into an object of its class, checks this against the
decorators of the class and rejects unknown members. Each reader below stands for the decorators of
one property and returns the value with the type that the class declares for it; `@IsOptional()`
skips the other checks of a property that is `null` or absent.

What `class-transformer` leaves of a nested object on its way through the pipe is a parameter; it
can throw, and the answer is then an internal error. It drops the members of the body that have the
name of something that every object inherits, so that the check for unknown members does not see
them.
-/

set_option autoImplicit false

namespace AdClick.Ingest

open AdClick.Ecma

/-- The error answers of the HTTP layers. -/
inductive HttpError where
  | badRequest
  | internalServerError
  deriving DecidableEq

/-- The members of a JSON object. -/
abbrev Members := List (String × JsValue)

/-- `@IsOptional() @IsString()`. -/
def optionalString : JsValue → Except HttpError (Option String)
  | .undefined => .ok none
  | .null => .ok none
  | .str s => .ok (some s)
  | _ => .error .badRequest

/-- `@IsNotEmpty() @IsString()`. -/
def requiredString : JsValue → Except HttpError String
  | .str s => if s = "" then .error .badRequest else .ok s
  | _ => .error .badRequest

/-- `@IsOptional() @IsObject()` on what has been transformed: an array is no object. -/
def optionalObject (transform : Members → Option Members) :
    JsValue → Except HttpError (Option Members)
  | .undefined => .ok none
  | .null => .ok none
  | .obj members =>
    match transform members with
    | none => .error .internalServerError
    | some members => .ok (some members)
  | _ => .error .badRequest

/-- The names that every object inherits. -/
def inheritedNames : List String :=
  ["constructor", "__defineGetter__", "__defineSetter__", "hasOwnProperty", "__lookupGetter__",
    "__lookupSetter__", "isPrototypeOf", "propertyIsEnumerable", "toString", "valueOf",
    "__proto__", "toLocaleString"]

/-- `whitelist` with `forbidNonWhitelisted`: every member that is left has one of the names. -/
def whitelisted (names : List String) (body : Members) : Except HttpError Unit :=
  if body.all fun member => member.1 ∈ names ∨ member.1 ∈ inheritedNames then .ok ()
  else .error .badRequest

/-- The property is a text exactly when the reader gives one. -/
theorem eq_str_iff_of_optionalString {v : JsValue} {read : Option String}
    (h : optionalString v = .ok read) (s : String) : v = .str s ↔ read = some s := by
  cases v with
  | undefined => cases h; simp
  | null => cases h; simp
  | str s' => cases h; simp
  | bool b => cases h
  | num text => cases h
  | arr elems => cases h
  | obj members => cases h

/-- A computation that succeeds has a first step that succeeds. -/
theorem except_bind_eq_ok {ε α β : Type} {x : Except ε α} {f : α → Except ε β} {b : β}
    (h : (x >>= f) = .ok b) : ∃ a, x = .ok a ∧ f a = .ok b := by
  cases x with
  | error err => cases h
  | ok a => exact ⟨a, rfl, h⟩

end AdClick.Ingest
