import Mathlib.Data.List.Basic

/-!
# JavaScript values

A value (`JsValue`) is what a program can find out about it: a primitive and a
list know all of themselves, an object says what reading a property of it gives,
what it converts to, and so on. Each of these may throw (`JsError`), and reading
twice gives the same. Functions, errors and lists that contain themselves are
objects too.

The operations are those of the language: property access with and without `?.`,
`??`, the conversion in a template string, `join`, the truth value, and
`JSON.stringify`.
-/

namespace Framework

/-- What an operation throws; code that a value brings along can throw anything
(`thrown`). -/
inductive JsError
  | typeError (message : String)
  | rangeError (message : String)
  | thrown (description : String)
  deriving DecidableEq, Repr

inductive JsValue : Type
  | undefined
  | null
  | boolean (b : Bool)
  /-- A number, by the text it converts to. -/
  | number (text : String)
  | bigint (i : Int)
  | string (s : String)
  | symbol (description : String)
  | array (elements : List JsValue)
  /-- Any other object: its properties, the text it converts to, what a call of
  its method `join` returns, and whether it can be written as JSON. -/
  | object (get : String → Except JsError JsValue) (toText : Except JsError String)
      (join : String → Except JsError JsValue) (stringify : Except JsError Unit)

theorem Except.bind_eq_ok {ε α β : Type} {x : Except ε α} {f : α → Except ε β} {b : β} :
    (x >>= f) = .ok b ↔ ∃ a, x = .ok a ∧ f a = .ok b := by
  cases x with
  | ok a => simp [bind, Except.bind]
  | error e => simp [bind, Except.bind]

namespace JsValue

def nullish : JsValue → Bool
  | undefined => true
  | null => true
  | _ => false

/-- `v ?? w`. -/
def coalesce (v w : JsValue) : JsValue := if v.nullish then w else v

/-- The truth value. -/
def truthy : JsValue → Bool
  | undefined => false
  | null => false
  | boolean b => b
  | number text => text != "0" && text != "NaN"
  | bigint i => i != 0
  | string s => s != ""
  | _ => true

/-- `v.name`, for a name that no prototype of a primitive or a list has. -/
def get (v : JsValue) (name : String) : Except JsError JsValue :=
  match v with
  | undefined => .error (.typeError s!"Cannot read properties of undefined (reading '{name}')")
  | null => .error (.typeError s!"Cannot read properties of null (reading '{name}')")
  | object get _ _ _ => get name
  | _ => .ok undefined

/-- `v?.name`. -/
def optGet (v : JsValue) (name : String) : Except JsError JsValue :=
  if v.nullish then .ok undefined else v.get name

mutual

/-- The text in a template string. -/
def toText : JsValue → Except JsError String
  | undefined => .ok "undefined"
  | null => .ok "null"
  | boolean b => .ok (toString b)
  | number text => .ok text
  | bigint i => .ok (toString i)
  | string s => .ok s
  | symbol _ => .error (.typeError "Cannot convert a Symbol value to a string")
  | array elements => joinAll "," elements
  | object _ toText _ _ => toText

/-- `Array.prototype.join`: a nullish element gives the empty text. -/
def joinAll (separator : String) : List JsValue → Except JsError String
  | [] => .ok ""
  | [v] => if v.nullish then .ok "" else v.toText
  | v :: vs => do
    let head ← if v.nullish then .ok "" else v.toText
    let tail ← joinAll separator vs
    return head ++ separator ++ tail

end

/-- `v?.join(separator)`. -/
def optJoin (v : JsValue) (separator : String) : Except JsError JsValue :=
  match v with
  | undefined => .ok undefined
  | null => .ok undefined
  | array elements => string <$> joinAll separator elements
  | object _ _ join _ => join separator
  | _ => .error (.typeError "join is not a function")

mutual

/-- Whether `JSON.stringify` throws. -/
def stringify : JsValue → Except JsError Unit
  | bigint _ => .error (.typeError "Do not know how to serialize a BigInt")
  | array elements => stringifyAll elements
  | object _ _ _ stringify => stringify
  | _ => .ok ()

def stringifyAll : List JsValue → Except JsError Unit
  | [] => .ok ()
  | v :: vs => do
    v.stringify
    stringifyAll vs

end

/-- An object with these properties, none of them a function. -/
def ofFields (fields : List (String × JsValue)) : JsValue :=
  .object
    (fun name => .ok (((fields.find? (·.1 == name)).map (·.2)).getD undefined))
    (.ok "[object Object]")
    (fun _ => .error (.typeError "join is not a function"))
    (stringifyAll (fields.map (·.2)))

/-- An instance of `Error`. -/
def error (name message : String) : JsValue :=
  .object
    (fun property => .ok (if property = "name" then string name
      else if property = "message" then string message
      else if property = "stack" then string s!"{name}: {message}" else undefined))
    (.ok s!"{name}: {message}")
    (fun _ => .error (.typeError "join is not a function"))
    (.ok ())

def isString : JsValue → Bool
  | string _ => true
  | _ => false

/-- A string or a list of strings. -/
def isText : JsValue → Bool
  | string _ => true
  | array elements => elements.all isString
  | _ => false

theorem isString_iff {v : JsValue} : v.isString = true ↔ ∃ s, v = string s := by
  cases v <;> simp [isString]

@[simp] theorem isString_string (s : String) : (string s).isString = true := rfl

@[simp] theorem isText_string (s : String) : (string s).isText = true := rfl

theorem stringify_of_isString {v : JsValue} (h : v.isString = true) : v.stringify = .ok () := by
  obtain ⟨s, rfl⟩ := isString_iff.mp h
  rfl

theorem stringifyAll_of_isString {vs : List JsValue} (h : vs.all isString = true) :
    stringifyAll vs = .ok () := by
  induction vs with
  | nil => rfl
  | cons v vs ih =>
    obtain ⟨hv, hvs⟩ := Bool.and_eq_true_iff.mp h
    rw [stringifyAll, stringify_of_isString hv, ih hvs]
    rfl

theorem stringify_of_isText {v : JsValue} (h : v.isText = true) : v.stringify = .ok () := by
  cases v with
  | array elements => exact stringifyAll_of_isString h
  | string s => rfl
  | _ => cases h

/-- A value, or a string in its place. -/
@[simp] theorem isText_coalesce (v : JsValue) (s : String) :
    (v.coalesce (string s)).isText = true ↔ v.nullish = true ∨ v.isText = true := by
  unfold coalesce
  split <;> simp [*]

@[simp] theorem isString_coalesce (v : JsValue) (s : String) :
    (v.coalesce (string s)).isString = true ↔ v.nullish = true ∨ v.isString = true := by
  unfold coalesce
  split <;> simp [*]

end JsValue

end Framework
