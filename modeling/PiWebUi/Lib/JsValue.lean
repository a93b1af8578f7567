/-
  PiWebUi.Lib.JsValue — the values `JSON.stringify` is called with.

  Besides what JSON has, a member or an element may be undefined, a function or a symbol:
  `JSON.stringify` leaves such a member out and writes such an element as `null`. A function
  that an object has as `toJSON` is called in its place; `function` carries what the call
  comes to, `none` for undefined. A value of which no object has one is `Data`.
-/

import PiWebUi.Lib.Json

namespace PiWebUi.Lib

inductive JsValue where
  | undefined
  | symbol
  | function (toJSON : Option Json)
  | null
  | bool (b : Bool)
  | num (x : JsNumber)
  | str (s : JsString)
  | arr (xs : List JsValue)
  | obj (fields : List (JsString × JsValue))

namespace JsValue

/-- `value === undefined || typeof value === 'function' || typeof value === 'symbol'`. -/
def omitted : JsValue → Bool
  | undefined | symbol | function _ => true
  | _ => false

/-- The own property `key` of an object; undefined for every other value. -/
def get (v : JsValue) (key : JsString) : JsValue :=
  match v with
  | obj fields => ((fields.find? (·.1 = key)).map (·.2)).getD undefined
  | _ => undefined

def setField (fields : List (JsString × JsValue)) (key : JsString) (v : JsValue) : List (JsString × JsValue) :=
  if fields.any (·.1 = key) then fields.map fun f => if f.1 = key then (key, v) else f
  else fields ++ [(key, v)]

/-- What the object's own `toJSON` gives, when it has one to call. -/
def custom (fields : List (JsString × JsValue)) : Option (Option Json) :=
  match (obj fields).get (js "toJSON") with
  | function result => some result
  | _ => none

mutual
/-- What `JSON.stringify` writes of a value; `none` for nothing. -/
def toJson : JsValue → Option Json
  | undefined | symbol | function _ => none
  | null => some .null
  | bool b => some (.bool b)
  | num x => some (.num x)
  | str s => some (.str s)
  | arr xs => some (.arr (itemsToJson xs))
  | obj fs =>
    match custom fs with
    | some result => result
    | none => some (.obj (fieldsToJson fs))

def itemsToJson : List JsValue → List Json
  | [] => []
  | x :: xs => (toJson x).getD .null :: itemsToJson xs

def fieldsToJson : List (JsString × JsValue) → List (JsString × Json)
  | [] => []
  | (k, v) :: fs =>
    match toJson v with
    | some j => (k, j) :: fieldsToJson fs
    | none => fieldsToJson fs
end

/-- `JSON.stringify(value)`. -/
def stringify (v : JsValue) : Option JsString := v.toJson.map Json.stringify

mutual
def Data : JsValue → Prop
  | arr xs => DataItems xs
  | obj fs => custom fs = none ∧ DataFields fs
  | _ => True

def DataItems : List JsValue → Prop
  | [] => True
  | x :: xs => Data x ∧ DataItems xs

def DataFields : List (JsString × JsValue) → Prop
  | [] => True
  | (_, v) :: fs => Data v ∧ DataFields fs
end

/-- What is left out is what is undefined, a function or a symbol. -/
theorem toJson_isNone {v : JsValue} (h : Data v) : v.toJson.isNone = v.omitted := by
  cases v with
  | obj fs =>
    have hcustom : custom fs = none := h.1
    simp [toJson, hcustom, omitted]
  | _ => rfl

theorem toJson_of_omitted {v : JsValue} (h : v.omitted = true) : v.toJson = none := by
  cases v <;> first | rfl | cases h

theorem exists_toJson {v : JsValue} (h : Data v) (ho : v.omitted = false) : ∃ j, v.toJson = some j := by
  have hnone := toJson_isNone h
  rw [ho] at hnone
  exact Option.isSome_iff_exists.mp (by simpa using hnone)

end JsValue

end PiWebUi.Lib
