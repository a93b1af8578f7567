/-
  PiWebUi.EventBroker.PayloadBudget — the byte budget of one event
  (event-payload-budget.ts).

  An event over the budget is slimmed: a `message_update` keeps its data with the
  message cut to its identity and the accumulated `partial` removed, any other event
  keeps its data with long strings cut. When that is still over the budget, only the
  marker is left. `JSON.stringify` and `Buffer.byteLength` are the language's; the size
  of a `message_update` is counted without building its text (`jsonBytes`).
-/

import PiWebUi.NormalizedEvent

namespace PiWebUi.EventBroker

open Lib

structure MeasuredEvent where
  event : NormalizedEvent
  bytes : ℕ
  truncated : Bool
  originalBytes : ℕ

def num (n : ℕ) : JsNumber := .fin n

def isRecord : Json → Bool
  | .obj _ => true
  | _ => false

def slimMessage (message : Option Json) : Option Json :=
  match message with
  | some (.obj fields) =>
    some (.obj ([js "id", js "stopReason", js "role"].filterMap fun key =>
      ((Json.obj fields).get key).map fun v => (key, v)))
  | _ => none

/-- `value.slice(0, n)` for a number `n` that is not negative. -/
def sliceTo (s : JsString) : JsNumber → JsString
  | .fin q => s.take ⌊q⌋.toNat
  | .posInf => s
  | _ => []

def truncateString (maxStringLength : JsNumber) (s : JsString) : JsString :=
  if maxStringLength.lt (num s.length) then
    sliceTo s ((num 0).max (maxStringLength.sub (num 12))) ++ js "…[truncated]"
  else s

mutual
def truncateStrings (maxStringLength : JsNumber) : Json → Json
  | .str s => .str (truncateString maxStringLength s)
  | .arr xs => .arr (truncateItems maxStringLength xs)
  | .obj fs => .obj (truncateFields maxStringLength fs)
  | v => v

def truncateItems (maxStringLength : JsNumber) : List Json → List Json
  | [] => []
  | x :: xs => truncateStrings maxStringLength x :: truncateItems maxStringLength xs

def truncateFields (maxStringLength : JsNumber) : List (JsString × Json) → List (JsString × Json)
  | [] => []
  | (k, v) :: fs => (k, truncateStrings maxStringLength v) :: truncateFields maxStringLength fs
end

/-- `serialize(event).bytes`. -/
def serialize (e : NormalizedEvent) : ℕ := utf8Length e.toJson.stringify

/-! ## Counting bytes without the text -/

/-- A code unit that JSON escapes, or any surrogate. -/
def escapesOrSurrogate (u : UInt16) : Bool :=
  u = 34 || u = 92 || u < 32 || isHighSurrogate u || isLowSurrogate u

def escapeBytes : JsString → ℕ
  | [] => 0
  | u :: r =>
    if u = 34 || u = 92 || u = 8 || u = 9 || u = 10 || u = 12 || u = 13 then 1 + escapeBytes r
    else if u < 32 then 5 + escapeBytes r
    else if isHighSurrogate u then
      match r with
      | v :: r' => if isLowSurrogate v then escapeBytes r' else 3 + escapeBytes (v :: r')
      | [] => 3
    else if isLowSurrogate u then 3 + escapeBytes r
    else escapeBytes r

def jsonStringBytes (value : JsString) : ℕ :=
  if value.any escapesOrSurrogate then utf8Length value + escapeBytes value + 2 else utf8Length value + 2

mutual
def jsonBytes : Json → ℕ
  | .null => 4
  | .str s => jsonStringBytes s
  | .bool true => 4
  | .bool false => 5
  | .num x => if x.isFinite then utf8Length x.toText else 4
  | .arr xs => 2 + (xs.length - 1) + jsonBytesItems xs
  | .obj fs => 2 + (fs.length - 1) + jsonBytesFields fs

def jsonBytesItems : List Json → ℕ
  | [] => 0
  | x :: xs => jsonBytes x + jsonBytesItems xs

def jsonBytesFields : List (JsString × Json) → ℕ
  | [] => 0
  | (k, v) :: fs => jsonStringBytes k + 1 + jsonBytes v + jsonBytesFields fs
end

/-! ## Slimming -/

def payloadTruncated (originalBytes : ℕ) (budgetBytes : JsNumber) : Json :=
  .obj [(js "originalBytes", .num (num originalBytes)), (js "budgetBytes", .num budgetBytes)]

def stripAssistantMessageEventPartial : Json → Json
  | .obj fs => .obj (fs.filter (·.1 ≠ js "partial"))
  | v => v

def dataFields (e : NormalizedEvent) : List (JsString × Json) :=
  match e.data with
  | some (.obj fs) => fs
  | _ => []

/-- `{ ...fields, key: v }` when there is a `v`. -/
def setSome (fields : List (JsString × Json)) (key : JsString) : Option Json → List (JsString × Json)
  | some v => Json.setField fields key v
  | none => fields

/-- The slimmed data, before the last resort. -/
def candidateFields (e : NormalizedEvent) (originalBytes : ℕ) (budgetBytes : JsNumber) : List (JsString × Json) :=
  let data := dataFields e
  let marker := payloadTruncated originalBytes budgetBytes
  if e.type = NormalizedEvent.message_update then
    let withMessage := setSome data (js "message") (slimMessage ((Json.obj data).get (js "message")))
    let withDelta := setSome withMessage (js "assistantMessageEvent")
      (((Json.obj data).get (js "assistantMessageEvent")).map stripAssistantMessageEventPartial)
    Json.setField withDelta (js "payloadTruncated") marker
  else
    Json.setField (truncateFields ((num 16).max (budgetBytes.divNat 4).floor) data) (js "payloadTruncated") marker

def candidate (e : NormalizedEvent) (originalBytes : ℕ) (budgetBytes : JsNumber) : NormalizedEvent :=
  { e with data := some (.obj (candidateFields e originalBytes budgetBytes)) }

def minimal (e : NormalizedEvent) (originalBytes : ℕ) (budgetBytes : JsNumber) : NormalizedEvent :=
  { e with data := some (.obj [(js "payloadTruncated", payloadTruncated originalBytes budgetBytes)]) }

/-- How an event's size is counted before it is slimmed. -/
def originalBytes (e : NormalizedEvent) (budgetBytes : JsNumber) : ℕ :=
  if (num 0).lt budgetBytes && decide (e.type = NormalizedEvent.message_update) then jsonBytes e.toJson else serialize e

/-- The event goes out as it is. A budget of zero disables the check for an event whose
    text is built. -/
def withinBudget (e : NormalizedEvent) (budgetBytes : JsNumber) : Bool :=
  let size := num (originalBytes e budgetBytes)
  if (num 0).lt budgetBytes && decide (e.type = NormalizedEvent.message_update) then size.le budgetBytes
  else decide (budgetBytes = num 0) || size.le budgetBytes

/-- Slimming once brings the event within the budget. -/
def candidateFits (e : NormalizedEvent) (budgetBytes : JsNumber) : Bool :=
  (num (serialize (candidate e (originalBytes e budgetBytes) budgetBytes))).le budgetBytes

def measureAndSlim (e : NormalizedEvent) (budgetBytes : JsNumber) : MeasuredEvent :=
  let original := originalBytes e budgetBytes
  if withinBudget e budgetBytes then ⟨e, serialize e, false, original⟩
  else
    let slim := candidate e original budgetBytes
    if (num (serialize slim)).le budgetBytes then ⟨slim, serialize slim, true, original⟩
    else
      let last := minimal e original budgetBytes
      ⟨last, serialize last, true, original⟩

end PiWebUi.EventBroker
