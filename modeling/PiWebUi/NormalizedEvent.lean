/-
  PiWebUi.NormalizedEvent — the event every runtime's stream is normalized to
  (`NormalizedEvent`, protocol-types.ts).
-/

import PiWebUi.Lib.Json

namespace PiWebUi

open Lib

/-- `data` is `none` when it is undefined; `rest` are the event's other own properties
    (`sessionId`, `goalId`, ...). -/
structure NormalizedEvent where
  type : JsString
  timestamp : JsNumber := .fin 0
  data : Option Json := none
  rest : List (JsString × Json) := []
  deriving DecidableEq

namespace NormalizedEvent

def message_start : JsString := js "message_start"
def message_update : JsString := js "message_update"
def message_end : JsString := js "message_end"
def tool_execution_start : JsString := js "tool_execution_start"
def agent_end : JsString := js "agent_end"

def toJson (e : NormalizedEvent) : Json :=
  .obj ([(js "type", .str e.type)] ++ e.rest ++ [(js "timestamp", .num e.timestamp)] ++
    (e.data.map fun d => (js "data", d)).toList)

end NormalizedEvent

/-- `record(value)`: an object that is not an array. -/
def record (value : Option Json) : Option Json :=
  match value with
  | some (.obj fields) => some (.obj fields)
  | _ => none

/-- `data?.[key]`. -/
def member (data : Option Json) (key : JsString) : Option Json := data.bind fun d => d.get key

end PiWebUi
