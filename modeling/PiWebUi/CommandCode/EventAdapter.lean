/-
  PiWebUi.CommandCode.EventAdapter — Command Code's events as the server's
  (server/src/command-code/command-code-event-adapter.ts).

  A native event becomes at most one event of the normalized model. A message's events
  carry its id: its own or one made up at its start, and `commandcode-message` outside a
  message. At the end of a turn the terminal result adds the text that no event carried,
  under `commandcode-final`, and its usage.
-/

import PiWebUi.CommandCode.NdjsonParser
import PiWebUi.Lib.SafeInteger
import PiWebUi.NormalizedEvent
import PiWebUi.Transcript.Model

namespace PiWebUi.CommandCode

open PiWebUi.Lib PiWebUi.Transcript

/-! ## Values -/

def stringValue (v : Option Json) : Option JsString :=
  match v with
  | some (.str (u :: us)) => some (u :: us)
  | _ => none

def asRecord (v : Option Json) : Option Fields :=
  match v with
  | some (.obj fields) => some fields
  | _ => none

/-- The members that are not `undefined`. -/
def members (fields : List (String × Option Json)) : Fields := fields.filterMap fun f => f.2.map fun v => (js f.1, v)

def boundedText (value : JsString) : JsString := if 20000 < value.length then value.take 20000 ++ js "…" else value

def boundedValue (value : Option Json) : Option Json :=
  value.map fun v =>
    match v with
    | .str s => .str (boundedText s)
    | v =>
      if v.stringify.length ≤ 50000 then v
      else .str (js "[truncated " ++ JsNumber.natText v.stringify.length ++ js " bytes]")

def nativeEffort (value : Option Json) : Option JsString :=
  match value with
  | some (.str s) => if ["low", "medium", "high", "xhigh", "max"].any (js · = s) then some s else none
  | _ => none

def eventMessageId (event : Fields) : Option JsString :=
  (stringValue (property event "messageId")).or
    ((stringValue ((asRecord (property event "message")).bind (property · "id"))).or (stringValue (property event "id")))

/-! ## Usage of the terminal result -/

/-- A count given as a number or as decimal digits. -/
def coerceCount (value : Json) : Option JsNumber :=
  match value with
  | .num x => if x.isCount then some x else none
  | .str s =>
    let parsed := JsNumber.roundBinary64 (JsNumber.digitsValue s)
    if s ≠ [] && s.all isDigit && parsed.isSafeInteger then some parsed else none
  | _ => none

def readConsistentCount (record : Fields) (keys : List String) : Option JsNumber :=
  match (keys.filterMap (property record)).mapM coerceCount with
  | some (first :: rest) => if rest.all (· = first) then some first else none
  | _ => none

structure CommandCodeTerminalTokenUsage where
  input : JsNumber
  output : JsNumber
  total : JsNumber
  cacheRead : Option JsNumber
  cacheWrite : Option JsNumber

def normalizeCommandCodeTerminalTokenUsage (value : Option Json) : Option CommandCodeTerminalTokenUsage := do
  let usage ← asRecord value
  let input ← readConsistentCount usage ["input", "input_tokens", "inputTokens", "prompt_tokens"]
  let output ← readConsistentCount usage ["output", "output_tokens", "outputTokens", "completion_tokens"]
  let total := input.add output
  let reportedTotal := readConsistentCount usage ["total", "total_tokens", "totalTokens"]
  if total.isSafeInteger && reportedTotal.all (· = total) then
    some {
      input, output, total
      cacheRead := readConsistentCount usage ["cacheRead", "cacheReadTokens", "cache_read_tokens"]
      cacheWrite := readConsistentCount usage ["cacheWrite", "cacheWriteTokens", "cache_write_tokens"] }
  else none

def CommandCodeTerminalTokenUsage.toJson (u : CommandCodeTerminalTokenUsage) : Json :=
  .obj (members [("scope", some (.str (js "run"))), ("source", some (.str (js "commandcode-terminal-result-v1"))),
    ("input", some (.num u.input)), ("output", some (.num u.output)), ("total", some (.num u.total)),
    ("cacheRead", u.cacheRead.map .num), ("cacheWrite", u.cacheWrite.map .num)])

/-! ## One event -/

section

variable (sessionId : JsString)

def normalized (type : JsString) (timestamp : JsNumber) (data : Option Json) : NormalizedEvent :=
  { type, timestamp, data, rest := [(js "sessionId", .str sessionId)] }

def textOfEvent (event : Fields) : Option JsString :=
  (textProperty event "text").or ((textProperty event "delta").or (textProperty event "content"))

def deltaEvent (kind : String) (timestamp : JsNumber) (id text : JsString) : NormalizedEvent :=
  normalized sessionId (js "message_update") timestamp
    (some (.obj [(js "id", .str id),
      (js "assistantMessageEvent", .obj [(js "type", .str (js kind)), (js "delta", .str text)])]))

def typeIn (types : List String) (type : JsString) : Bool := types.any (js · = type)

def toolCallIdOf (event : Fields) : JsString :=
  ((stringValue (property event "toolCallId")).or (stringValue (property event "id"))).getD (js "commandcode-tool")

def endTypes : List String := ["agent_end", "turn_end", "session_end", "run_end"]

/-- Events that are no message's text. -/
def normalizeOther (event : Fields) (type : JsString) (timestamp : JsNumber) : Option NormalizedEvent :=
  if typeIn ["tool_start", "tool_execution_start"] type then
    some (normalized sessionId (js "tool_execution_start") timestamp (some (.obj (members [
      ("toolCallId", some (.str (toolCallIdOf event))),
      ("toolName", some (.str (((stringValue (property event "toolName")).or (stringValue (property event "name"))).getD (js "unknown")))),
      ("args", boundedValue (nullish (property event "args") (nullish (property event "input") (property event "arguments"))))]))))
  else if typeIn ["tool_result", "tool_execution_end", "tool_end"] type then
    some (normalized sessionId (js "tool_execution_end") timestamp (some (.obj (members [
      ("toolCallId", some (.str (toolCallIdOf event))),
      ("result", boundedValue (nullish (property event "result") (nullish (property event "output") (property event "content")))),
      ("isError", some (.bool (isTrue event "isError" || (property event "error").isSome)))]))))
  else if type = js "usage" then
    some (normalized sessionId (js "usage") timestamp (boundedValue (nullish (property event "usage") (some (.obj event)))))
  else if typeIn ["model_request_start", "model_request_end"] type then
    some (normalized sessionId type timestamp (some (.obj (members [
      ("requestId", (stringValue (property event "requestId")).map .str),
      ("effort", (nativeEffort (nullish (property event "effort")
        (nullish (property event "effectiveEffort") (property event "reasoningEffort")))).map .str)]))))
  else if type = js "error" then
    some (normalized sessionId (js "error") timestamp (some (.obj [
      (js "message", .str (boundedText ((stringValue (property event "message")).getD (js "Command Code runtime error"))))])))
  else if typeIn endTypes type then some (normalized sessionId (js "agent_end") timestamp (boundedValue (some (.obj event))))
  else none

def normalizeEvent (event : Fields) (timestamp : JsNumber) (activeMessageId : Option JsString) : Option NormalizedEvent :=
  let type := (textProperty event "type").getD []
  let messageId := (activeMessageId.or (eventMessageId event)).getD (js "commandcode-message")
  if type = js "message_start" then
    some (normalized sessionId (js "message_start") timestamp (some (.obj [(js "id", .str messageId),
      (js "role", (nullish (property event "role")
        (nullish ((asRecord (property event "message")).bind (property · "role")) none)).getD (.str (js "assistant")))])))
  else if typeIn ["message_update", "text_delta", "assistant_text"] type then
    (truthy (textOfEvent event)).map fun text => deltaEvent sessionId "text_delta" timestamp messageId (boundedText text)
  else if typeIn ["thinking", "reasoning", "thinking_delta"] type then
    (truthy (textOfEvent event)).map fun text => deltaEvent sessionId "thinking_delta" timestamp messageId (boundedText text)
  else if type = js "message_end" then
    some (normalized sessionId (js "message_end") timestamp (some (.obj [(js "id", .str messageId)])))
  else normalizeOther sessionId event type timestamp

end

/-! ## The events of a turn -/

structure CommandCodeAdaptInput where
  sessionId : JsString
  nativeSessionId : Option JsString
  events : List ParsedCommandCodeEvent
  terminal : Fields
  unknownEventTypes : List JsString
  suppressedDuplicateCount : ℕ
  bytes : ℕ
  lineCount : ℕ
  observedAt : JsNumber
  syntheticMessagePrefix : JsString := js "commandcode-message-"

structure CommandCodeAdaptedOutput where
  events : List NormalizedEvent
  finalText : JsString
  nativeSessionId : Option JsString
  terminal : Fields
  tokenUsage : Option CommandCodeTerminalTokenUsage
  unknownEventTypes : List JsString
  suppressedDuplicateCount : ℕ
  bytes : ℕ
  lineCount : ℕ

structure Adapting where
  events : List NormalizedEvent := []
  finalText : JsString := []
  sawAgentEnd : Bool := false
  activeMessageId : Option JsString := none
  syntheticMessageNumber : ℕ := 0

/-- The text of a text delta. -/
def textDelta (e : NormalizedEvent) : JsString :=
  if e.type = js "message_update" then
    match (asRecord e.data).bind fun data => asRecord (property data "assistantMessageEvent") with
    | some assistant => if textProperty assistant "type" = some (js "text_delta") then (textProperty assistant "delta").getD [] else []
    | none => []
  else []

def Adapting.push (s : Adapting) (e : NormalizedEvent) : Adapting :=
  { s with events := s.events ++ [e], finalText := s.finalText ++ textDelta e }

section

variable (input : CommandCodeAdaptInput)

def timestampOf (event : Fields) : JsNumber :=
  match property event "timestamp" with
  | some (.num x) => if x.isFinite then x else input.observedAt
  | _ => input.observedAt

def terminalEffort : Option JsString :=
  nativeEffort (nullish (property input.terminal "effort") (nullish (property input.terminal "effectiveEffort")
    (nullish (property input.terminal "reasoningEffort")
      ((asRecord (property input.terminal "usage")).bind (property · "reasoningEffort")))))

/-- An end of a run carries the terminal's effort and usage, and no other usage. -/
def withTerminal (e : NormalizedEvent) : NormalizedEvent :=
  let data := ((asRecord e.data).getD []).filter (·.1 ≠ js "tokenUsage")
  let data := if (property data "effort").isNone then
      match terminalEffort input with
      | some effort => Json.setField data (js "effort") (.str effort)
      | none => data
    else data
  { e with
    data := some (.obj
      (match normalizeCommandCodeTerminalTokenUsage (property input.terminal "usage") with
      | some usage => Json.setField data (js "tokenUsage") usage.toJson
      | none => data)) }

/-- A message that starts has an id of its own, or the next of the turn's. -/
def Adapting.start (s : Adapting) (event : Fields) : Adapting :=
  if textProperty event "type" = some (js "message_start") then
    match eventMessageId event with
    | some id => { s with activeMessageId := some id }
    | none =>
      { s with
        activeMessageId := some (input.syntheticMessagePrefix ++ JsNumber.natText (s.syntheticMessageNumber + 1))
        syntheticMessageNumber := s.syntheticMessageNumber + 1 }
  else s

def Adapting.finishMessage (s : Adapting) (event : Fields) : Adapting :=
  if textProperty event "type" = some (js "message_end") then { s with activeMessageId := none } else s

def Adapting.accept (s : Adapting) (e : NormalizedEvent) : Adapting :=
  if e.type = js "agent_end" then
    if s.sawAgentEnd then s else { s with sawAgentEnd := true }.push (withTerminal input e)
  else s.push e

def Adapting.adapt (s : Adapting) (event : Fields) : Adapting :=
  let s := s.start input event
  let e := normalizeEvent input.sessionId event (timestampOf input event) s.activeMessageId
  (e.map ((s.finishMessage event).accept input)).getD (s.finishMessage event)

def finalDelta (text : JsString) : NormalizedEvent := deltaEvent input.sessionId "text_delta" input.observedAt (js "commandcode-final") text

def terminalText : JsString := (textProperty input.terminal "finalText").getD []

/-- The text that no event carried. -/
def Adapting.addTerminalText (s : Adapting) : Adapting :=
  if s.finalText.isPrefixOf (terminalText input) && terminalText input ≠ s.finalText then
    s.push (finalDelta input ((terminalText input).drop s.finalText.length))
  else s

def terminalData : Fields :=
  members [
    ("result", some ((textProperty input.terminal "finalText").elim .null .str)),
    ("subtype", property input.terminal "subtype"),
    ("stopReason", property input.terminal "stopReason"),
    ("usage", boundedValue (property input.terminal "usage")),
    ("tokenUsage", (normalizeCommandCodeTerminalTokenUsage (property input.terminal "usage")).map (·.toJson)),
    ("effort", (terminalEffort input).map .str),
    ("nativeSessionId", ((textProperty input.terminal "sessionId").or input.nativeSessionId).map .str)]

def Adapting.addAgentEnd (s : Adapting) : Adapting :=
  if s.sawAgentEnd then s else s.push (normalized input.sessionId (js "agent_end") input.observedAt (some (.obj (terminalData input))))

/-- Every event, and then the terminal result. -/
def adapting : Adapting :=
  ((input.events.foldl (fun (s : Adapting) parsed => s.adapt input parsed.event) {}).addTerminalText input).addAgentEnd input

def adaptCommandCodeOutput : CommandCodeAdaptedOutput where
  events := (adapting input).events
  finalText := if terminalText input ≠ [] then terminalText input else (adapting input).finalText
  nativeSessionId := (textProperty input.terminal "sessionId").or input.nativeSessionId
  terminal := input.terminal
  tokenUsage := normalizeCommandCodeTerminalTokenUsage (property input.terminal "usage")
  unknownEventTypes := input.unknownEventTypes
  suppressedDuplicateCount := input.suppressedDuplicateCount
  bytes := input.bytes
  lineCount := input.lineCount

end

end PiWebUi.CommandCode
