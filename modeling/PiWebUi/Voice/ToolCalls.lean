/-
  PiWebUi.Voice.ToolCalls — the tool calls of the voice model
  (gemini-live-bridge.ts: handleToolCalls, rememberToolCallId, acknowledgeToolCalls;
  tool-arguments.ts).

  A message's calls are looked through in one go: refused, repeated or accepted. Repeated
  ones are acknowledged at once, accepted ones are handed to the host's handler together
  and awaited together (`Batch.settle` is `Promise.all`); what follows the await is a step
  of its own (`resume`). A handler resolves or rejects when it likes, by the number of the
  call among all that were delivered. Whether an acknowledgement can be written is the
  environment's.
-/

import Mathlib.Logic.Function.Basic
import PiWebUi.Voice.GeminiLiveBridge

namespace PiWebUi.Voice.ToolCalls

open Lib

/-! ## Arguments -/

def MAX_HISTORY_QUERY_CHARS : ℕ := 300

def MAX_RELAY_TEXT_CHARS : ℕ := 4000

def readSingleStringArgument (raw : Json) (key : JsString) (maxChars : ℕ) (allowEmpty : Bool) : Except JsString Json :=
  match raw with
  | .obj _ =>
    let unexpected := raw.keys.filter (· ≠ key)
    if unexpected ≠ [] then .error (js "unexpected arguments (" ++ List.intercalate (js ", ") unexpected ++ js ")")
    else
      match raw.get key with
      | some (.str rawValue) =>
        let value := trim rawValue
        if value.length = 0 && !allowEmpty then .error (js "an empty " ++ key)
        else if maxChars < value.length then
          .error (js "an oversized " ++ key ++ js " (" ++ JsNumber.natText value.length ++ js " characters)")
        else .ok (.obj [(key, .str value)])
      | _ => .error (js "a non-string " ++ key)
  | _ => .error (js "a malformed argument object")

def validateToolArguments (name : JsString) (raw : Json) : Except JsString Json :=
  if name = js "read_worker_history" then readSingleStringArgument raw (js "query") MAX_HISTORY_QUERY_CHARS true
  else if name = js "relay_to_worker" then readSingleStringArgument raw (js "text") MAX_RELAY_TEXT_CHARS false
  else .error (js "an unknown tool")

/-! ## The remembered ids -/

/-- A set, and its ids in the order they came. -/
structure RecentToolCallIds where
  ids : List JsString := []
  order : List JsString := []
  deriving DecidableEq

/-- The oldest ids go while there are more than 256. -/
def evict (ids : List JsString) : List JsString → RecentToolCallIds
  | [] => { ids }
  | evicted :: order =>
    if 256 < order.length + 1 then evict (ids.filter (· ≠ evicted)) order
    else { ids, order := evicted :: order }

def rememberId (recent : RecentToolCallIds) (id : JsString) : RecentToolCallIds :=
  if id = [] then recent
  else if recent.ids.contains id then evict recent.ids recent.order
  else evict (recent.ids ++ [id]) (recent.order ++ [id])

/-! ## The state -/

/-- A call as it stands in the provider's message. -/
structure FunctionCall where
  name : Option JsString := none
  args : Option Json := none
  id : Option JsString := none
  deriving DecidableEq

/-- `remembered` are the ids remembered before it came. -/
structure Delivered where
  call : FunctionCall
  remembered : List JsString
  deriving DecidableEq

def Delivered.name (d : Delivered) : JsString := d.call.name.getD []

def Delivered.id (d : Delivered) : JsString := d.call.id.getD []

def Delivered.args (d : Delivered) : Json := (d.call.args.filter (· ≠ .null)).getD (.obj [])

/-- `number` is the call's place among those delivered. -/
structure AcceptedCall where
  number : ℕ
  name : JsString
  id : JsString
  args : Json
  deriving DecidableEq

structure Duplicate where
  number : ℕ
  name : JsString
  id : JsString
  deriving DecidableEq

/-- What a handler does; it may resolve with nothing. -/
inductive Answer
  | resolved (payload : Option Json)
  | rejected (message : JsString)
  deriving DecidableEq

def Answer.payload : Answer → Option Json
  | resolved payload => payload
  | rejected _ => none

/-- The accepted calls of a message, and their `Promise.all`. -/
structure Batch where
  calls : List AcceptedCall
  outcome : Option (Except JsString (List (Option Json))) := none
  /-- The code after the await has run. -/
  continued : Bool := false

/-- A function response that was written to the provider. -/
structure Acknowledged where
  number : ℕ
  id : JsString
  name : JsString
  response : Json
  scheduling : Option JsString
  deriving DecidableEq

structure ToolCallConfig where
  ackToolCalls : Bool := true
  toolResponseScheduling : Option JsString := none

structure ToolCallState where
  recent : RecentToolCallIds := {}
  batches : List Batch := []
  errors : List JsString := []
  delivered : List Delivered := []
  remembered : List JsString := []
  invoked : List AcceptedCall := []
  answers : ℕ → Option Answer := fun _ => none
  acknowledged : List Acknowledged := []

/-- What becomes of a tool response: there may be no session to write it to. -/
inductive Write
  | written
  | noSession
  | fails (message : JsString)
  deriving DecidableEq

inductive ToolCallEvent
  | toolCall (functionCalls : List FunctionCall) (write : Write)
  | settle (number : ℕ) (answer : Answer)
  | resume (batch : ℕ) (write : Write)
  deriving DecidableEq

/-- `{ ok: true }` -/
def okResponse : Json := .obj [(js "ok", .bool true)]

namespace ToolCallState

variable (c : ToolCallConfig)

def emitError (s : ToolCallState) (message : JsString) : ToolCallState := { s with errors := s.errors ++ [message] }

/-! ## Acknowledging -/

def response (number : ℕ) (id name : JsString) (payload : Option Json) : Acknowledged :=
  { number, id, name, response := payload.getD okResponse, scheduling := c.toolResponseScheduling }

/-- The payloads are matched by their place. -/
def responses (calls : List AcceptedCall) (payloads : List (Option Json)) : List Acknowledged :=
  calls.mapIdx fun index call => response c call.number call.id call.name (payloads[index]?.join)

def acknowledge (s : ToolCallState) (functionResponses : List Acknowledged) : Write → ToolCallState
  | .written => { s with acknowledged := s.acknowledged ++ functionResponses }
  | .noSession => s
  | .fails message => s.emitError (js "failed to acknowledge a tool call: " ++ message)

/-! ## A message -/

structure Scan where
  state : ToolCallState
  accepted : List AcceptedCall := []
  duplicates : List Duplicate := []

/-- The call counts as delivered, with what is remembered so far. -/
def deliver (s : ToolCallState) (call : FunctionCall) : ToolCallState :=
  { s with delivered := s.delivered ++ [⟨call, s.remembered⟩] }

def remember (s : ToolCallState) (id : JsString) : ToolCallState :=
  { s with
    recent := rememberId s.recent id
    remembered := if id = [] then s.remembered else s.remembered ++ [id] }

def scanCall (t : Scan) (call : FunctionCall) : Scan :=
  let d : Delivered := ⟨call, t.state.remembered⟩
  let number := t.state.delivered.length
  let s := t.state.deliver call
  if !VOICE_FUNCTION_DECLARATIONS.contains d.name then
    { t with state := s.emitError (js "model called an undeclared function (" ++ d.name ++ js ")") }
  else
    match validateToolArguments d.name d.args with
    | .error reason => { t with state := s.emitError (js "model called " ++ d.name ++ js " with " ++ reason) }
    | .ok args =>
      if s.recent.ids.contains d.id then { t with state := s, duplicates := t.duplicates ++ [⟨number, d.name, d.id⟩] }
      else { t with state := s.remember d.id, accepted := t.accepted ++ [⟨number, d.name, d.id, args⟩] }

def acknowledgeDuplicates (s : ToolCallState) (duplicates : List Duplicate) (write : Write) : ToolCallState :=
  if duplicates = [] then s else s.acknowledge (duplicates.map fun call => response c call.number call.id call.name none) write

/-- The handler is called for each of the calls, and they are awaited together. -/
def invoke (s : ToolCallState) (accepted : List AcceptedCall) : ToolCallState :=
  if accepted = [] then s
  else
    { s with
      invoked := s.invoked ++ accepted
      batches := s.batches ++ [{ calls := accepted }] }

def handleToolCalls (s : ToolCallState) (functionCalls : List FunctionCall) (write : Write) : ToolCallState :=
  let scan := functionCalls.foldl scanCall { state := s }
  (scan.state.acknowledgeDuplicates c scan.duplicates write).invoke scan.accepted

/-! ## The handlers -/

/-- `Promise.all`: the first rejection settles it, or the last resolution. -/
def settleBatch (answers : ℕ → Option Answer) (number : ℕ) (answer : Answer) (b : Batch) : Batch :=
  if b.outcome.isSome || !(b.calls.any (·.number = number)) then b
  else
    match answer with
    | .rejected message => { b with outcome := some (.error message) }
    | .resolved _ =>
      if b.calls.all fun call => (answers call.number).isSome then
        { b with outcome := some (.ok (b.calls.map fun call => (answers call.number).bind Answer.payload)) }
      else b

def settle (s : ToolCallState) (number : ℕ) (answer : Answer) : ToolCallState :=
  if s.invoked.any (·.number = number) && (s.answers number).isNone then
    let answers := Function.update s.answers number (some answer)
    { s with
      answers
      batches := s.batches.map (settleBatch answers number answer) }
  else s

def payloads : Except JsString (List (Option Json)) → List (Option Json)
  | .ok payloads => payloads
  | .error _ => []

/-- A failing handler's error. -/
def reportFailure (s : ToolCallState) : Except JsString (List (Option Json)) → ToolCallState
  | .ok _ => s
  | .error message => s.emitError (js "a tool handler failed: " ++ message)

/-- The code after the await. -/
def resume (s : ToolCallState) (i : ℕ) (write : Write) : ToolCallState :=
  match s.batches[i]? with
  | none => s
  | some b =>
    match b.continued, b.outcome with
    | false, some outcome =>
      let s := { s with batches := s.batches.modify i fun b => { b with continued := true } }.reportFailure outcome
      if c.ackToolCalls then s.acknowledge (responses c b.calls (payloads outcome)) write else s
    | _, _ => s

def step (s : ToolCallState) : ToolCallEvent → ToolCallState
  | .toolCall functionCalls write => s.handleToolCalls c functionCalls write
  | .settle number answer => s.settle number answer
  | .resume batch write => s.resume c batch write

end ToolCallState

end PiWebUi.Voice.ToolCalls
