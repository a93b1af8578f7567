/-
  PiWebUi.Transcript.StreamTransport — streaming events for a transport
  (server/src/pi/stream-transport.ts), and how the fold reads them.

  The provider's message grows while it is streamed, and the event that starts it shares
  its content: what is read of it then is whatever has been streamed by then. A start is
  sent with the types of its blocks alone, an update without the message it has grown to.
  A copy of a value is the value here, so what is detached stays as it is.
-/

import PiWebUi.EventBroker.PayloadBudget
import PiWebUi.Transcript.Fold

namespace PiWebUi.Transcript

open PiWebUi.Lib

abbrev EventFields := List (JsString × Json)

/-! ## The projection -/

def MESSAGE_IDENTITY_FIELDS : List JsString := ["id", "role", "stopReason", "errorMessage"].map js

def slimStreamingMessage : Json → Json
  | .obj source => .obj (MESSAGE_IDENTITY_FIELDS.filterMap fun key => ((Json.obj source).get key).map fun v => (key, v))
  | message => message

/-- The array and its blocks are copied. -/
def detachMessageContent (message : Json) : Json := message

def SKILL_CONTENT_MARKER : JsString := js "skill-content"

def isSkillMarkedMessage (message : Json) : Bool := message.get (js "customType") = some (.str SKILL_CONTENT_MARKER)

/-- `{ ...typed, [key]: typeof typed[key] === 'string' ? '' : typed[key] }` -/
def emptied (typed : EventFields) (key : String) : EventFields :=
  match (Json.obj typed).get (js key) with
  | some (.str _) => Json.setField typed (js key) (.str [])
  | _ => typed

def neutraliseBlock : Json → Json
  | .obj typed =>
    if (Json.obj typed).get (js "type") = some (.str (js "text")) then .obj (emptied typed "text")
    else if (Json.obj typed).get (js "type") = some (.str (js "thinking")) then .obj (emptied typed "thinking")
    else .obj typed
  | block => block

def neutraliseStreamedStartContent : Json → Json
  | .obj source =>
    match (Json.obj source).get (js "content") with
    | some (.arr content) => .obj (Json.setField source (js "content") (.arr (content.map neutraliseBlock)))
    | _ => .obj source
  | message => message

/-- `{ ...event, [key]: f(event[key]) }` -/
def withField (event : EventFields) (key : String) (f : Json → Json) : EventFields :=
  EventBroker.setSome event (js key) (((Json.obj event).get (js key)).map f)

def startMessage (message : Json) : Json :=
  let detached := detachMessageContent message
  if detached.get (js "role") = some (.str (js "assistant")) && !isSkillMarkedMessage detached then neutraliseStreamedStartContent detached
  else detached

def projectStreamingEventForTransport (event : EventFields) : EventFields :=
  if (Json.obj event).get (js "type") = some (.str (js "message_update")) then
    withField (withField event "message" slimStreamingMessage) "assistantMessageEvent" EventBroker.stripAssistantMessageEventPartial
  else if (Json.obj event).get (js "type") = some (.str (js "message_start")) then withField event "message" startMessage
  else event

/-! ## What the fold reads of an event -/

def readText (v : Option Json) : Option JsString :=
  match v with
  | some (.str s) => some s
  | _ => none

def readPart (block : Json) : ContentPart where
  type :=
    if block.get (js "type") = some (.str (js "text")) then .text
    else if block.get (js "type") = some (.str (js "thinking")) then .thinking
    else .other ((readText (block.get (js "type"))).getD [])
  text := readText (block.get (js "text"))
  thinking := readText (block.get (js "thinking"))

def readContent : Json → Option Content
  | .str s => some (.text s)
  | .arr blocks => some (.parts (blocks.map readPart))
  | _ => none

def readMessage (message : Json) : WireMessage where
  id := readText (message.get (js "id"))
  role := readText (message.get (js "role"))
  content := (message.get (js "content")).bind readContent
  customType := readText (message.get (js "customType"))

def readDelta (e : Json) : AssistantEvent where
  type :=
    if e.get (js "type") = some (.str (js "text_delta")) then .textDelta
    else if e.get (js "type") = some (.str (js "thinking_delta")) then .thinkingDelta
    else .other
  delta := readText (e.get (js "delta"))

/-- The events of a message. -/
def readEvent (event : EventFields) : Option Event :=
  let message := (Json.obj event).get (js "message")
  if (Json.obj event).get (js "type") = some (.str (js "message_start")) then
    some (.messageStart ((message.map readMessage).getD {}))
  else if (Json.obj event).get (js "type") = some (.str (js "message_update")) then
    some (.messageUpdate (message.bind fun m => readText (m.get (js "id")))
      (((Json.obj event).get (js "assistantMessageEvent")).map readDelta))
  else if (Json.obj event).get (js "type") = some (.str (js "message_end")) then some (.messageEnd (message.map readMessage))
  else none

end PiWebUi.Transcript
