/-
  PiWebUi.Transcript.PiHistory — the reader of Pi's session files for a session switch
  (packages/session-core/src/readers/pi-session-history.ts).

  Every entry is any JSON value. A user's or an assistant's entry is a message; the tool calls
  of an assistant's entry wait for their results, in the order they were called, and a result
  makes its call a tool's message. The calls that still wait at the end follow without a
  result.
-/

import PiWebUi.Transcript.Model
import PiWebUi.Transcript.SubagentSummary
import PiWebUi.Lib.JsText

namespace PiWebUi.Transcript

open PiWebUi.Lib

inductive HistoryRole
  | user
  | assistant
  | tool
  deriving DecidableEq

structure BackgroundIdentity where
  taskId : JsString
  runId : Option JsString
  kind : Option JsString
  model : Option JsString
  deriving DecidableEq

structure HistoryToolResult where
  output : JsString
  isError : Bool
  summary : Option SubagentToolSummary := none
  background : Option BackgroundIdentity := none
  deriving DecidableEq

structure PiSessionHistoryMessage where
  id : JsString
  role : HistoryRole
  content : Content
  timestamp : JsNumber
  toolCall : Option ToolCall := none
  toolResult : Option HistoryToolResult := none
  deriving DecidableEq

structure PendingToolCall where
  call : ToolCall
  timestamp : JsNumber
  deriving DecidableEq

def isSubagentTool (name : JsString) : Bool := name = subagentTool || name = evaluatedSubagentTool

/-! ## A message -/

def visiblePart (item : Json) : Option ContentPart :=
  if field item "type" = some (.str (js "thinking")) then
    some { type := .thinking, thinking := some ((asText (field item "thinking")).getD []) }
  else if field item "type" = some (.str (js "text")) then
    some { type := .text, text := some ((asText (field item "text")).getD []) }
  else none

def visibleContent (content : Option Json) : Content :=
  match content with
  | some (.arr items) => .parts (items.filterMap visiblePart)
  | _ => .text []

/-- The first match of `/<skill name="([^"]+)"/`, its name. -/
def skillName : JsString → Option JsString
  | [] => none
  | u :: r =>
    let name := ((u :: r).drop 13).takeWhile (· ≠ 34)
    if (js "<skill name=\"").isPrefixOf (u :: r) && name ≠ [] && ((u :: r).drop (13 + name.length)).head? = some 34 then some name
    else skillName r

def skillPlaceholder (content : Content) : Option JsString :=
  let text :=
    match content with
    | .parts ps => ps.flatMap fun part => part.text.getD []
    | .text s => s
  let isSkill := includes text (js "<skill name=\"") && includes text (js "</skill>")
  if !isSkill && !includes text (js "# Lecture Website Builder") then none
  else
    match skillName text with
    | some name => some (js "📚 **Skill loaded: " ++ name ++ js "**")
    | none => some (js "📚 **Skill loaded**")

/-- The message of a `message` entry. -/
def entryMessage (entry : Json) : Option Json :=
  if field entry "type" = some (.str (js "message")) && isRecord (field entry "message") then field entry "message" else none

/-- `Date.now()` is `now`. -/
def messageTime (now : JsNumber) (message : Json) : JsNumber :=
  match field message "timestamp" with
  | some (.num x) => x
  | _ => now

/-- The message of a user's or an assistant's entry. -/
def spokenMessage (now : JsNumber) (role : HistoryRole) (entry message : Json) : PiSessionHistoryMessage :=
  let timestamp := messageTime now message
  let content := visibleContent (field message "content")
  { id := (asText (field entry "id")).getD (js "msg_" ++ timestamp.toText)
    role
    content :=
      match skillPlaceholder content with
      | some placeholder => .parts [{ type := .text, text := some placeholder }]
      | none => content
    timestamp }

def blockCall (block : Json) : Option ToolCall :=
  if field block "type" = some (.str (js "toolCall")) then do
    let id ← asText (field block "id")
    let name ← asText (field block "name")
    return { id, name, args := field block "arguments" }
  else none

/-- The tool calls of an assistant's message. -/
def messageCalls (message : Json) : List ToolCall := (asList (field message "content")).filterMap blockCall

/-- What is read of an entry; of a result without an id of its call, nothing. -/
inductive EntryKind
  | spoken (role : HistoryRole) (message : Json)
  | result (toolCallId : JsString) (message : Json)
  | other

def entryKind (raw : Json) : EntryKind :=
  match entryMessage raw with
  | none => .other
  | some message =>
    if field message "role" = some (.str (js "user")) then .spoken .user message
    else if field message "role" = some (.str (js "assistant")) then .spoken .assistant message
    else if field message "role" = some (.str (js "toolResult")) then
      match asText (field message "toolCallId") with
      | none => .other
      | some toolCallId => .result toolCallId message
    else .other

/-- The tool calls of an entry, with their time. -/
def EntryKind.calls (now : JsNumber) : EntryKind → List PendingToolCall
  | .spoken .assistant message => (messageCalls message).map (⟨·, messageTime now message⟩)
  | _ => []

/-! ## A result -/

def summaryIsError (message : Json) (summary : SubagentToolSummary) : Bool :=
  match field message "isError" with
  | some (.bool b) => b
  | _ => summary.agents.any fun agent => agent.timedOut = some true || (agent.exitCode.isSome && agent.exitCode ≠ some (.fin 0))

def backgroundIdentity (message : Json) : Option BackgroundIdentity := do
  let background := field (field message "details") "background"
  let taskId ← asText (field background "taskId")
  return { taskId
           runId := asText (field background "runId")
           kind := asText (field background "kind")
           model := asText (field background "model") }

def outputText (message : Json) : JsString :=
  match field message "content" with
  | some (.str s) => s
  | some (.arr items) => joinLines ((items.filter fun item => isRecord item).map fun item => (asText (field item "text")).getD [])
  | _ => (asText (field message "text")).getD []

def toolMessage (call : ToolCall) (timestamp : JsNumber) (toolResult : Option HistoryToolResult) : PiSessionHistoryMessage :=
  { id := call.id, role := .tool, content := .parts [], timestamp, toolCall := some call, toolResult }

/-- The message that a result makes of its call. -/
def resultMessage (now : JsNumber) (call : ToolCall) (message : Json) : Option PiSessionHistoryMessage :=
  if isSubagentTool call.name then
    match summarizeSubagentDetails call.name (field message "details") with
    | none => none
    | some summary => some (toolMessage call (messageTime now message) (some {
        output := []
        isError := summaryIsError message summary
        summary := some summary
        background := backgroundIdentity message }))
  else some (toolMessage call (messageTime now message) (some {
    output := outputText message
    isError := field message "isError" = some (.bool true) }))

/-! ## The history -/

structure PiHistory where
  messages : List PiSessionHistoryMessage := []
  pending : JsMap JsString PendingToolCall := JsMap.empty

namespace PiHistory

variable (now : JsNumber)

def call (h : PiHistory) (waiting : PendingToolCall) : PiHistory :=
  { h with pending := h.pending.set waiting.call.id waiting }

def entry (h : PiHistory) (raw : Json) : PiHistory :=
  match entryKind raw with
  | .spoken role message =>
    ((entryKind raw).calls now).foldl call { h with messages := h.messages ++ [spokenMessage now role raw message] }
  | .result toolCallId message =>
    match h.pending.get toolCallId with
    | none => h
    | some waiting =>
      { messages := h.messages ++ (resultMessage now waiting.call message).toList
        pending := h.pending.delete toolCallId }
  | .other => h

/-- The calls that still wait follow at the end. -/
def finish (h : PiHistory) : List PiSessionHistoryMessage :=
  h.messages ++ h.pending.values.map fun waiting => toolMessage waiting.call waiting.timestamp none

end PiHistory

def parsePiSessionHistory (now : JsNumber) (entries : List Json) : List PiSessionHistoryMessage :=
  (entries.foldl (PiHistory.entry now) {}).finish

end PiWebUi.Transcript
