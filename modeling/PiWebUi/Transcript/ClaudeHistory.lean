/-
  PiWebUi.Transcript.ClaudeHistory — the reader of Claude's session files
  (packages/session-core/src/readers/claude-history-replay.ts).

  A file holds one entry a line; `historyToReplayEvents` turns them into the events of a
  replay. Consecutive assistant entries are one message. A tool entry without its output
  is pending until a result names it, a result without an id or with a generated one
  (`tc_<session>_<time>`) that names no pending tool closes all pending tools, and so do
  the next assistant entry and the next `meta` without `createdAt`, with a placeholder.
-/

import PiWebUi.Transcript.Fold

namespace PiWebUi.Transcript

open PiWebUi.Lib PiWebUi.Lib.JsNumber

inductive EntryType
  | meta_
  | user
  | assistant
  | tool
  | toolResult
  | error
  deriving DecidableEq

structure ClaudeMessageEntry where
  type : EntryType
  claudeSessionId : Option JsString := none
  cwd : Option JsString := none
  model : Option JsString := none
  createdAt : Option JsString := none
  content : Option JsString := none
  toolName : Option JsString := none
  toolCallId : Option JsString := none
  toolInput : Option Json := none
  toolOutput : Option JsString := none
  isError : Option Bool := none
  code : Option JsString := none
  reauthRequired : Option Bool := none
  timestamp : JsNumber
  deriving DecidableEq

/-! ## One entry -/

/-- `value || {}` -/
def orEmptyObject : Option Json → Json
  | none | some .null | some (.bool false) | some (.str []) => .obj []
  | some (.num x) => if x = .nan ∨ x = .fin 0 then .obj [] else .num x
  | some v => v

/-- The own properties of an object literal that are not `undefined`. -/
def definedFields (fields : List (String × Option Json)) : Json :=
  .obj (fields.filterMap fun f => f.2.map (js f.1, ·))

/-- `entry.toolCallId || ...`: the id a tool or a result goes by. -/
def toolId (entry : ClaudeMessageEntry) : JsString :=
  (truthy entry.toolCallId).getD (js "tool_" ++ entry.timestamp.toText)

def userId (entry : ClaudeMessageEntry) : JsString := js "user_" ++ entry.timestamp.toText

def asstId (entry : ClaudeMessageEntry) : JsString := js "asst_" ++ entry.timestamp.toText

def toolResultEvent (toolCallId text : JsString) (isError : Bool) : BufferItem Json :=
  .event (.toolEnd { toolCallId := some toolCallId } (.content [some text]) isError)

def claudeEntryToEvent (entry : ClaudeMessageEntry) : List (BufferItem Json) :=
  match entry.type with
  | .meta_ =>
    [.other (definedFields [("type", some (.str (js "session_init"))), ("model", entry.model.map .str),
      ("cwd", entry.cwd.map .str), ("claudeSessionId", entry.claudeSessionId.map .str),
      ("timestamp", some (.num entry.timestamp))])]
  | .user =>
    [.event (.messageStart { id := some (userId entry), role := some userRole, content := some (.text (entry.content.getD [])) }),
      .event (.messageEnd (some { id := some (userId entry) }))]
  | .assistant => []
  | .tool =>
    .event (.toolStart {
      toolCallId := some (toolId entry)
      toolName := some ((truthy entry.toolName).getD (js "unknown"))
      args := some (orEmptyObject entry.toolInput) }) ::
    match entry.toolOutput with
    | some output => [toolResultEvent (toolId entry) output (entry.isError.getD false)]
    | none => []
  | .toolResult => [toolResultEvent (toolId entry) (entry.toolOutput.getD []) (entry.isError.getD false)]
  | .error =>
    [.other (definedFields [("type", some (.str (js "error"))),
      ("message", some (.str ((truthy entry.content).getD (js "Claude Direct error")))), ("code", entry.code.map .str),
      ("reauthRequired", entry.reauthRequired.map .bool), ("timestamp", some (.num entry.timestamp))])]

/-! ## The whole file -/

def closePendingTools (pendingTools : List JsString) (text : JsString) (isError : Bool) : List (BufferItem Json) :=
  pendingTools.map (toolResultEvent · text isError)

/-- `/^tc_[^_]+_\d+$/` -/
def isGeneratedFallbackToolCallId (toolCallId : JsString) : Bool :=
  toolCallId.take 3 == js "tc_" &&
    (let rest := toolCallId.drop 3
     let digits := (rest.dropWhile (· ≠ unit '_')).drop 1
     !(rest.takeWhile (· ≠ unit '_')).isEmpty && !digits.isEmpty && digits.all isDigit)

def noResultText : JsString :=
  js "No result captured for this tool call. It may have been interrupted or the result was not persisted."

def isAssistant (entry : ClaudeMessageEntry) : Bool := entry.type = .assistant

/-- `coalescedText.join('')` -/
def coalescedText (run : List ClaudeMessageEntry) : JsString := run.flatMap (·.content.getD [])

def assistantEvents (msgId text : JsString) : List (BufferItem Json) :=
  [.event (.messageStart { id := some msgId, role := some assistantRole })] ++
  (if text = [] then [] else [.event (.messageUpdate (some msgId) (some ⟨.textDelta, some text⟩))]) ++
  [.event (.messageEnd (some { id := some msgId }))]

/-- The loop, from the entries still to be read. -/
def replayLoop (pendingTools : List JsString) : List ClaudeMessageEntry → List (BufferItem Json)
  | [] => []
  | entry :: rest =>
    match entry.type with
    | .assistant =>
      closePendingTools pendingTools noResultText false ++
        assistantEvents (asstId entry) (coalescedText (entry :: rest.takeWhile isAssistant)) ++
        replayLoop [] (rest.dropWhile isAssistant)
    | .tool =>
      claudeEntryToEvent entry ++
        replayLoop (if entry.toolOutput = none then pendingTools ++ [toolId entry] else pendingTools) rest
    | .toolResult =>
      let output := entry.toolOutput.getD []
      let isError := entry.isError.getD false
      match truthy entry.toolCallId with
      | some explicitToolCallId =>
        if explicitToolCallId ∈ pendingTools then
          toolResultEvent explicitToolCallId output isError :: replayLoop (pendingTools.erase explicitToolCallId) rest
        else if pendingTools ≠ [] ∧ isGeneratedFallbackToolCallId explicitToolCallId then
          closePendingTools pendingTools output isError ++ replayLoop [] rest
        else claudeEntryToEvent entry ++ replayLoop pendingTools rest
      | none =>
        if pendingTools ≠ [] then closePendingTools pendingTools output isError ++ replayLoop [] rest
        else claudeEntryToEvent entry ++ replayLoop pendingTools rest
    | .meta_ =>
      if truthy entry.createdAt = none then
        closePendingTools pendingTools noResultText false ++ (claudeEntryToEvent entry ++ replayLoop [] rest)
      else claudeEntryToEvent entry ++ replayLoop pendingTools rest
    | _ => claudeEntryToEvent entry ++ replayLoop pendingTools rest
  termination_by entries => entries.length
  decreasing_by
    · have := (List.dropWhile_sublist isAssistant (l := rest)).length_le
      simp only [List.length_cons]
      omega
    all_goals simp only [List.length_cons]; omega

def historyToReplayEvents (entries : List ClaudeMessageEntry) : List (BufferItem Json) := replayLoop [] entries

end PiWebUi.Transcript
