/-
  PiWebUi.CommandCode.NdjsonParser — Command Code's print stream
  (server/src/command-code/command-code-ndjson-parser.ts).

  Chunks are decoded and cut into lines; a line is an event frame, the terminal result, or
  noise that is dropped and counted. Of cumulative snapshots what is new is kept. An error is
  its message and ends the run. `consumeLine` and what it calls work on what was parsed so
  far (`Parsed`); the rest of a line and the bytes are the stream's (`CommandCodeNdjsonParser`).
-/

import PiWebUi.Lib.JsMap
import PiWebUi.Lib.JsText
import PiWebUi.Lib.Utf8

namespace PiWebUi.CommandCode

open PiWebUi.Lib

abbrev Fields := List (JsString × Json)

structure ParsedCommandCodeEvent where
  event : Fields
  lineNumber : ℕ
  deriving DecidableEq

structure DroppedLine where
  lineNumber : ℕ
  sample : JsString
  deriving DecidableEq

structure CommandCodeParserOptions where
  maxLineBytes : ℕ := 512 * 1024
  maxAggregateBytes : ℕ := 8 * 1024 * 1024
  maxUnknownEvents : ℕ := 100

structure Parsed where
  lineCount : ℕ := 0
  terminal : Option Fields := none
  events : List ParsedCommandCodeEvent := []
  unknownEventTypes : List JsString := []
  suppressedDuplicateCount : ℕ := 0
  droppedLineCount : ℕ := 0
  droppedLineSamples : List DroppedLine := []
  cumulativeSnapshots : JsMap JsString JsString := JsMap.empty

structure CommandCodeNdjsonParser where
  buffer : JsString := []
  bytes : ℕ := 0
  parsed : Parsed := {}

structure ParsedCommandCodeOutput where
  events : List ParsedCommandCodeEvent
  terminal : Fields
  unknownEventTypes : List JsString
  suppressedDuplicateCount : ℕ
  droppedLineCount : ℕ
  droppedLineSamples : List DroppedLine
  bytes : ℕ
  lineCount : ℕ
  deriving DecidableEq

def maxDroppedLineSamples : ℕ := 5

def maxDroppedLineSampleChars : ℕ := 200

def knownEventTypes : List JsString :=
  ["session_start", "session_end", "turn_start", "turn_end", "message_start", "message_update", "message_end", "tool_start",
    "tool_execution_start", "tool_update", "tool_execution_update", "tool_result", "tool_execution_end", "thinking", "reasoning",
    "usage", "compaction_start", "compaction_end", "error", "heartbeat", "run_start", "run_end", "model_request_start",
    "model_request_end", "model_trace", "thinking_start", "thinking_delta", "thinking_end", "text_delta"].map js

/-! ## Fields -/

def property (fields : Fields) (key : String) : Option Json := (Json.obj fields).get (js key)

def textProperty (fields : Fields) (key : String) : Option JsString :=
  match property fields key with
  | some (.str s) => some s
  | _ => none

/-- `fields[key] === true` -/
def isTrue (fields : Fields) (key : String) : Bool := property fields key = some (.bool true)

/-- `{ ...event, text: suffix, cumulative: false }` -/
def withSuffix (event : Fields) (suffix : JsString) : Fields :=
  Json.setField (Json.setField event (js "text") (.str suffix)) (js "cumulative") (.bool false)

/-! ## Event frames -/

/-- The key a snapshot is remembered under. -/
def textKey (event : Fields) (type : JsString) : JsString :=
  ((textProperty event "messageId").or (textProperty event "contentId")).getD type

def snapshotText (event : Fields) : Option JsString := (textProperty event "text").or (textProperty event "content")

def isCumulative (event : Fields) : Bool := isTrue event "cumulative" || isTrue event "snapshot"

namespace Parsed

variable (o : CommandCodeParserOptions)

def noteUnknown (p : Parsed) (event : Fields) (type : JsString) : Parsed :=
  if type = js "unknown" || isTrue event "unknown" || property event "known" = some (.bool false) || type ∉ knownEventTypes then
    if p.unknownEventTypes.length < o.maxUnknownEvents then { p with unknownEventTypes := p.unknownEventTypes ++ [type] } else p
  else p

def emit (p : Parsed) (event : Fields) (lineNumber : ℕ) : Parsed := { p with events := p.events ++ [⟨event, lineNumber⟩] }

def suppress (p : Parsed) : Parsed := { p with suppressedDuplicateCount := p.suppressedDuplicateCount + 1 }

def remember (p : Parsed) (key text : JsString) : Parsed := { p with cumulativeSnapshots := p.cumulativeSnapshots.set key text }

/-- An event of a type: what is new of a cumulative text, or the event as it is. -/
def acceptEvent (p : Parsed) (event : Fields) (type : JsString) (lineNumber : ℕ) : Parsed :=
  let key := textKey event type
  match if isCumulative event then snapshotText event else none with
  | none => (p.noteUnknown o event type).emit event lineNumber
  | some text =>
    let previous := (p.cumulativeSnapshots.get key).getD []
    if text = previous then p.suppress
    else if previous.isPrefixOf text then
      (p.remember key text).emit (withSuffix event (text.drop previous.length)) lineNumber
    else ((p.remember key text).noteUnknown o event type).emit event lineNumber

def consumeEvent (p : Parsed) (frame : Fields) (lineNumber : ℕ) : Except JsString Parsed :=
  match property frame "event" with
  | some (.obj event) =>
    match textProperty event "type" with
    | some type =>
      if type = [] || 160 < type.length then
        .error (js "Malformed Command Code event type at line " ++ JsNumber.natText lineNumber)
      else .ok (p.acceptEvent o event type lineNumber)
    | none => .error (js "Malformed Command Code event type at line " ++ JsNumber.natText lineNumber)
  | _ => .error (js "Malformed Command Code event frame " ++ JsNumber.natText lineNumber)

/-! ## The terminal result -/

def isTextOrAbsent (v : Option Json) : Bool :=
  match v with
  | none | some (.str _) => true
  | _ => false

def consumeResult (p : Parsed) (frame : Fields) : Except JsString Parsed :=
  if textProperty frame "subtype" ∉ [some (js "success"), some (js "error"), some (js "max_turns")] then
    .error (js "Malformed Command Code terminal result subtype")
  else if !isTextOrAbsent (property frame "sessionId") then .error (js "Malformed Command Code native session id")
  else if !isTextOrAbsent (property frame "stopReason") then .error (js "Malformed Command Code stop reason")
  else if !isTextOrAbsent (property frame "finalText") then .error (js "Malformed Command Code final text")
  else .ok { p with terminal := some frame }

/-! ## Lines -/

def dropLine (p : Parsed) (line : JsString) : Parsed :=
  { p with
    droppedLineCount := p.droppedLineCount + 1
    droppedLineSamples :=
      if p.droppedLineSamples.length < maxDroppedLineSamples then
        p.droppedLineSamples ++ [⟨p.lineCount, line.take maxDroppedLineSampleChars⟩]
      else p.droppedLineSamples }

def consumeLine (p : Parsed) (line : JsString) : Except JsString Parsed :=
  let p := { p with lineCount := p.lineCount + 1 }
  if o.maxLineBytes < utf8Length line then
    .error (js "Command Code stdout line " ++ JsNumber.natText p.lineCount ++ js " exceeded byte limit")
  else if trim line = [] then .ok p
  else
    match Json.parse line with
    | some (.obj frame) =>
      if p.terminal.isSome then .error (js "Command Code emitted data after its terminal result")
      else if textProperty frame "type" = some (js "event") then p.consumeEvent o frame p.lineCount
      else if textProperty frame "type" = some (js "result") then p.consumeResult frame
      else .error (js "Unknown Command Code top-level frame type: " ++ ((property frame "type").map Json.toText).getD (js "undefined"))
    | _ => .ok (p.dropLine line)

end Parsed

/-! ## Chunks -/

/-- `line.replace(/\r$/, '')` -/
def stripReturn (line : JsString) : JsString := if line.getLast? = some 13 then line.dropLast else line

inductive Chunk where
  | text (s : JsString)
  | bytes (bs : List ℕ)

/-- `new TextDecoder().decode(chunk)`: a byte order mark at its beginning is left out. -/
def textDecode (bs : List ℕ) : JsString :=
  match Utf8.decode bs with
  | u :: r => if u = 0xFEFF then r else u :: r
  | [] => []

def Chunk.toText : Chunk → JsString
  | .text s => s
  | .bytes bs => textDecode bs

namespace CommandCodeNdjsonParser

variable (o : CommandCodeParserOptions)

/-- The lines that are complete are consumed, one after another; what is begun is kept. -/
def takeLines (p : CommandCodeNdjsonParser) (text : JsString) : Except JsString CommandCodeNdjsonParser := do
  let parts := lines (p.buffer ++ text)
  let parsed ← parts.dropLast.foldlM (fun parsed line => parsed.consumeLine o (stripReturn line)) p.parsed
  return { p with parsed, buffer := parts.getLastD [] }

def push (p : CommandCodeNdjsonParser) (chunk : Chunk) : Except JsString CommandCodeNdjsonParser :=
  let p := { p with bytes := p.bytes + utf8Length chunk.toText }
  if o.maxAggregateBytes < p.bytes then .error (js "Command Code stdout exceeded aggregate byte limit")
  else p.takeLines o chunk.toText

/-- `exitCode ?? signal ?? 'unknown'` -/
def exitText (exitCode : Option ℤ) (signal : Option JsString) : JsString :=
  match exitCode with
  | some (.ofNat n) => JsNumber.natText n
  | some (.negSucc n) => js "-" ++ JsNumber.natText (n + 1)
  | none => signal.getD (js "unknown")

/-- What is begun of a line at the end is one. -/
def lastLine (p : CommandCodeNdjsonParser) : Except JsString Parsed :=
  if trim p.buffer = [] then .ok p.parsed else p.parsed.consumeLine o (stripReturn p.buffer)

def output (bytes : ℕ) (exitCode : Option ℤ) (signal : Option JsString) (parsed : Parsed) : Except JsString ParsedCommandCodeOutput :=
  match parsed.terminal with
  | none => .error (js "Command Code stream ended without a terminal result")
  | some terminal =>
    if textProperty terminal "subtype" = some (js "success") && exitCode ≠ some 0 then
      .error (js "Command Code result/exit contradiction: success with exit " ++ exitText exitCode signal)
    else
      .ok {
        events := parsed.events
        terminal
        unknownEventTypes := parsed.unknownEventTypes
        suppressedDuplicateCount := parsed.suppressedDuplicateCount
        droppedLineCount := parsed.droppedLineCount
        droppedLineSamples := parsed.droppedLineSamples
        bytes
        lineCount := parsed.lineCount }

def finish (p : CommandCodeNdjsonParser) (exitCode : Option ℤ) (signal : Option JsString) : Except JsString ParsedCommandCodeOutput :=
  p.lastLine o >>= output p.bytes exitCode signal

/-- The chunks are pushed one after another, and the stream ends. -/
def run (chunks : List Chunk) (exitCode : Option ℤ) (signal : Option JsString) : Except JsString ParsedCommandCodeOutput := do
  let p ← chunks.foldlM (push o) {}
  p.finish o exitCode signal

end CommandCodeNdjsonParser

end PiWebUi.CommandCode
