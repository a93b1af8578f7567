/-
  PiWebUi.Transcript.Model — the rows of a session and the events they are built from
  (packages/session-core/src/model.ts, packages/session-core/src/fold.ts).

  A row is a message or a tool call; its content is a text or a list of parts. The events
  carry what the wire sends: any field may be missing, and an empty id counts as missing.
  What a delta does to a content, and what a tool's result reads as, is shared by the
  history fold and the live handlers.
-/

import PiWebUi.Lib.Json
import PiWebUi.Lib.JsNumber
import PiWebUi.Lib.FirstFree

namespace PiWebUi.Transcript

open PiWebUi.Lib PiWebUi.Lib.JsNumber

/-! ## Rows -/

inductive PartType
  | text
  | thinking
  | other (name : JsString)
  deriving DecidableEq

structure ContentPart where
  type : PartType
  text : Option JsString := none
  thinking : Option JsString := none
  deriving DecidableEq

inductive Content
  | text (s : JsString)
  | parts (ps : List ContentPart)
  deriving DecidableEq

structure ToolCall where
  id : JsString
  name : JsString
  args : Option Json
  deriving DecidableEq

structure ToolResult where
  output : JsString
  isError : Bool
  deriving DecidableEq

structure MessageError where
  message : JsString
  provider : Option JsString
  model : Option JsString
  deriving DecidableEq

/-- `role` is missing where the wire sent none and nothing stood in for it. -/
structure Message where
  id : JsString
  role : Option JsString
  customType : Option JsString := none
  content : Content
  timestamp : ℕ
  toolCall : Option ToolCall := none
  toolResult : Option ToolResult := none
  error : Option MessageError := none
  deriving DecidableEq

def userRole : JsString := js "user"

def assistantRole : JsString := js "assistant"

def toolRole : JsString := js "tool"

/-! ## Events -/

structure WireMessage where
  id : Option JsString := none
  role : Option JsString := none
  content : Option Content := none
  customType : Option JsString := none
  deriving DecidableEq

inductive DeltaType
  | textDelta
  | thinkingDelta
  | other
  deriving DecidableEq

/-- `delta` is missing where it is not a string. -/
structure AssistantEvent where
  type : DeltaType
  delta : Option JsString
  deriving DecidableEq

/-- `absent` is `undefined` or `null`, `scalar` a number or a boolean. -/
inductive ResultValue
  | absent
  | scalar
  | text (s : JsString)
  | content (texts : List (Option JsString))
  | object (v : Json)
  deriving DecidableEq

/-- The names a tool event goes by: `toolCallId ?? id`, `toolName ?? name`, `args ?? input`. -/
structure ToolFields where
  toolCallId : Option JsString := none
  id : Option JsString := none
  toolName : Option JsString := none
  name : Option JsString := none
  args : Option Json := none
  input : Option Json := none
  deriving DecidableEq

inductive Event
  | messageStart (message : WireMessage)
  | messageUpdate (id : Option JsString) (assistantEvent : Option AssistantEvent)
  | messageEnd (message : Option WireMessage)
  | toolStart (raw : ToolFields)
  | toolEnd (raw : ToolFields) (result : ResultValue) (isError : Bool)
  deriving DecidableEq

/-- `value || undefined`: an empty text is none. -/
def truthy : Option JsString → Option JsString
  | some [] => none
  | v => v

theorem truthy_of_ne_nil {s : JsString} (h : s ≠ []) : truthy (some s) = some s := by
  cases s with
  | nil => exact absurd rfl h
  | cons u us => rfl

theorem ne_nil_of_truthy {v : Option JsString} {s : JsString} (h : truthy v = some s) : s ≠ [] := by
  rintro rfl
  cases v with
  | none => cases h
  | some t =>
    cases t with
    | nil | cons u us => cases h

/-- `a ?? b` of JSON values: `null` gives way. -/
def nullish : Option Json → Option Json → Option Json
  | none, b => b
  | some .null, b => b
  | some v, _ => some v

theorem nullish_of_ne_null {v : Json} (h : v ≠ .null) (b : Option Json) : nullish (some v) b = some v := by
  unfold nullish
  split
  · next heq => cases heq
  · next heq => exact absurd (Option.some.inj heq) h
  · next heq => exact heq.symm

def ToolFields.callId (raw : ToolFields) : Option JsString := raw.toolCallId <|> raw.id

def ToolFields.callName (raw : ToolFields) : Option JsString := raw.toolName <|> raw.name

def ToolFields.callArgs (raw : ToolFields) : Option Json := nullish raw.args raw.input

def extractToolResultText : ResultValue → JsString
  | .absent | .scalar => []
  | .text s => s
  | .content texts => texts.flatMap (·.getD [])
  | .object v => v.stringify

/-! ## Contents -/

/-- The parts a delta is appended to. -/
def Content.toParts : Content → List ContentPart
  | .parts ps => ps
  | .text [] => []
  | .text (u :: us) => [{ type := .text, text := some (u :: us) }]

/-- The last part grows if it is of the type; otherwise a fresh one is pushed. -/
def appendPart (type : PartType) (grow : ContentPart → ContentPart) (fresh : ContentPart) (ps : List ContentPart) :
    List ContentPart :=
  match ps.getLast? with
  | some lastEntry => if lastEntry.type = type then ps.dropLast ++ [grow lastEntry] else ps ++ [fresh]
  | none => [fresh]

/-- `none`: the event changes nothing. -/
def appendDelta (c : Content) (e : AssistantEvent) : Option Content :=
  match e.type, e.delta with
  | .textDelta, some delta =>
    some (.parts (appendPart .text (fun p => { p with text := some (p.text.getD [] ++ delta) })
      { type := .text, text := some delta } c.toParts))
  | .thinkingDelta, some delta =>
    some (.parts (appendPart .thinking (fun p => { p with thinking := some (p.thinking.getD [] ++ delta) })
      { type := .thinking, thinking := some delta } c.toParts))
  | _, _ => none

/-- The content of a row the wire sent none for. -/
def WireMessage.initialContent (m : WireMessage) : Content :=
  m.content.getD (if m.role = some userRole then .text [] else .parts [])

/-! ## Ids -/

scoped instance (id : JsString) (ids : List JsString) : Decidable (id ∈ ids) :=
  decidable_of_iff (ids.contains id) List.contains_iff_mem

/-- The ids tried for a wire id: itself, then suffixed `#2`, `#3`, … -/
def storageCandidate (wireId : JsString) : ℕ → JsString
  | 0 => wireId
  | n + 1 => wireId ++ js "#" ++ natText (n + 2)

theorem storageCandidate_injective (wireId : JsString) : Function.Injective (storageCandidate wireId) := by
  have hlong : ∀ n, storageCandidate wireId 0 ≠ storageCandidate wireId (n + 1) := by
    intro n h
    have hlen := congrArg List.length h
    have hpos : 0 < (js "#").length := by decide
    simp only [storageCandidate, List.length_append] at hlen
    omega
  intro m n h
  cases m with
  | zero =>
    cases n with
    | zero => rfl
    | succ n => exact absurd h (hlong n)
  | succ m =>
    cases n with
    | zero => exact absurd h.symm (hlong m)
    | succ n =>
      have := natText_injective (List.append_cancel_left h)
      omega

end PiWebUi.Transcript
