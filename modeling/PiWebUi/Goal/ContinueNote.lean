/-
  PiWebUi.Goal.ContinueNote — the tool call that was in flight when a goal stopped
  (`findInFlightToolCall`, continue-note.ts).

  The loop reads a transcript line by line and gathers the calls of the assistant messages
  and the ids that tool results answer; the last call with no id, or one that is not among
  them, was in flight. An id that is not a string is no id.
-/

import PiWebUi.Lib.JsText

namespace PiWebUi.Goal

open Lib List

structure InFlightToolCall where
  name : JsString
  argsSummary : JsString
  deriving DecidableEq

/-- A gathered call; its id when that is a string. -/
structure GatheredCall extends InFlightToolCall where
  id : Option JsString
  deriving DecidableEq

def ARGS_SUMMARY_MAX : ℕ := 120

/-- `typeof value === 'string' ? value : undefined`. -/
def stringValue : Option Json → Option JsString
  | some (.str s) => some s
  | _ => none

/-- `typeof value === 'object' && value !== null`. -/
def isObject : Json → Bool
  | .obj _ | .arr _ => true
  | _ => false

def itemsOf : Option Json → List Json
  | some (.arr xs) => xs
  | _ => []

/-- The text of the arguments; a parsed value is always serialisable. -/
def argumentsText : Option Json → JsString
  | none | some .null => []
  | some (.str s) => s
  | some v => v.stringify

def summariseArguments (args : Option Json) : JsString :=
  let flattened := trim (collapseSpace (argumentsText args))
  if flattened.length ≤ ARGS_SUMMARY_MAX then flattened else flattened.take ARGS_SUMMARY_MAX ++ js "…"

/-- The call of a content item. -/
def toolCallOf (item : Json) : Option GatheredCall :=
  if !isObject item then none
  else if item.get (js "type") ≠ some (.str (js "toolCall")) then none
  else some {
    name := (stringValue (item.get (js "name"))).getD (js "unknown")
    argsSummary := summariseArguments (item.get (js "arguments"))
    id := stringValue (item.get (js "id")) }

structure Gathered where
  calls : List GatheredCall
  answered : List JsString

inductive Thrown where
  | typeError (message : JsString)

/-- What a message adds to the calls or to the answered ids. -/
def gatherMessage (g : Gathered) (m : Json) : Gathered :=
  let role := (stringValue (m.get (js "role"))).getD []
  if role = js "toolResult" then { g with answered := g.answered ++ (stringValue (m.get (js "toolCallId"))).toList }
  else if role ≠ js "assistant" then g
  else { g with calls := g.calls ++ (itemsOf (m.get (js "content"))).filterMap toolCallOf }

/-- One line of the loop. -/
def gatherLine (g : Gathered) (line : JsString) : Except Thrown Gathered :=
  match Json.parse line with
  | none => .ok g
  | some .null => .error (.typeError (js "Cannot read properties of null (reading 'type')"))
  | some entry =>
    if entry.get (js "type") ≠ some (.str (js "message")) then .ok g
    else
      match entry.get (js "message") with
      | none => .ok g
      | some m => .ok (if isObject m then gatherMessage g m else g)

def gather (lines : List JsString) : Except Thrown Gathered := lines.foldlM gatherLine ⟨[], []⟩

/-- `call.id === undefined || !answered.has(call.id)`. -/
def unanswered (answered : List JsString) (call : GatheredCall) : Bool := call.id.all fun id => !answered.contains id

def findInFlightToolCall (lines : List JsString) : Except Thrown (Option InFlightToolCall) :=
  (gather lines).map fun g => (g.calls.reverse.find? (unanswered g.answered)).map (·.toInFlightToolCall)

/-! ## What a transcript holds -/

/-- The message of a line that is a message entry. -/
def messageOf (line : JsString) : Option Json :=
  (Json.parse line).bind fun entry =>
    if entry.get (js "type") = some (.str (js "message")) then (entry.get (js "message")).filter isObject else none

def messages (lines : List JsString) : List Json := lines.filterMap messageOf

def hasRole (role : JsString) (m : Json) : Bool := m.get (js "role") = some (.str role)

/-- The calls of all assistant messages, in transcript order. -/
def toolCalls (lines : List JsString) : List GatheredCall :=
  ((messages lines).filter (hasRole (js "assistant"))).flatMap fun m => (itemsOf (m.get (js "content"))).filterMap toolCallOf

/-- A tool result anywhere in the transcript names the id. -/
def Answered (lines : List JsString) (id : JsString) : Prop :=
  ∃ m ∈ messages lines, hasRole (js "toolResult") m = true ∧ m.get (js "toolCallId") = some (.str id)

def InFlight (lines : List JsString) (call : GatheredCall) : Prop := ∀ id, call.id = some id → ¬ Answered lines id

/-- The last call in flight, or nothing when each was answered. -/
def LastInFlight (lines : List JsString) : Option InFlightToolCall → Prop
  | none => ∀ call ∈ toolCalls lines, ¬ InFlight lines call
  | some found => ∃ before call after, toolCalls lines = before ++ call :: after ∧ call.toInFlightToolCall = found ∧
      InFlight lines call ∧ ∀ later ∈ after, ¬ InFlight lines later

/-! ## The loop gathers it -/

/-- The answered ids, in transcript order. -/
def answeredIds (lines : List JsString) : List JsString :=
  ((messages lines).filter (hasRole (js "toolResult"))).filterMap fun m => stringValue (m.get (js "toolCallId"))

theorem stringValue_eq_some {v : Option Json} {s : JsString} : stringValue v = some s ↔ v = some (.str s) := by
  cases v with
  | none => simp [stringValue]
  | some v => cases v <;> simp [stringValue]

theorem mem_answeredIds {lines : List JsString} {id : JsString} : id ∈ answeredIds lines ↔ Answered lines id := by
  simp only [answeredIds, Answered, mem_filterMap, mem_filter, stringValue_eq_some, and_assoc]

theorem role_eq {m : Json} {role : JsString} (hne : role ≠ []) :
    (stringValue (m.get (js "role"))).getD [] = role ↔ hasRole role m = true := by
  rw [hasRole, decide_eq_true_iff, ← stringValue_eq_some]
  cases hv : stringValue (m.get (js "role")) with
  | none => simp [hne.symm]
  | some s => simp

section

variable (g : Gathered) {line : JsString}
include g

/-- The loop reads the message of a line, when it has one. -/
theorem gatherLine_eq (h : Json.parse line ≠ some .null) : gatherLine g line = .ok ((messageOf line).elim g (gatherMessage g)) := by
  cases hp : Json.parse line with
  | none => simp [gatherLine, messageOf, hp]
  | some entry =>
    have hread : gatherLine g line =
        if entry.get (js "type") ≠ some (.str (js "message")) then .ok g
        else match entry.get (js "message") with
          | none => .ok g
          | some m => .ok (if isObject m then gatherMessage g m else g) := by
      rw [gatherLine, hp]
      cases entry with
      | null => exact absurd hp h
      | _ => rfl
    rw [hread, messageOf, hp, Option.bind_some]
    by_cases htype : entry.get (js "type") = some (.str (js "message"))
    · rw [if_neg (not_not.mpr htype), if_pos htype]
      cases entry.get (js "message") with
      | none => rfl
      | some m => cases hobj : isObject m <;> simp [Option.filter, hobj]
    · rw [if_pos htype, if_neg htype]
      rfl

theorem gatherMessage_eq {m : Json} (h : messageOf line = some m) :
    gatherMessage g m = ⟨g.calls ++ toolCalls [line], g.answered ++ answeredIds [line]⟩ := by
  have hmessages : messages [line] = [m] := by simp [messages, h]
  have hne : js "toolResult" ≠ js "assistant" := by decide
  simp only [gatherMessage, role_eq (show js "toolResult" ≠ [] by decide), role_eq (show js "assistant" ≠ [] by decide), ne_eq]
  by_cases hr : hasRole (js "toolResult") m = true
  · -- a tool result is not an assistant's
    have ha : hasRole (js "assistant") m = false := by
      rw [hasRole, decide_eq_true_iff] at hr
      simp [hasRole, hr, hne]
    rw [if_pos hr]
    cases hid : stringValue (m.get (js "toolCallId")) <;> simp [toolCalls, answeredIds, hmessages, hr, ha, hid]
  · rw [if_neg hr]
    by_cases ha : hasRole (js "assistant") m = true <;> simp [toolCalls, answeredIds, hmessages, hr, ha]

/-- Step lemma: a line that is not null adds its calls and its answer. -/
theorem gatherLine_ok (h : Json.parse line ≠ some .null) :
    gatherLine g line = .ok ⟨g.calls ++ toolCalls [line], g.answered ++ answeredIds [line]⟩ := by
  rw [gatherLine_eq g h]
  cases hm : messageOf line with
  | none => simp [toolCalls, answeredIds, messages, hm]
  | some m => rw [Option.elim_some, gatherMessage_eq g hm]

theorem gatherLine_null (h : Json.parse line = some .null) :
    gatherLine g line = .error (.typeError (js "Cannot read properties of null (reading 'type')")) := by
  rw [gatherLine, h]

end

theorem toolCalls_cons (line : JsString) (lines : List JsString) : toolCalls (line :: lines) = toolCalls [line] ++ toolCalls lines := by
  cases h : messageOf line <;> simp [toolCalls, messages, h, filter_cons]
  split <;> simp

theorem answeredIds_cons (line : JsString) (lines : List JsString) :
    answeredIds (line :: lines) = answeredIds [line] ++ answeredIds lines := by
  cases h : messageOf line <;> simp [answeredIds, messages, h, filter_cons]
  split <;> simp [filterMap_cons]
  split <;> simp

/-- Run lemma. -/
theorem gather_from (lines : List JsString) (h : ∀ line ∈ lines, Json.parse line ≠ some .null) (g : Gathered) :
    lines.foldlM gatherLine g = .ok ⟨g.calls ++ toolCalls lines, g.answered ++ answeredIds lines⟩ := by
  induction lines generalizing g with
  | nil => simp [toolCalls, answeredIds, messages, pure, Except.pure]
  | cons line lines ih =>
    rw [foldlM_cons, gatherLine_ok g (h line mem_cons_self), toolCalls_cons line lines, answeredIds_cons line lines]
    simp only [bind, Except.bind]
    rw [ih fun l hl => h l (mem_cons_of_mem line hl)]
    simp

/-- A null line stops the loop, whatever came before it. -/
theorem gather_throws (lines : List JsString) (h : ∃ line ∈ lines, Json.parse line = some .null) (g : Gathered) :
    ∃ e, lines.foldlM gatherLine g = .error e := by
  induction lines generalizing g with
  | nil => simp at h
  | cons line lines ih =>
    rw [foldlM_cons]
    by_cases hnull : Json.parse line = some .null
    · exact ⟨_, by rw [gatherLine_null g hnull]; rfl⟩
    · rw [gatherLine_ok g hnull]
      obtain ⟨l, hl, hlnull⟩ := h
      rcases mem_cons.mp hl with rfl | hl
      · exact absurd hlnull hnull
      · exact ih ⟨l, hl, hlnull⟩ _

/-! ## The call found -/

theorem unanswered_iff {lines : List JsString} {call : GatheredCall} :
    unanswered (answeredIds lines) call = true ↔ InFlight lines call := by
  cases hid : call.id with
  | none => simp [unanswered, InFlight, hid]
  | some id => simp [unanswered, InFlight, hid, ← mem_answeredIds]

theorem lastInFlight_found (lines : List JsString) :
    LastInFlight lines (((toolCalls lines).reverse.find? (unanswered (answeredIds lines))).map (·.toInFlightToolCall)) := by
  cases hf : (toolCalls lines).reverse.find? (unanswered (answeredIds lines)) with
  | none =>
    intro call hcall hflight
    have hnone := find?_eq_none.mp hf call (mem_reverse.mpr hcall)
    exact hnone (unanswered_iff.mpr hflight)
  | some call =>
    obtain ⟨hun, before, after, hsplit, hbefore⟩ := find?_eq_some_iff_append.mp hf
    refine ⟨after.reverse, call, before.reverse, ?_, rfl, unanswered_iff.mp hun, fun later hlater hflight => ?_⟩
    · have hreverse := congrArg List.reverse hsplit
      simpa using hreverse
    · have hnot := hbefore later (mem_reverse.mp hlater)
      rw [unanswered_iff.mpr hflight] at hnot
      cases hnot

end PiWebUi.Goal
