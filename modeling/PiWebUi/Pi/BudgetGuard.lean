/-
  PiWebUi.Pi.BudgetGuard — the budgets of a run
  (server/src/pi/run-budget.ts, server/src/pi/tool-args-budget.ts).

  Two guards watch every event of a session, the one for streamed bytes and output tokens,
  the other for the arguments of tool calls. Both keep the state of the run since the last
  `agent_start`, and a breach does the same in both: the reason is emitted once, and the
  session is aborted, one attempt at a time, a rejected one again at the next breach.
-/

import PiWebUi.Lib.JsMap
import PiWebUi.Lib.JsText
import PiWebUi.Lib.Utf8
import Mathlib.Logic.Function.Basic

namespace PiWebUi.Pi.Budget

open PiWebUi.Lib

/-! ## The runs of a guard -/

structure BudgetRunState (κ : Type) where
  counters : κ
  breached : Bool := false
  syntheticEmitted : Bool := false
  abortAttempts : ℕ := 0
  abortInFlight : Bool := false

structure BudgetGuard (κ β : Type) where
  runs : ℕ → BudgetRunState κ
  /-- The number of `this.run`. -/
  current : ℕ := 0
  emitted : List (ℕ × β) := []
  aborts : List (ℕ × ℕ) := []
  pending : List (ℕ × ℕ) := []
  resolved : List ℕ := []

def MAX_ABORT_ATTEMPTS : ℕ := 3

namespace BudgetGuard

variable {κ β : Type}

def run (g : BudgetGuard κ β) : BudgetRunState κ := g.runs g.current

def setRun (g : BudgetGuard κ β) (n : ℕ) (r : BudgetRunState κ) : BudgetGuard κ β := { g with runs := Function.update g.runs n r }

def freshRun (zero : κ) : BudgetRunState κ := { counters := zero }

/-- `this.run = freshRun()` -/
def startRun (zero : κ) (g : BudgetGuard κ β) : BudgetGuard κ β :=
  { g with
    current := g.current + 1
    runs := Function.update g.runs (g.current + 1) (freshRun zero) }

def count (g : BudgetGuard κ β) (counters : κ) : BudgetGuard κ β := g.setRun g.current { g.run with counters }

def emitOnce (g : BudgetGuard κ β) (reason : β) : BudgetGuard κ β :=
  if g.run.syntheticEmitted then g
  else { g.setRun g.current { g.run with syntheticEmitted := true } with emitted := g.emitted ++ [(g.current, reason)] }

def abort (g : BudgetGuard κ β) : BudgetGuard κ β :=
  if g.run.abortInFlight then g
  else
    let attempt := g.run.abortAttempts + 1
    { g.setRun g.current { g.run with abortAttempts := attempt, abortInFlight := true } with
      aborts := g.aborts ++ [(g.current, attempt)]
      pending := g.pending ++ [(g.current, attempt)] }

def breach (g : BudgetGuard κ β) (reason : β) : BudgetGuard κ β := (g.emitOnce reason).abort

/-- The promise of an attempt of a run settles. -/
def settle (g : BudgetGuard κ β) (n attempt : ℕ) (resolves : Bool) : BudgetGuard κ β :=
  if (n, attempt) ∈ g.pending then
    let g := { g with pending := g.pending.erase (n, attempt) }
    if resolves then
      { g.setRun n { g.runs n with abortInFlight := false, breached := true } with resolved := g.resolved ++ [n] }
    else if MAX_ABORT_ATTEMPTS ≤ attempt then g.setRun n { g.runs n with abortInFlight := false, breached := true }
    else g.setRun n { g.runs n with abortInFlight := false }
  else g

end BudgetGuard

/-! ## Events -/

def eventType (event : Json) : Option Json := event.get (js "type")

def isAgentStart (event : Json) : Bool := eventType event = some (.str (js "agent_start"))

/-- `event.assistantMessageEvent[key]` -/
def assistantProperty (event : Json) (key : String) : Option Json :=
  (event.get (js "assistantMessageEvent")).bind (·.get (js key))

def assistantTypeIn (types : List String) (event : Json) : Bool :=
  types.any fun type => assistantProperty event "type" = some (.str (js type))

/-- A delta that is a text and not the empty one. -/
def assistantDelta (event : Json) : Option JsString :=
  match assistantProperty event "delta" with
  | some (.str (u :: us)) => some (u :: us)
  | _ => none

/-! ## Streamed bytes and output tokens -/

structure RunBudgetCaps where
  outputTokens : JsNumber
  streamedBytes : JsNumber

inductive RunBudgetKind where
  | outputTokens
  | streamedBytes
  deriving DecidableEq

structure RunBudgetReason where
  budget : RunBudgetKind
  cap : JsNumber
  observed : JsNumber

structure RunBudgetCounters where
  streamedBytes : ℕ := 0
  outputTokens : JsNumber := .fin 0

namespace RunBudgetGuard

/-- The delta of a `text_delta`, `thinking_delta` or `toolcall_delta`. -/
def streamedDelta (event : Json) : Option JsString :=
  if assistantTypeIn ["text_delta", "thinking_delta", "toolcall_delta"] event then assistantDelta event else none

/-- `event.message.usage.output` of an assistant message, where it is finite and above zero. -/
def reportedOutput (event : Json) : Option JsNumber :=
  match event.get (js "message") with
  | some message =>
    if message.get (js "role") = some (.str (js "assistant")) then
      match (message.get (js "usage")).bind (·.get (js "output")) with
      | some (.num output) => if !output.isFinite || output.le (.fin 0) then none else some output
      | _ => none
    else none
  | none => none

variable (caps : RunBudgetCaps)

def observeDelta (g : BudgetGuard RunBudgetCounters RunBudgetReason) (delta : JsString) : BudgetGuard RunBudgetCounters RunBudgetReason :=
  let streamedBytes := g.run.counters.streamedBytes + utf8Length delta
  let g := g.count { g.run.counters with streamedBytes }
  if caps.streamedBytes.lt (.fin streamedBytes) then g.breach ⟨.streamedBytes, caps.streamedBytes, .fin streamedBytes⟩ else g

def observeOutput (g : BudgetGuard RunBudgetCounters RunBudgetReason) (output : JsNumber) : BudgetGuard RunBudgetCounters RunBudgetReason :=
  let outputTokens := g.run.counters.outputTokens.add output
  let g := g.count { g.run.counters with outputTokens }
  if caps.outputTokens.lt outputTokens then g.breach ⟨.outputTokens, caps.outputTokens, outputTokens⟩ else g

def observe (g : BudgetGuard RunBudgetCounters RunBudgetReason) (event : Json) : BudgetGuard RunBudgetCounters RunBudgetReason :=
  if isAgentStart event then g.startRun {}
  else if caps.outputTokens.le (.fin 0) && caps.streamedBytes.le (.fin 0) then g
  else if g.run.breached then g
  else if eventType event = some (.str (js "message_update")) then
    if caps.streamedBytes.le (.fin 0) then g else ((streamedDelta event).map (observeDelta caps g)).getD g
  else if eventType event = some (.str (js "message_end")) then
    if caps.outputTokens.le (.fin 0) then g else ((reportedOutput event).map (observeOutput caps g)).getD g
  else g

end RunBudgetGuard

/-! ## Arguments of tool calls -/

structure ToolArgsBudgetCaps where
  callChars : JsNumber
  turnChars : JsNumber

inductive ToolArgsScope where
  | call
  | turn
  deriving DecidableEq

structure ToolArgsReason where
  scope : ToolArgsScope
  capChars : JsNumber
  observedChars : ℕ
  contentIndex : Option JsNumber

structure ToolArgsCounters where
  turnTotal : ℕ := 0
  perCall : JsMap JsNumber ℕ := JsMap.empty

namespace ToolArgsBudgetGuard

def contentIndex (event : Json) : Option JsNumber :=
  match assistantProperty event "contentIndex" with
  | some (.num i) => some i
  | _ => none

def callCount (c : ToolArgsCounters) (i : JsNumber) : ℕ := (c.perCall.get i).getD 0

/-- A tool call starts or ends: its count goes. -/
def resetCall (c : ToolArgsCounters) (event : Json) : ToolArgsCounters :=
  match contentIndex event with
  | some i => { c with perCall := c.perCall.delete i }
  | none => c

def countDelta (c : ToolArgsCounters) (event : Json) (delta : JsString) : ToolArgsCounters where
  turnTotal := c.turnTotal + delta.length
  perCall :=
    match contentIndex event with
    | some i => c.perCall.set i (callCount c i + delta.length)
    | none => c.perCall

variable (caps : ToolArgsBudgetCaps)

def observeDelta (g : BudgetGuard ToolArgsCounters ToolArgsReason) (event : Json) (delta : JsString) :
    BudgetGuard ToolArgsCounters ToolArgsReason :=
  let counters := countDelta g.run.counters event delta
  let g := g.count counters
  let callObserved := ((contentIndex event).map (callCount counters)).getD 0
  if (JsNumber.fin 0).lt caps.callChars && caps.callChars.lt (.fin callObserved) then
    g.breach ⟨.call, caps.callChars, callObserved, contentIndex event⟩
  else if (JsNumber.fin 0).lt caps.turnChars && caps.turnChars.lt (.fin counters.turnTotal) then
    g.breach ⟨.turn, caps.turnChars, counters.turnTotal, contentIndex event⟩
  else g

def observe (g : BudgetGuard ToolArgsCounters ToolArgsReason) (event : Json) : BudgetGuard ToolArgsCounters ToolArgsReason :=
  if isAgentStart event then g.startRun {}
  else if eventType event ≠ some (.str (js "message_update")) then g
  else if caps.callChars.le (.fin 0) && caps.turnChars.le (.fin 0) then g
  else if g.run.breached then g
  else if assistantTypeIn ["toolcall_start", "toolcall_end"] event then
    g.count (resetCall g.run.counters event)
  else if !assistantTypeIn ["toolcall_delta"] event then g
  else ((assistantDelta event).map (observeDelta caps g event)).getD g

end ToolArgsBudgetGuard

end PiWebUi.Pi.Budget
