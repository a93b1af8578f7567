/-
  PiWebUi.Transcript.SubagentSummary — what is shown of a subagent's result
  (packages/session-core/src/subagent-summary.ts).

  The details of a result are any JSON value; of those that are recognised the summary keeps
  counts and totals, agent by agent. Details that are not recognised have no summary.
-/

import PiWebUi.Lib.Json
import PiWebUi.Lib.JsMap

namespace PiWebUi.Transcript

open PiWebUi.Lib

def taskMaxChars : ℕ := 300

structure SubagentAgentSummary where
  agent : JsString
  model : Option JsString := none
  task : Option JsString := none
  exitCode : Option JsNumber := none
  timedOut : Option Bool := none
  turns : JsNumber
  toolCalls : ℕ
  toolBreakdown : List (JsString × ℕ)
  inputTokens : JsNumber
  outputTokens : JsNumber
  cacheReadTokens : Option JsNumber := none
  cacheWriteTokens : Option JsNumber := none
  costUsd : Option JsNumber := none
  deriving DecidableEq

structure SubagentTotals where
  agentCount : ℕ
  toolCalls : ℕ
  turns : JsNumber
  inputTokens : JsNumber
  outputTokens : JsNumber
  cacheReadTokens : Option JsNumber
  cacheWriteTokens : Option JsNumber
  costUsd : Option JsNumber
  deriving DecidableEq

inductive SubagentKind
  | subagent
  | evaluatedSubagent
  deriving DecidableEq

structure SubagentToolSummary where
  mode : JsString
  kind : SubagentKind
  agents : List SubagentAgentSummary
  totals : SubagentTotals
  deriving DecidableEq

/-! ## Reading a value -/

/-- A property of a record; what is no record has none. -/
def field (v : Option Json) (key : String) : Option Json := v.bind (·.get (js key))

def isRecord : Option Json → Bool
  | some (.obj _) => true
  | _ => false

def asText : Option Json → Option JsString
  | some (.str s) => some s
  | _ => none

def asFlag : Option Json → Option Bool
  | some (.bool b) => some b
  | _ => none

/-- The elements of a list, none of anything else. -/
def asList : Option Json → List Json
  | some (.arr xs) => xs
  | _ => []

def asFiniteNumber : Option Json → Option JsNumber
  | some (.num x) => if x.isFinite then some x else none
  | _ => none

def nonEmpty (s : Option JsString) : Option JsString := s.filter (· ≠ [])

/-! ## One agent -/

def combineModel (provider model : Option JsString) : Option JsString :=
  match nonEmpty provider, nonEmpty model with
  | some p, some m => some (p ++ js "/" ++ m)
  | some p, none => some p
  | none, m => m

/-- By count, the highest first, then by name. -/
def sortBreakdown (items : List (JsString × ℕ)) : List (JsString × ℕ) :=
  items.mergeSort fun a b => b.2 < a.2 || (a.2 = b.2 && !List.lex b.1 a.1)

/-- What is counted of the messages of a result. -/
structure Tally where
  turns : ℕ := 0
  inputTokens : JsNumber := .fin 0
  outputTokens : JsNumber := .fin 0
  cacheReadTokens : Option JsNumber := none
  cacheWriteTokens : Option JsNumber := none
  costUsd : Option JsNumber := none
  firstProvider : Option JsString := none
  firstModel : Option JsString := none
  toolCounts : JsMap JsString ℕ := JsMap.empty

/-- `(total ?? 0) + value`, where there is a value. -/
def addTo (total value : Option JsNumber) : Option JsNumber :=
  match value with
  | some x => some ((total.getD (.fin 0)).add x)
  | none => total

namespace Tally

def block (t : Tally) (raw : Json) : Tally :=
  match field raw "type", field raw "name" with
  | some (.str type), some (.str name) =>
    if type = js "toolCall" then { t with toolCounts := t.toolCounts.set name ((t.toolCounts.get name).getD 0 + 1) } else t
  | _, _ => t

def message (t : Tally) (raw : Json) : Tally :=
  if field raw "role" ≠ some (.str (js "assistant")) then t
  else
    let usage := field raw "usage"
    let cost := field usage "cost"
    let costTotal :=
      match cost with
      | some (.num _) => asFiniteNumber cost
      | _ => asFiniteNumber (field cost "total")
    let counted : Tally := { t with
      turns := t.turns + 1
      firstProvider := t.firstProvider.or (nonEmpty (asText (field raw "provider")))
      firstModel := t.firstModel.or (nonEmpty (asText (field raw "model")))
      inputTokens := (addTo (some t.inputTokens) (asFiniteNumber (field usage "input"))).getD (.fin 0)
      outputTokens := (addTo (some t.outputTokens) (asFiniteNumber (field usage "output"))).getD (.fin 0)
      cacheReadTokens := addTo t.cacheReadTokens (asFiniteNumber (field usage "cacheRead"))
      cacheWriteTokens := addTo t.cacheWriteTokens (asFiniteNumber (field usage "cacheWrite"))
      costUsd := addTo t.costUsd costTotal }
    (asList (field raw "content")).foldl block counted

end Tally

def agentName (v : Option Json) : JsString := (nonEmpty (asText (field v "agent"))).getD (js "agent")

/-- Of one result of a `subagent`. -/
def summarizeResult (result : Json) : Option SubagentAgentSummary :=
  if isRecord result then
    let t := (asList (field result "messages")).foldl Tally.message {}
    let toolBreakdown := sortBreakdown t.toolCounts.entries
    some {
      agent := agentName result
      model := combineModel t.firstProvider t.firstModel
      task := (nonEmpty (asText (field result "task"))).map (·.take taskMaxChars)
      exitCode := asFiniteNumber (field result "exitCode")
      timedOut := asFlag (field result "timedOut")
      turns := .fin t.turns
      toolCalls := (toolBreakdown.map (·.2)).sum
      toolBreakdown
      inputTokens := t.inputTokens
      outputTokens := t.outputTokens
      cacheReadTokens := t.cacheReadTokens
      cacheWriteTokens := t.cacheWriteTokens
      costUsd := t.costUsd }
  else none

/-- Of the flat details of an `evaluated_subagent`. -/
def summarizeEvaluated (details : Json) : SubagentAgentSummary :=
  let usage := field details "usage"
  { agent := agentName details
    turns := (asFiniteNumber (field usage "turns")).getD (.fin 0)
    toolCalls := 0
    toolBreakdown := []
    inputTokens := (asFiniteNumber (field usage "input")).getD (.fin 0)
    outputTokens := (asFiniteNumber (field usage "output")).getD (.fin 0)
    cacheReadTokens := asFiniteNumber (field usage "cacheRead")
    cacheWriteTokens := asFiniteNumber (field usage "cacheWrite")
    costUsd := asFiniteNumber (field usage "cost")
    exitCode := asFiniteNumber (field details "exitCode")
    timedOut := asFlag (field details "timedOut") }

/-! ## The summary -/

def sumOf (xs : List JsNumber) : JsNumber := xs.foldl JsNumber.add (.fin 0)

/-- The sum of those there are, if there are any. -/
def sumOfSome (xs : List (Option JsNumber)) : Option JsNumber :=
  match xs.filterMap id with
  | [] => none
  | ys => some (sumOf ys)

def aggregateTotals (agents : List SubagentAgentSummary) : SubagentTotals where
  agentCount := agents.length
  toolCalls := (agents.map (·.toolCalls)).sum
  turns := sumOf (agents.map (·.turns))
  inputTokens := sumOf (agents.map (·.inputTokens))
  outputTokens := sumOf (agents.map (·.outputTokens))
  cacheReadTokens := sumOfSome (agents.map (·.cacheReadTokens))
  cacheWriteTokens := sumOfSome (agents.map (·.cacheWriteTokens))
  costUsd := sumOfSome (agents.map (·.costUsd))

def subagentTool : JsString := js "subagent"

def evaluatedSubagentTool : JsString := js "evaluated_subagent"

/-- `none` where the details are absent or not recognised. -/
def summarizeSubagentDetails (toolName : JsString) (details : Option Json) : Option SubagentToolSummary :=
  match details with
  | some (.obj fields) =>
    let d := Json.obj fields
    if toolName = evaluatedSubagentTool then
      let recognized := (asText (field d "agent")).isSome || isRecord (field d "usage") || (field d "run_id").isSome ||
        (field d "exitCode").isSome || (field d "round").isSome || (field d "timedOut").isSome
      if recognized then
        let agent := summarizeEvaluated d
        some ⟨js "evaluated", .evaluatedSubagent, [agent], aggregateTotals [agent]⟩
      else none
    else if toolName = subagentTool then
      match field d "results" with
      | some (.arr results) =>
        let agents := results.filterMap summarizeResult
        some ⟨(asText (field d "mode")).getD (js "single"), .subagent, agents, aggregateTotals agents⟩
      | _ => none
    else none
  | _ => none

end PiWebUi.Transcript
