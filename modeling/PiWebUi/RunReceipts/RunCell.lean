/-
  PiWebUi.RunReceipts.RunCell — one run of a receipt manager: its receipt in the store, its
  active entry, its lock and its drain (run-receipt-manager.ts).

  The operations of a run wait in `runLock`; the first is the one that holds the lock. It
  runs up to a call of the store (`acquire`), the call reads the cache (`begin`), its write
  replaces the file (`rename`) and then the cache (`settle`), a transition prunes (`pruned`),
  and the operation goes on. The quiescence paths call the store without the lock
  (`unlocked`), and so may any other caller. Writes of one receipt may be over in any order;
  the store's chain allows some of these orders. `released` and `moved` are read by nothing.
-/

import PiWebUi.RunReceipts.RunReceiptStore

namespace PiWebUi.RunReceipts

open Lib Completion

structure RunReceiptManagerConfig where
  turnIdleTimeoutMs : ℤ
  turnMaxMs : ℤ
  runStartWindowMs : ℤ
  /-- `isRuntimeQuiescent` is given. -/
  isRuntimeQuiescent : Bool

def ACTIVITY_PERSIST_INTERVAL_MS : ℤ := 1000

inductive FinishStatus where
  | completed
  | failed
  | cancelled
  deriving DecidableEq

def FinishStatus.toStatus : FinishStatus → RunReceiptStatus
  | .completed => .completed
  | .failed => .failed
  | .cancelled => .cancelled

structure RunFinishOutcome where
  status : Option FinishStatus := none
  errorCode : Option JsString := none
  outputEvidence : Option RunOutputEvidence := none
  stallReason : Option RunStallReason := none
  /-- `documented_handler_return` or `resource_quiescence`. -/
  cessationBasis : Option RunCessationBasis := none
  deriving DecidableEq

def RunFinishOutcome.finishStatus (o : RunFinishOutcome) : FinishStatus :=
  o.status.getD (if o.errorCode.isSome then .failed else .completed)

structure MutableRunOutputEvidence where
  assistantMessages : ℕ
  assistantTextBlocks : ℕ
  assistantTextChars : ℕ
  toolCalls : ℕ
  deriving DecidableEq

structure ActiveRun where
  acceptedAtMs : ℤ
  startedAtMs : Option ℤ
  lastActivityAtMs : ℤ
  lastEligibleActivity : Option RunActivityObservation
  lastPersistedActivityAtMs : Option ℤ
  lease : Option ℕ
  outputEvidence : MutableRunOutputEvidence
  deriving DecidableEq

/-- What an event says to the receipt; `output` is what it adds to the counters. -/
structure ObservedEvent where
  eventType : JsString
  occurredAt : Option ℤ
  output : MutableRunOutputEvidence
  tokenUsage : Option RunTokenUsage
  origin : TerminalOrigin
  reason : Option JsString
  deriving DecidableEq

/-- What the trackers hold when an operation looks at them. -/
structure Captured where
  finalText : Option FinalTextSnapshot := none
  completion : Capture := {}
  deriving DecidableEq

/-- An operation under the run lock; `withActive` says that the run was active when the event came. -/
inductive RunOp where
  | setDispatchMode
  | recordServedModel (servedModel : Option JsString) (rebound : Bool)
  | markQueued
  | markStarted
  | activity (activity : RunActivityObservation)
  | agentEnd (observation : RunTerminalObservation) (tokenUsage : Option RunTokenUsage) (withActive : Bool)
  | finish (outcome : RunFinishOutcome)
  | rejectBeforeDispatch (status : FinishStatus) (errorCode : JsString)
  deriving DecidableEq

/-- What the manager does with the receipt a call gives it. -/
inductive After where
  | done
  | markedStarted (startedAtMs : ℤ)
  | startedThenFinish (startedAtMs : ℤ)
  | terminalize
  deriving DecidableEq

inductive Phase where
  | waiting
  | calling (call : StoreCall) (after : After)
  | writing (read next : PersistedRunReceipt) (renamed : Bool) (prunes : Bool) (after : After)
  | pruning (written : PersistedRunReceipt) (after : After)
  deriving DecidableEq

/-- `pass` is the watchdog pass that asked. -/
structure Task where
  op : RunOp
  pass : Option ℕ
  phase : Phase
  deriving DecidableEq

inductive UnlockedOp where
  | reconcile
  | confirm
  | store (call : StoreCall)
  deriving DecidableEq

inductive UnlockedPhase where
  | calling (call : StoreCall)
  | writing (read next : PersistedRunReceipt) (renamed : Bool)
  deriving DecidableEq

structure UnlockedTask where
  op : UnlockedOp
  phase : UnlockedPhase
  deriving DecidableEq

inductive Creating where
  | writing (record : PersistedRunReceipt) (renamed : Bool) (acceptedAtMs : ℤ)
  | pruning (record : PersistedRunReceipt) (acceptedAtMs : ℤ)
  deriving DecidableEq

structure Draining where
  lease : ℕ
  quarantined : Bool
  deriving DecidableEq

/-- What a pass is told of the run it wanted finished. -/
structure Answer where
  pass : ℕ
  errorCode : Option JsString
  receipt : Option PersistedRunReceipt
  deriving DecidableEq

structure RunCell where
  /-- The id has been given out. -/
  created : Bool := false
  receipt : Option PersistedRunReceipt := none
  file : Option PersistedRunReceipt := none
  creating : Option Creating := none
  /-- The run is in `activeRuns`; `active` is its object. -/
  listed : Bool := false
  active : Option ActiveRun := none
  runLock : List Task := []
  unlocked : List UnlockedTask := []
  draining : Option Draining := none
  answers : List Answer := []
  released : List ℕ := []
  /-- The passes that made the receipt terminal, with the status and the error code they gave it. -/
  moved : List (ℕ × RunReceiptStatus × Option JsString) := []
  deriving DecidableEq

inductive RunEvent where
  | beginRun (now : ℤ) (key : Option (ℤ × JsString × JsString))
  | createRename
  | createSettle (ok : Bool)
  | createPruned (ok : Bool)
  | observe (now : ℤ) (event : ObservedEvent)
  | attachLease (lease : ℕ)
  | issue (op : RunOp)
  | acquire (now : ℤ) (captured : Captured)
  | begin (now : ℤ) (valid : Bool)
  | rename
  | settle (ok : Bool)
  | pruned (ok : Bool) (now : ℤ) (captured : Captured)
  | unlock (now : ℤ) (op : UnlockedOp)
  | unlockedBegin (i : ℕ) (now : ℤ) (valid : Bool)
  | unlockedRename (i : ℕ)
  | unlockedSettle (i : ℕ) (ok : Bool)
  /-- The runtime is found quiescent. -/
  | drained
  | drainTimeout
  /-- A prune takes the receipt, and then its file. -/
  | delete
  | unlink
  deriving DecidableEq

/-! ## Events of the run -/

def ELIGIBLE_RUN_ACTIVITY_TYPES : List JsString :=
  [js "agent_start", js "agent_end", js "turn_start", js "turn_end", js "message_start", js "message_update", js "message_end",
    js "tool_execution_start", js "tool_execution_update", js "tool_execution_end", js "error", js "session_compaction",
    js "permission_request", js "extension_ui_request", js "ask_user_question_request", js "ask_user_question_closed", js "api_error"]

def FORCE_PERSIST_ACTIVITY_TYPES : List JsString := [js "extension_ui_request", js "permission_request", js "ask_user_question_request"]

def boundedAdd (current increment maximum : ℕ) : ℕ := if increment = 0 then current else min maximum (current + increment)

def observeOutputEvent (output added : MutableRunOutputEvidence) : MutableRunOutputEvidence where
  assistantMessages := boundedAdd output.assistantMessages added.assistantMessages 100000
  assistantTextBlocks := boundedAdd output.assistantTextBlocks added.assistantTextBlocks 1000000
  assistantTextChars := boundedAdd output.assistantTextChars added.assistantTextChars 10000000
  toolCalls := boundedAdd output.toolCalls added.toolCalls 100000

def finalizeOutputEvidence (output : MutableRunOutputEvidence) (terminalSignal : Bool) : RunOutputEvidence where
  assistantMessages := output.assistantMessages
  assistantTextBlocks := output.assistantTextBlocks
  assistantTextChars := output.assistantTextChars
  toolCalls := output.toolCalls
  disposition := if terminalSignal then (if 0 < output.assistantTextChars then .text else .noText) else .unknown

def neverProducedWork (active : ActiveRun) : Bool :=
  active.lastEligibleActivity = none && active.outputEvidence.assistantMessages = 0 && active.outputEvidence.assistantTextBlocks = 0 &&
    active.outputEvidence.assistantTextChars = 0 && active.outputEvidence.toolCalls = 0

namespace RunCell

variable (c : RunReceiptManagerConfig)

def enqueue (s : RunCell) (op : RunOp) (pass : Option ℕ) : RunCell := { s with runLock := s.runLock ++ [⟨op, pass, .waiting⟩] }

/-- What `observeEvent` does to the active entry, and the activity it has persisted. -/
def observeActive (now : ℤ) (e : ObservedEvent) (a : ActiveRun) : ActiveRun × Option RunActivityObservation :=
  let a := { a with outputEvidence := observeOutputEvent a.outputEvidence e.output }
  if ELIGIBLE_RUN_ACTIVITY_TYPES.any (· = e.eventType) then
    let activity : RunActivityObservation := ⟨e.eventType, e.occurredAt.getD now, now⟩
    let persistenceDue :=
      a.lastPersistedActivityAtMs.all (fun last => ACTIVITY_PERSIST_INTERVAL_MS ≤ now - last) || FORCE_PERSIST_ACTIVITY_TYPES.any (· = e.eventType)
    let a := { a with lastActivityAtMs := now, lastEligibleActivity := some activity }
    if persistenceDue then
      (if e.eventType = js "agent_end" then a else { a with lastPersistedActivityAtMs := some now }, some activity)
    else (a, none)
  else (a, none)

def observeEvent (s : RunCell) (now : ℤ) (e : ObservedEvent) : RunCell :=
  let observation : RunTerminalObservation := ⟨e.occurredAt.getD now, now, e.origin, e.reason, false⟩
  match s.listed, s.active with
  | true, some a =>
    let (a, activity) := observeActive now e a
    let s := { s with active := some a }
    if e.eventType = js "agent_end" then s.enqueue (.agentEnd observation e.tokenUsage true) none
    else
      match activity with
      | some activity => s.enqueue (.activity activity) none
      | none => s
  | _, _ => if e.eventType = js "agent_end" then s.enqueue (.agentEnd observation e.tokenUsage false) none else s

/-! ## Terminal runs -/

/-- The lease of a run that is terminal is given back, or held until the runtime is known to have stopped. -/
def terminalize (s : RunCell) (record : PersistedRunReceipt) : RunCell :=
  if !s.listed then s
  else
    let s := { s with listed := false }
    match s.active.bind (·.lease) with
    | none => s
    | some lease =>
      let cessationUnconfirmed := !(record.cessation.any (·.state = .confirmed))
      if c.isRuntimeQuiescent && cessationUnconfirmed && (record.status = .cancelled || record.status = .failed) then
        { s with draining := some ⟨lease, false⟩ }
      else { s with released := s.released ++ [lease] }

def finishDrain (s : RunCell) : RunCell :=
  match s.draining with
  | none => s
  | some d => { s with draining := none, released := s.released ++ [d.lease] }

def quarantine (s : RunCell) : RunCell := { s with draining := s.draining.map fun d => { d with quarantined := true } }

/-! ## The operation that holds the lock -/

/-- What its pass is told. -/
def answerOf (task : Task) (receipt : Option PersistedRunReceipt) : List Answer :=
  match task.pass, task.op with
  | some pass, .finish outcome => [⟨pass, outcome.errorCode, receipt⟩]
  | _, _ => []

/-- The pass that makes the run terminal with this write. -/
def moveOf (task : Task) (after : After) : List (ℕ × RunReceiptStatus × Option JsString) :=
  match task.pass, task.op, after with
  | some pass, .finish outcome, .terminalize => [(pass, outcome.finishStatus.toStatus, outcome.errorCode)]
  | _, _, _ => []

/-- It is over, with a receipt for its caller or none. -/
def complete (s : RunCell) (task : Task) (receipt : Option PersistedRunReceipt) : RunCell :=
  { s with runLock := s.runLock.tail, answers := s.answers ++ answerOf task receipt }

/-- It rejects; an activity that is not persisted is due again. -/
def reject (s : RunCell) (task : Task) : RunCell :=
  match task.op with
  | .activity activity =>
    let forget (a : ActiveRun) : ActiveRun :=
      if a.lastPersistedActivityAtMs = some activity.observedAt then { a with lastPersistedActivityAtMs := none } else a
    { s with active := s.active.map forget }.complete task none
  | _ => s.complete task none

def setPhase (s : RunCell) (task : Task) (phase : Phase) : RunCell := { s with runLock := { task with phase } :: s.runLock.tail }

def call (s : RunCell) (task : Task) (call : StoreCall) (after : After) : RunCell := s.setPhase task (.calling call after)

/-- The liveness a finished run is given. -/
def finishLiveness (s : RunCell) (now : ℤ) (outcome : RunFinishOutcome) (l : RunLivenessEvidence) : RunLivenessEvidence :=
  let l := { l with lastEligibleActivity := (if s.listed then s.active.bind (·.lastEligibleActivity) else none).or l.lastEligibleActivity }
  match outcome.stallReason with
  | some reason =>
    { l with
      watchdog := some ⟨reason, now, if outcome.errorCode = some (js "NEVER_STARTED") then some c.runStartWindowMs else none⟩
      cessation := ⟨.unknown, .watchdog, now⟩ }
  | none =>
    match outcome.cessationBasis with
    | some basis => { l with cessation := ⟨.confirmed, basis, now⟩ }
    | none => l

/-- The rest of `finishUnlocked`, on the receipt it has read. -/
def finishCall (s : RunCell) (now : ℤ) (captured : Captured) (outcome : RunFinishOutcome) (current : PersistedRunReceipt) : StoreCall :=
  let active := if s.listed then s.active else none
  .transition outcome.finishStatus.toStatus {
    terminalAt := some now
    errorCode := some outcome.errorCode
    liveness := current.liveness.map (finishLiveness c s now outcome)
    outputEvidence := outcome.outputEvidence.or
      (match active with
        | some a => some (finalizeOutputEvidence a.outputEvidence current.agentEndAt.isSome)
        | none => current.outputEvidence)
    finalText := if active.isSome then captured.finalText else none
    completion := if active.isSome then captured.completion else {} }

/-- The part of an operation up to its first call. -/
def acquireOp (s : RunCell) (now : ℤ) (captured : Captured) (task : Task) : RunCell :=
  match task.op with
  | .setDispatchMode => s.call task .patchOther .done
  | .recordServedModel servedModel rebound => s.call task (.patchServedModel servedModel rebound) .done
  | .markQueued => s.call task (.transition .queued {}) .done
  | .markStarted =>
    match s.receipt with
    | none => s.complete task none
    | some current =>
      if isTerminal current.status || current.status = .started then s.complete task (some current)
      else s.call task (.transition .started { startedAt := current.startedAt.or (some now) }) (.markedStarted now)
  | .activity activity =>
    match s.receipt with
    | none => s.complete task none
    | some current =>
      if isTerminal current.status then s.complete task none
      else
        match current.liveness with
        | none => s.complete task none
        | some l => s.call task (.patchLiveness { l with lastEligibleActivity := some activity }) .done
  | .agentEnd observation tokenUsage withActive =>
    let active := if withActive then s.active else none
    s.call task (.markAgentEnd observation.occurredAt (some observation) tokenUsage
      (active.map fun a => finalizeOutputEvidence a.outputEvidence true) (if active.isSome then captured.finalText else none)
      (if active.isSome then captured.completion else {})) .done
  | .finish outcome =>
    match s.receipt with
    | none => s.complete task none
    | some current =>
      if isTerminal current.status then s.complete task (some current)
      else if outcome.finishStatus = .completed ∧ current.status ≠ .started then
        s.call task (.transition .started { startedAt := current.startedAt.or (some now) }) (.startedThenFinish now)
      else s.call task (finishCall c s now captured outcome current) .terminalize
  | .rejectBeforeDispatch status errorCode =>
    match s.receipt with
    | none => s.complete task none
    | some current =>
      if isTerminal current.status then s.call task .releaseIdempotency .done
      else s.call task (.transition status.toStatus {
        terminalAt := some now
        errorCode := some (some errorCode)
        liveness := current.liveness.map fun l => { l with cessation := ⟨.confirmed, .documentedHandlerReturn, now⟩ }
        clearIdempotency := true }) .terminalize

def markActive (s : RunCell) (startedAtMs : ℤ) : RunCell :=
  if s.listed then { s with active := s.active.map fun a => { a with startedAtMs := some startedAtMs, lastActivityAtMs := startedAtMs } } else s

/-- What follows the call. -/
def goOn (s : RunCell) (now : ℤ) (captured : Captured) (task : Task) (after : After) (receipt : PersistedRunReceipt) : RunCell :=
  match after with
  | .done => s.complete task (some receipt)
  | .markedStarted startedAtMs => (s.markActive startedAtMs).complete task (some receipt)
  | .startedThenFinish startedAtMs =>
    let s := s.markActive startedAtMs
    match s.receipt, task.op with
    | some current, .finish outcome => s.call task (finishCall c s now captured outcome current) .terminalize
    | _, _ => s.complete task none
  | .terminalize => (s.terminalize c receipt).complete task (some receipt)

def begin (s : RunCell) (now : ℤ) (valid : Bool) : RunCell :=
  match s.runLock with
  | task :: _ =>
    match task.phase with
    | .calling call after =>
      match call.start now s.receipt, s.receipt with
      | .writes next, some read =>
        if valid then s.setPhase task (.writing read next false call.prunes after) else s.reject task
      | .writes _, none => s
      | .returns receipt, _ => s.complete task receipt
      | .throws, _ => s.reject task
    | _ => s
  | [] => s

def rename (s : RunCell) : RunCell :=
  match s.runLock with
  | task :: _ =>
    match task.phase with
    | .writing read next _ prunes after => { s with file := some next }.setPhase task (.writing read next true prunes after)
    | _ => s
  | [] => s

/-- The write is over; one that has replaced the file does not fail. -/
def settle (s : RunCell) (ok : Bool) : RunCell :=
  match s.runLock with
  | task :: _ =>
    match task.phase with
    | .writing _ next renamed prunes after =>
      if ok then
        let s := { s with file := some next, receipt := some next, moved := s.moved ++ moveOf task after }
        if prunes then s.setPhase task (.pruning next after) else s.complete task (some next)
      else if renamed then s
      else s.reject task
    | _ => s
  | [] => s

def pruned (s : RunCell) (ok : Bool) (now : ℤ) (captured : Captured) : RunCell :=
  match s.runLock with
  | task :: _ =>
    match task.phase with
    | .pruning written after => if ok then s.goOn c now captured task after written else s.reject task
    | _ => s
  | [] => s

def acquire (s : RunCell) (now : ℤ) (captured : Captured) : RunCell :=
  match s.runLock with
  | task :: _ => if task.phase = .waiting then s.acquireOp c now captured task else s
  | [] => s

/-! ## Without the lock -/

def unlock (s : RunCell) (now : ℤ) (op : UnlockedOp) : RunCell :=
  let ask (call : StoreCall) : RunCell := { s with unlocked := s.unlocked ++ [⟨op, .calling call⟩] }
  match op with
  | .reconcile => if s.draining.any (·.quarantined) then ask (.markResourceQuiescent now) else s
  | .confirm => if s.draining.isSome then ask (.markResourceQuiescent now) else s
  | .store call => ask call

/-- It has its result; `confirm` insists on the evidence it asked for. -/
def answerUnlocked (s : RunCell) (i : ℕ) (op : UnlockedOp) (result : Option PersistedRunReceipt) : RunCell :=
  let s := { s with unlocked := s.unlocked.eraseIdx i }
  match op with
  | .reconcile => s.finishDrain
  | .confirm => if (result.bind (·.cessation)).any (·.basis = .resourceQuiescence) then s.finishDrain else s
  | .store _ => s

def unlockedBegin (s : RunCell) (i : ℕ) (now : ℤ) (valid : Bool) : RunCell :=
  match s.unlocked[i]? with
  | some ⟨op, .calling call⟩ =>
    match call.start now s.receipt, s.receipt with
    | .writes next, some read =>
      if valid then { s with unlocked := s.unlocked.set i ⟨op, .writing read next false⟩ } else s.answerUnlocked i op none
    | .writes _, none => s
    | .returns receipt, _ => s.answerUnlocked i op receipt
    | .throws, _ => s.answerUnlocked i op none
  | _ => s

def unlockedRename (s : RunCell) (i : ℕ) : RunCell :=
  match s.unlocked[i]? with
  | some ⟨op, .writing read next _⟩ => { s with file := some next, unlocked := s.unlocked.set i ⟨op, .writing read next true⟩ }
  | _ => s

def unlockedSettle (s : RunCell) (i : ℕ) (ok : Bool) : RunCell :=
  match s.unlocked[i]? with
  | some ⟨op, .writing _ next renamed⟩ =>
    if ok then { s with file := some next, receipt := some next }.answerUnlocked i op (some next)
    else if renamed then s
    else s.answerUnlocked i op none
  | _ => s

/-! ## Creation -/

def newReceipt (now : ℤ) (key : Option (ℤ × JsString × JsString)) : PersistedRunReceipt where
  status := .accepted
  servedModel := none
  modelRebound := none
  startedAt := none
  agentEndAt := none
  terminalAt := none
  errorCode := none
  liveness := some ⟨none, none, [], ⟨.unknown, .noTerminalSignal, now⟩⟩
  tokenUsage := none
  outputEvidence := none
  finalText := none
  completion := {}
  idempotencyExpiresAt := key.map (·.1)
  idempotencyKeyDigest := key.map (·.2.1)
  requestFingerprint := key.map (·.2.2)

def beginRun (s : RunCell) (now : ℤ) (key : Option (ℤ × JsString × JsString)) : RunCell :=
  if s.created then s else { s with created := true, creating := some (.writing (newReceipt now key) false now) }

def createRename (s : RunCell) : RunCell :=
  match s.creating with
  | some (.writing record _ acceptedAtMs) => { s with file := some record, creating := some (.writing record true acceptedAtMs) }
  | _ => s

def createSettle (s : RunCell) (ok : Bool) : RunCell :=
  match s.creating with
  | some (.writing record renamed acceptedAtMs) =>
    if ok then { s with file := some record, receipt := some record, creating := some (.pruning record acceptedAtMs) }
    else if renamed then s
    else { s with creating := none }
  | _ => s

def addActive (s : RunCell) (acceptedAtMs : ℤ) : RunCell :=
  { s with listed := true, active := some ⟨acceptedAtMs, none, acceptedAtMs, none, none, none, ⟨0, 0, 0, 0⟩⟩ }

def createPruned (s : RunCell) (ok : Bool) : RunCell :=
  match s.creating with
  | some (.pruning _ acceptedAtMs) =>
    if ok then { s with creating := none }.addActive acceptedAtMs else { s with creating := none }
  | _ => s

def attachLease (s : RunCell) (lease : ℕ) : RunCell :=
  if s.listed then { s with active := s.active.map fun a => { a with lease := some lease } } else s

/-- `prune` takes terminal receipts only. -/
def delete (s : RunCell) : RunCell :=
  if s.receipt.any (isTerminal ·.status) then { s with receipt := none } else s

def unlink (s : RunCell) : RunCell := if s.receipt = none then { s with file := none } else s

def step (s : RunCell) : RunEvent → RunCell
  | .beginRun now key => s.beginRun now key
  | .createRename => s.createRename
  | .createSettle ok => s.createSettle ok
  | .createPruned ok => s.createPruned ok
  | .observe now event => s.observeEvent now event
  | .attachLease lease => s.attachLease lease
  | .issue op => s.enqueue op none
  | .acquire now captured => s.acquire c now captured
  | .begin now valid => s.begin now valid
  | .rename => s.rename
  | .settle ok => s.settle ok
  | .pruned ok now captured => s.pruned c ok now captured
  | .unlock now op => s.unlock now op
  | .unlockedBegin i now valid => s.unlockedBegin i now valid
  | .unlockedRename i => s.unlockedRename i
  | .unlockedSettle i ok => s.unlockedSettle i ok
  | .drained => s.finishDrain
  | .drainTimeout => s.quarantine
  | .delete => s.delete
  | .unlink => s.unlink

/-- A new process: the receipts that load, recovered. -/
def restart (s : RunCell) (now : ℤ) (loads persisted : Bool) : RunCell :=
  let record := if loads then s.file.map (recover now) else none
  { created := s.created, released := s.released, moved := s.moved, receipt := record, file := if persisted then record.or s.file else s.file }

end RunCell

end PiWebUi.RunReceipts
