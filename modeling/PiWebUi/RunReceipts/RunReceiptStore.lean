/-
  PiWebUi.RunReceipts.RunReceiptStore — a receipt and the store's operations on it
  (run-receipt-store.ts).

  Every operation reads the cached receipt, builds the next one and hands it to `persist`;
  the cache has it when the write is over. `StoreCall.start` is the part up to the write: the
  call returns, throws, or writes. Times are the clock's numbers, not their ISO text. The
  identity, model, mode, dispatch mode and shadow fields of a receipt are left out.
-/

import PiWebUi.RunReceipts.Capture

namespace PiWebUi.RunReceipts

open Lib Completion

inductive RunReceiptStatus where
  | accepted
  | queued
  | started
  | completed
  | failed
  | cancelled
  | interrupted
  deriving DecidableEq

/-- `TERMINAL_STATUSES`. -/
def isTerminal : RunReceiptStatus → Bool
  | .completed | .failed | .cancelled | .interrupted => true
  | .accepted | .queued | .started => false

def isLegalTransition (source target : RunReceiptStatus) : Bool :=
  match source with
  | .accepted => target = .queued || target = .started || target = .failed || target = .cancelled
  | .queued => target = .started || target = .failed || target = .cancelled
  | .started => target = .completed || target = .failed || target = .cancelled
  | .completed | .failed | .cancelled | .interrupted => false

inductive RunCessationState where
  | confirmed
  | unconfirmed
  | unknown
  deriving DecidableEq

inductive RunCessationBasis where
  | terminalSignal
  | syntheticTerminalSignal
  | documentedHandlerReturn
  | resourceQuiescence
  | watchdog
  | serverRestart
  | noTerminalSignal
  deriving DecidableEq

structure RunCessationEvidence where
  state : RunCessationState
  basis : RunCessationBasis
  observedAt : ℤ
  deriving DecidableEq

structure RunActivityObservation where
  eventType : JsString
  occurredAt : ℤ
  observedAt : ℤ
  deriving DecidableEq

inductive TerminalOrigin where
  | runtimeOrAdapter
  | synthetic
  deriving DecidableEq

/-- `type` is always `agent_end`. -/
structure RunTerminalObservation where
  occurredAt : ℤ
  observedAt : ℤ
  origin : TerminalOrigin
  reason : Option JsString
  late : Bool
  deriving DecidableEq

inductive RunStallReason where
  | idle
  | absolute
  | noActivity
  deriving DecidableEq

structure RunWatchdogEvidence where
  reason : RunStallReason
  decidedAt : ℤ
  startWindowMs : Option ℤ
  deriving DecidableEq

structure RunLivenessEvidence where
  lastEligibleActivity : Option RunActivityObservation
  watchdog : Option RunWatchdogEvidence
  terminalObservations : List RunTerminalObservation
  cessation : RunCessationEvidence
  deriving DecidableEq

structure RunTokenUsage where
  input : ℕ
  output : ℕ
  total : ℕ
  deriving DecidableEq

inductive OutputDisposition where
  | text
  | noText
  | unknown
  deriving DecidableEq

structure RunOutputEvidence where
  assistantMessages : ℕ
  assistantTextBlocks : ℕ
  assistantTextChars : ℕ
  toolCalls : ℕ
  disposition : OutputDisposition
  deriving DecidableEq

structure PersistedRunReceipt where
  status : RunReceiptStatus
  servedModel : Option JsString
  modelRebound : Option Bool
  startedAt : Option ℤ
  agentEndAt : Option ℤ
  terminalAt : Option ℤ
  errorCode : Option JsString
  liveness : Option RunLivenessEvidence
  tokenUsage : Option RunTokenUsage
  outputEvidence : Option RunOutputEvidence
  finalText : Option FinalTextSnapshot
  completion : Capture
  idempotencyExpiresAt : Option ℤ
  idempotencyKeyDigest : Option JsString
  requestFingerprint : Option JsString
  deriving DecidableEq

/-- The cessation of a receipt, where it has one. -/
def PersistedRunReceipt.cessation (r : PersistedRunReceipt) : Option RunCessationEvidence := r.liveness.map (·.cessation)

inductive RunWorkState where
  | running
  | completed
  | turnEndedUnconfirmed
  | failed
  | cancelled
  | interrupted
  deriving DecidableEq

def deriveRunWorkState (status : RunReceiptStatus) (cessation : Option RunCessationEvidence) : RunWorkState :=
  match status with
  | .failed => .failed
  | .cancelled => .cancelled
  | .interrupted => .interrupted
  | .accepted | .queued | .started => .running
  | .completed => if cessation.any (·.state = .confirmed) then .completed else .turnEndedUnconfirmed

/-- A capture over another: what it sets, it sets. -/
def Capture.over (c current : Capture) : Capture where
  completion := c.completion.or current.completion
  completionDelimiter := c.completionDelimiter.or current.completionDelimiter
  completionError := c.completionError.or current.completionError

/-- The first capture wins, field by field. -/
def Capture.under (c current : Capture) : Capture where
  completion := current.completion.or c.completion
  completionDelimiter := if c.completion.isSome ∧ current.completion = none then c.completionDelimiter.or current.completionDelimiter
    else current.completionDelimiter
  completionError := current.completionError.or c.completionError

/-- What a transition is given; `errorCode` is there when its key is. -/
structure TransitionPatch where
  startedAt : Option ℤ := none
  terminalAt : Option ℤ := none
  errorCode : Option (Option JsString) := none
  liveness : Option RunLivenessEvidence := none
  outputEvidence : Option RunOutputEvidence := none
  finalText : Option FinalTextSnapshot := none
  completion : Capture := {}
  clearIdempotency : Bool := false
  deriving DecidableEq

inductive StoreCall where
  | transition (status : RunReceiptStatus) (patch : TransitionPatch)
  /-- `patch` with these keys. -/
  | patchServedModel (servedModel : Option JsString) (modelRebound : Bool)
  | patchLiveness (liveness : RunLivenessEvidence)
  /-- `patch` with keys that are not modelled. -/
  | patchOther
  | markResourceQuiescent (observedAt : ℤ)
  | releaseIdempotency
  | markAgentEnd (timestamp : ℤ) (observation : Option RunTerminalObservation) (tokenUsage : Option RunTokenUsage)
      (outputEvidence : Option RunOutputEvidence) (finalText : Option FinalTextSnapshot) (completion : Capture)
  deriving DecidableEq

/-- What a call does before its write. -/
inductive Started where
  | returns (receipt : Option PersistedRunReceipt)
  | throws
  | writes (next : PersistedRunReceipt)
  deriving DecidableEq

def applyTransition (now : ℤ) (current : PersistedRunReceipt) (status : RunReceiptStatus) (patch : TransitionPatch) : PersistedRunReceipt :=
  let next : PersistedRunReceipt := { current with
    status
    startedAt := patch.startedAt.or current.startedAt
    terminalAt := patch.terminalAt.or current.terminalAt
    errorCode := patch.errorCode.getD current.errorCode
    liveness := patch.liveness.or current.liveness
    outputEvidence := patch.outputEvidence.or current.outputEvidence
    finalText := patch.finalText.or current.finalText
    completion := patch.completion.over current.completion
    idempotencyExpiresAt := if patch.clearIdempotency then none else current.idempotencyExpiresAt
    idempotencyKeyDigest := if patch.clearIdempotency then none else current.idempotencyKeyDigest
    requestFingerprint := if patch.clearIdempotency then none else current.requestFingerprint }
  if isTerminal status ∧ next.terminalAt = none then { next with terminalAt := some now } else next

/-- `slice(-4)`. -/
def lastFour (observations : List RunTerminalObservation) : List RunTerminalObservation := observations.drop (observations.length - 4)

def RunTerminalObservation.same (a b : RunTerminalObservation) : Bool :=
  a.occurredAt = b.occurredAt && a.origin = b.origin && a.reason = b.reason

/-- The liveness after an `agent_end`. -/
def observeTerminal (status : RunReceiptStatus) (liveness : RunLivenessEvidence) (o : RunTerminalObservation) : RunLivenessEvidence :=
  let terminalObservation := { o with late := isTerminal status }
  let observations :=
    if liveness.terminalObservations.any (·.same terminalObservation) then liveness.terminalObservations
    else liveness.terminalObservations ++ [terminalObservation]
  let preserveTerminalCessation :=
    isTerminal status && (liveness.cessation.basis = .watchdog || liveness.cessation.basis = .serverRestart)
  { liveness with
    lastEligibleActivity := some ⟨js "agent_end", o.occurredAt, o.observedAt⟩
    terminalObservations := lastFour observations
    cessation :=
      if preserveTerminalCessation then liveness.cessation
      else ⟨.unconfirmed, if o.origin = .synthetic then .syntheticTerminalSignal else .terminalSignal, o.observedAt⟩ }

def confirmQuiescent (observedAt : ℤ) (current : PersistedRunReceipt) : PersistedRunReceipt :=
  { current with liveness := current.liveness.map fun l => { l with cessation := ⟨.confirmed, .resourceQuiescence, observedAt⟩ } }

/-- A call on the receipt that is cached when it is made. -/
def StoreCall.start (now : ℤ) (current : Option PersistedRunReceipt) : StoreCall → Started
  | .transition status patch =>
    match current with
    | none => .throws
    | some current =>
      if isLegalTransition current.status status then .writes (applyTransition now current status patch) else .throws
  | .patchServedModel servedModel modelRebound =>
    match current with
    | none => .returns none
    | some current =>
      if isTerminal current.status then .returns (some current)
      else .writes { current with servedModel, modelRebound := some modelRebound }
  | .patchLiveness liveness =>
    match current with
    | none => .returns none
    | some current => if isTerminal current.status then .returns (some current) else .writes { current with liveness := some liveness }
  | .patchOther =>
    match current with
    | none => .returns none
    | some current => if isTerminal current.status then .returns (some current) else .writes current
  | .markResourceQuiescent observedAt =>
    match current with
    | none => .returns none
    | some current => if current.liveness = none then .returns (some current) else .writes (confirmQuiescent observedAt current)
  | .releaseIdempotency =>
    match current with
    | none => .returns none
    | some current =>
      if current.idempotencyKeyDigest = none ∧ current.requestFingerprint = none ∧ current.idempotencyExpiresAt = none then .returns (some current)
      else .writes { current with idempotencyKeyDigest := none, requestFingerprint := none, idempotencyExpiresAt := none }
  | .markAgentEnd timestamp observation tokenUsage outputEvidence finalText completion =>
    match current with
    | none => .returns none
    | some current =>
      .writes { current with
        agentEndAt := current.agentEndAt.or (some timestamp)
        tokenUsage := current.tokenUsage.or tokenUsage
        outputEvidence := current.outputEvidence.or outputEvidence
        finalText := current.finalText.or finalText
        completion := completion.under current.completion
        liveness := match observation with
          | some o => current.liveness.map (observeTerminal current.status · o)
          | none => current.liveness }

/-- `transition` prunes after its write. -/
def StoreCall.prunes : StoreCall → Bool
  | .transition _ _ => true
  | _ => false

/-- A receipt that is found nonterminal at boot is interrupted. -/
def recover (now : ℤ) (record : PersistedRunReceipt) : PersistedRunReceipt :=
  if isTerminal record.status then record
  else { record with
    status := .interrupted
    terminalAt := some now
    errorCode := some (js "SERVER_RESTART")
    liveness := record.liveness.map fun l => { l with cessation := ⟨.unknown, .serverRestart, now⟩ } }

end PiWebUi.RunReceipts
