/-
  PiWebUi.CommandCode.Service — `CommandCodeService`: the turns of its sessions from one
  await to the next, and the calls that cancel them.

  A `sendPrompt` that passes its availability check is one entry of `turns`; its `phase` is
  the await it stands at. What the outside answers is in the events: whether an awaited
  step failed, the checks that read no state of the service, what a child's output comes
  to, the calls `onComplete` makes before it returns. Calls made by the sinks of `emit`
  are steps of their own, as the turn is still at that await. The process runner is its
  `active` map. `stored` and `cancelled` of a turn and `targets` of a cancellation are
  read by nothing.
-/

import PiWebUi.CommandCode.ProcessRunner

namespace PiWebUi.CommandCode

open PiWebUi.Lib

/-- `CommandCodeInternalSessionRecord['state']`. -/
inductive RecordState where
  | created | running | idle | failed | aborted | deleted
deriving DecidableEq, Repr

inductive CommandCodeErrorClass where
  | runtime_error | auth_required | permission_denied | plan_ineligible | rate_limited | network_failure
  | provider_failure | max_turns | no_response | credits | interrupted | protocol_error | effort_unsupported
deriving DecidableEq, Repr

/-- What is thrown: a `CommandCodeRuntimeError` of a class, or any other error. -/
inductive TurnError where
  | runtime (code : CommandCodeErrorClass)
  | other
deriving DecidableEq, Repr

/-- How a turn ends: its `sendPrompt` throws, or `onComplete` is called. -/
inductive Outcome where
  | rejected (error : TurnError)
  | completed (error : Option TurnError)
deriving DecidableEq, Repr

def Outcome.interrupted (o : Outcome) : Bool :=
  o = .rejected (.runtime .interrupted) || o = .completed (some (.runtime .interrupted))

/-! ## The result of a child -/

inductive TerminalSubtype where
  | success | error | max_turns
deriving DecidableEq, Repr

def exitCodeClass : Option ℤ → CommandCodeErrorClass
  | some 3 => .auth_required
  | some 4 => .permission_denied
  | some 5 => .rate_limited
  | some 6 => .network_failure
  | some 7 => .provider_failure
  | some 8 => .max_turns
  | some 9 => .no_response
  | some 10 => .credits
  | some 130 => .interrupted
  | _ => .runtime_error

/-- A text that is there and not empty. -/
def given (text : Option JsString) : Bool := text.any (· ≠ [])

/-- `parsed` is the subtype of the terminal frame of a parsed output. -/
def classifyResult (result : CommandCodeProcessRunResult TerminalSubtype) : Option TurnError :=
  if given result.protocolError then some (.runtime .protocol_error)
  else if result.terminationCause = some .abort then some (.runtime .interrupted)
  else if result.terminationCause = some .timeout then some (.runtime .interrupted)
  else if given result.spawnError then some (.runtime .runtime_error)
  else if result.exitCode ≠ some 0 ∧
      (exitCodeClass result.exitCode ≠ .runtime_error ∨ result.parsed ≠ some .success) then
    some (.runtime (exitCodeClass result.exitCode))
  else match result.parsed with
    | none => some (.runtime .no_response)
    | some .max_turns => some (.runtime .max_turns)
    | some .error => some (.runtime .runtime_error)
    | some .success => none

/-! ## A turn -/

/-- The updates of its record that a turn issues. -/
inductive Update where
  | running
  | final (aborted : Bool) (error : Option TurnError)
  /-- The second one of a turn that was aborted while the final one was stored. -/
  | aborted
  /-- The one of the catch block. -/
  | failed (aborted : Bool) (error : TurnError)
deriving DecidableEq, Repr

def Update.state : Update → RecordState
  | .running => .running
  | .final true _ => .aborted
  | .final false (some _) => .failed
  | .final false none => .idle
  | .aborted => .aborted
  | .failed true _ => .aborted
  | .failed false _ => .failed

/-- Whether the record passes `validateRecord` with the patch: those of an abort and of the
    catch block keep a valid record valid. -/
def Update.passes (u : Update) (valid : Bool) : Bool :=
  match u with
  | .running | .final _ _ => valid
  | .aborted | .failed _ _ => true

/-- The result of the child and what is still to be emitted of its output: which of the
    events are an `agent_end`. -/
structure Finished where
  result : CommandCodeProcessRunResult TerminalSubtype
  emits : List Bool
deriving DecidableEq

/-- The awaits of `sendPrompt`. -/
inductive Phase where
  | init
  /-- `store.get`; `again` after `hasSession`. -/
  | get (again : Bool)
  | got (again : Bool) (record : Option RecordState)
  | hasSession
  /-- `store.update`, up to where the record is set. -/
  | store (u : Update)
  /-- `store.update`, while the record is written. -/
  | save (u : Update)
  /-- `syncRegistryRecord`, which never fails. -/
  | sync (u : Update)
  /-- `agent_start`, `message_start` and `message_end`: how many are left. -/
  | emitStart (left : ℕ)
  | canonicalCwd
  | goalArming
  | sessionIdentity
  | child
  | streamQueue (result : CommandCodeProcessRunResult TerminalSubtype)
  | bind (f : Finished)
  | syncBound (f : Finished)
  | emitFinal (f : Finished)
  /-- The synthetic end of the catch block. -/
  | emitEnd (error : TurnError)
  | settled (outcome : Outcome)
deriving DecidableEq

namespace Phase

/-- The session is in `pendingSessions`. -/
def pending : Phase → Bool
  | .init | .get _ | .got _ _ | .hasSession => true
  | _ => false

/-- The session is in `activeSessions`. -/
def active : Phase → Bool
  | .init | .get _ | .got _ _ | .hasSession | .settled _ => false
  | _ => true

def inFlight : Phase → Bool
  | .settled _ => false
  | _ => true

end Phase

structure Turn where
  sessionId : JsString
  phase : Phase
  emittedTerminal : Bool
  /-- The state this turn stored last. -/
  stored : Option RecordState
  /-- An abort, a deletion or a shutdown was called while the turn was pending or active. -/
  cancelled : Bool
deriving DecidableEq

def Turn.inFlight (t : Turn) : Bool := t.phase.inFlight

/-- What the outside answers to the checks of a turn: `assertRunnable`, the access policy,
    the advertised models, the length of the prompt, whether the registry can restore the
    session, whether an updated record passes `validateRecord`. -/
structure Checks where
  runnable : Bool
  accessible : Bool
  advertised : Bool
  fits : Bool
  restorable : Bool
  valid : Bool
deriving DecidableEq, Repr

inductive Answer where
  | ok
  | failed (error : TurnError)
  | checked (checks : Checks)
  /-- The stream is emitted; whether a native id is to be bound, and what is left to emit. -/
  | finished (binds : Bool) (emits : List Bool)
deriving DecidableEq

/-! ## The service -/

inductive InitState where
  | pending | done | failed
deriving DecidableEq, Repr

/-- An entry of the runner's `active` map: the turn that runs the child, and why it was told to end. -/
structure RunningChild where
  turn : ℕ
  cause : Option TerminationCause
deriving DecidableEq, Repr

structure EffortMutation where
  sessionId : JsString
  settled : Bool
deriving DecidableEq, Repr

/-- The calls made of the service. -/
inductive Call where
  | sendPrompt (sessionId : JsString)
  | setEffort (sessionId : JsString)
  | abort (sessionId : JsString)
  | deleteSession (sessionId : JsString)
  | shutdown
deriving DecidableEq, Repr

inductive CancelPhase where
  | waiting | clearing | unlinking | settled
deriving DecidableEq, Repr

/-- An `abort`, `deleteSession` or `shutdown` from its call on, with the children, turns and
    effort changes it waits for. -/
structure Cancellation where
  deletes : Option JsString
  targets : List ℕ
  children : List ℕ
  turns : List ℕ
  mutations : List ℕ
  phase : CancelPhase
deriving DecidableEq, Repr

structure CommandCodeService where
  concurrency : ℕ
  initState : InitState
  shuttingDown : Bool
  pendingSessions : JsMap JsString Unit
  activeSessions : JsMap JsString Unit
  effortMutations : JsMap JsString Unit
  abortRequested : JsMap JsString Unit
  deletedSessions : JsMap JsString Unit
  inFlightTurns : JsMap JsString ℕ
  inFlightEffortMutations : JsMap JsString ℕ
  /-- The records of the store, by what its `get` answers. -/
  records : JsMap JsString RecordState
  running : JsMap JsString RunningChild
  turns : List Turn
  mutations : List EffortMutation
  cancellations : List Cancellation

inductive ServiceEvent where
  | call (c : Call)
  /-- `initialize`; `some n` when it failed after `n` records were reconciled. -/
  | initSettles (failed : Option ℕ)
  /-- The turn goes on from its await; `calls` are those of its `onComplete`, if it comes to that. -/
  | turn (k : ℕ) (answer : Answer) (calls : List Call)
  | terminated (sessionId : JsString) (cause : TerminationCause)
  | childClosed (sessionId : JsString) (result : CommandCodeProcessRunResult TerminalSubtype)
  | effortSettled (k : ℕ)
  | cancelGoesOn (k : ℕ)
  /-- A session created, or restored by a call that is no turn. -/
  | created (sessionId : JsString)

namespace CommandCodeService

/-- The service over a store that has just been opened. -/
def new (concurrency : ℕ) (records : JsMap JsString RecordState) : CommandCodeService :=
  ⟨concurrency, .pending, false, .empty, .empty, .empty, .empty, .empty, .empty, .empty, records, .empty, [], [], []⟩

def modifyTurn (s : CommandCodeService) (k : ℕ) (f : Turn → Turn) : CommandCodeService := { s with turns := s.turns.modify k f }

def moveTo (s : CommandCodeService) (k : ℕ) (phase : Phase) : CommandCodeService := s.modifyTurn k fun t => { t with phase := phase }

/-! ### The calls -/

def assertTurnAvailable (s : CommandCodeService) (sessionId : JsString) : Option TurnError :=
  if s.shuttingDown then some (.runtime .interrupted)
  else if s.deletedSessions.has sessionId then some (.runtime .runtime_error)
  else if s.pendingSessions.has sessionId || s.activeSessions.has sessionId || s.effortMutations.has sessionId then
    some (.runtime .runtime_error)
  else none

/-- `sendPrompt`, up to its first await. -/
def sendPrompt (s : CommandCodeService) (sessionId : JsString) : CommandCodeService :=
  if (s.assertTurnAvailable sessionId).isSome then s
  else
    { s with
      inFlightTurns := s.inFlightTurns.set sessionId s.turns.length
      pendingSessions := s.pendingSessions.set sessionId ()
      turns := s.turns ++ [⟨sessionId, .init, false, none, false⟩] }

def setEffort (s : CommandCodeService) (sessionId : JsString) : CommandCodeService :=
  if (s.assertTurnAvailable sessionId).isSome then s
  else
    { s with
      effortMutations := s.effortMutations.set sessionId ()
      inFlightEffortMutations := s.inFlightEffortMutations.set sessionId s.mutations.length
      mutations := s.mutations ++ [⟨sessionId, false⟩] }

/-- `terminate` of the child of a session, if it has one. -/
def terminate (s : CommandCodeService) (sessionId : JsString) (cause : TerminationCause) : CommandCodeService :=
  match s.running.get sessionId with
  | none => s
  | some c => if c.cause.isSome then s else { s with running := s.running.set sessionId { c with cause := some cause } }

/-- The session is pending or active. -/
def busy (s : CommandCodeService) (sessionId : JsString) : Bool :=
  s.pendingSessions.has sessionId || s.activeSessions.has sessionId

/-- The turns that a call for these sessions cancels. -/
def targets (s : CommandCodeService) (meant : JsString → Bool) : List ℕ :=
  (List.range s.turns.length).filter fun k => s.turns[k]?.any fun t => t.inFlight && s.busy t.sessionId && meant t.sessionId

def cancel (s : CommandCodeService) (meant : JsString → Bool) : CommandCodeService :=
  { s with turns := s.turns.map fun t =>
      if t.inFlight && s.busy t.sessionId && meant t.sessionId then { t with cancelled := true } else t }

def waitFor (s : CommandCodeService) (c : Cancellation) : CommandCodeService :=
  { s with cancellations := s.cancellations ++ [c] }

def childOf (s : CommandCodeService) (sessionId : JsString) : List ℕ := ((s.running.get sessionId).map (·.turn)).toList

def abort (s : CommandCodeService) (sessionId : JsString) : CommandCodeService :=
  if !s.busy sessionId then s
  else
    (({ s with abortRequested := s.abortRequested.set sessionId () }.cancel (· = sessionId)).terminate sessionId .abort).waitFor
      ⟨none, s.targets (· = sessionId), s.childOf sessionId, [], [], .waiting⟩

def deleteSession (s : CommandCodeService) (sessionId : JsString) : CommandCodeService :=
  (({ s with
      deletedSessions := s.deletedSessions.set sessionId ()
      abortRequested := s.abortRequested.set sessionId () }.cancel (· = sessionId)).terminate sessionId .abort).waitFor
    ⟨some sessionId, s.targets (· = sessionId), s.childOf sessionId, (s.inFlightTurns.get sessionId).toList,
      (s.inFlightEffortMutations.get sessionId).toList, .waiting⟩

/-- A second call gets the promise of the first. -/
def shutdown (s : CommandCodeService) : CommandCodeService :=
  if s.shuttingDown then s
  else
    let flagged := (s.pendingSessions.keys ++ s.activeSessions.keys).foldl (fun m x => m.set x ()) s.abortRequested
    (s.running.keys.foldl (fun (s : CommandCodeService) x => s.terminate x .shutdown)
      ({ s with shuttingDown := true, abortRequested := flagged }.cancel fun _ => true)).waitFor
      ⟨none, s.targets fun _ => true, s.running.values.map RunningChild.turn, s.inFlightTurns.values, s.inFlightEffortMutations.values,
        .waiting⟩

def call (s : CommandCodeService) : Call → CommandCodeService
  | .sendPrompt sessionId => s.sendPrompt sessionId
  | .setEffort sessionId => s.setEffort sessionId
  | .abort sessionId => s.abort sessionId
  | .deleteSession sessionId => s.deleteSession sessionId
  | .shutdown => s.shutdown

/-! ### A turn goes on -/

/-- The state after the step, and how the turn ends if it does. -/
abbrev Resumed := CommandCodeService × Option Outcome

/-- The update of the catch block. -/
def failure (s : CommandCodeService) (sessionId : JsString) (error : TurnError) : Update :=
  .failed (s.abortRequested.has sessionId || error = .runtime .interrupted) error

/-- The catch block: the synthetic end comes first, unless a terminal event is out. -/
def fail (s : CommandCodeService) (k : ℕ) (t : Turn) (error : TurnError) : CommandCodeService :=
  s.moveTo k (if t.emittedTerminal then .store (s.failure t.sessionId error) else .emitEnd error)

/-- The checks of a prompt against the record it read. -/
def refusal (s : CommandCodeService) (sessionId : JsString) (record : RecordState) (checks : Checks) : Option TurnError :=
  if record = .deleted ∨ checks.accessible = false then some (.runtime .permission_denied)
  else if s.deletedSessions.has sessionId then some (.runtime .runtime_error)
  else if checks.advertised = false then some (.runtime .protocol_error)
  else if record = .running ∨ s.running.has sessionId = true then some (.runtime .runtime_error)
  else if s.activeSessions.size ≥ s.concurrency then some (.runtime .runtime_error)
  else if checks.fits = false then some (.runtime .protocol_error)
  else if s.abortRequested.has sessionId then some (.runtime .interrupted)
  else none

/-- From pending to active. -/
def claim (s : CommandCodeService) (k : ℕ) (sessionId : JsString) : CommandCodeService :=
  { s with
    pendingSessions := s.pendingSessions.delete sessionId
    activeSessions := s.activeSessions.set sessionId () }.moveTo k (.store .running)

def admits (s : CommandCodeService) (k : ℕ) (t : Turn) (again : Bool) (record : Option RecordState) (checks : Checks) : Resumed :=
  match record with
  | none => if again then (s, some (.rejected (.runtime .runtime_error))) else (s.moveTo k .hasSession, none)
  | some state =>
    match s.refusal t.sessionId state checks with
    | some error => (s, some (.rejected error))
    | none => (s.claim k t.sessionId, none)

/-- `hasSession` makes the record of a session the registry knows. -/
def restore (s : CommandCodeService) (sessionId : JsString) (restorable : Bool) : CommandCodeService :=
  if restorable && !s.records.has sessionId then { s with records := s.records.set sessionId .created } else s

/-- An update that throws: before the turn's body, in it, or in its catch block, where it is swallowed. -/
def updateFailed (s : CommandCodeService) (k : ℕ) (t : Turn) (u : Update) (error : TurnError) : Resumed :=
  match u with
  | .running => ({ s with activeSessions := s.activeSessions.delete t.sessionId }, some (.rejected error))
  | .final _ _ | .aborted => (s.fail k t error, none)
  | .failed _ e => (s, some (.completed (some e)))

/-- `updateRecord`, up to where it writes. -/
def storeUpdate (s : CommandCodeService) (k : ℕ) (t : Turn) (u : Update) (valid : Bool) : Resumed :=
  if s.records.has t.sessionId && u.passes valid then
    ({ s with records := s.records.set t.sessionId u.state }.modifyTurn k
      fun t => { t with phase := .save u, stored := some u.state }, none)
  else s.updateFailed k t u .other

/-- What follows an update that succeeded. -/
def synced (s : CommandCodeService) (k : ℕ) (t : Turn) (u : Update) : Resumed :=
  match u with
  | .running => (s.moveTo k (.emitStart 3), none)
  | .final _ error =>
    if s.abortRequested.has t.sessionId then (s.moveTo k (.store .aborted), none) else (s, some (.completed error))
  | .aborted => (s, some (.completed (some (.runtime .interrupted))))
  | .failed _ error => (s, some (.completed (some error)))

/-- `runner.run`, up to where it returns its promise. -/
def spawn (s : CommandCodeService) (k : ℕ) (t : Turn) : CommandCodeService :=
  if s.running.has t.sessionId then s.fail k t .other
  else { s with running := s.running.set t.sessionId ⟨k, none⟩ }.moveTo k .child

/-- The events left, then the final update. -/
def emitting (s : CommandCodeService) (k : ℕ) (t : Turn) (f : Finished) : CommandCodeService :=
  match f.emits with
  | [] =>
    let aborted := s.abortRequested.has t.sessionId
    let error := if aborted then some (.runtime .interrupted) else classifyResult f.result
    s.moveTo k (.store (.final (f.result.terminationCause = some .abort || aborted) error))
  | _ :: _ => s.moveTo k (.emitFinal f)

def emitted (s : CommandCodeService) (k : ℕ) (t : Turn) (f : Finished) : CommandCodeService :=
  match f.emits with
  | [] => s
  | terminal :: rest =>
    (s.modifyTurn k fun t => { t with emittedTerminal := t.emittedTerminal || terminal }).emitting k t { f with emits := rest }

def resume (s : CommandCodeService) (k : ℕ) (t : Turn) : Phase → Answer → Resumed
  | .init, .failed error => (s, if s.initState = .failed then some (.rejected error) else none)
  | .init, .checked checks =>
    if s.initState ≠ .done then (s, none)
    else if s.shuttingDown then (s, some (.rejected (.runtime .interrupted)))
    else if checks.runnable = false then (s, some (.rejected (.runtime .runtime_error)))
    else (s.moveTo k (.get false), none)
  | .get again, .ok => (s.moveTo k (.got again (s.records.get t.sessionId)), none)
  | .got again record, .checked checks => s.admits k t again record checks
  | .hasSession, .checked checks => ((s.restore t.sessionId checks.restorable).moveTo k (.get true), none)
  | .store u, .checked checks => s.storeUpdate k t u checks.valid
  | .save u, .ok => (s.moveTo k (.sync u), none)
  | .save u, .failed error => s.updateFailed k t u error
  | .sync u, .ok => s.synced k t u
  | .emitStart left, .ok => (s.moveTo k (if left ≤ 1 then .canonicalCwd else .emitStart (left - 1)), none)
  | .canonicalCwd, .ok =>
    (if s.abortRequested.has t.sessionId then s.fail k t (.runtime .interrupted) else s.moveTo k .goalArming, none)
  | .goalArming, .ok => (s.moveTo k .sessionIdentity, none)
  | .sessionIdentity, .ok => (s.spawn k t, none)
  | .streamQueue result, .finished binds emits =>
    (if binds then s.moveTo k (.bind ⟨result, emits⟩) else s.emitting k t ⟨result, emits⟩, none)
  | .bind f, .ok => (s.moveTo k (.syncBound f), none)
  | .syncBound f, .ok => (s.emitting k t f, none)
  | .emitFinal f, .ok => (s.emitted k t f, none)
  | .emitEnd error, .ok => (s.moveTo k (.store (s.failure t.sessionId error)), none)
  | .emitEnd error, .failed _ => (s.moveTo k (.store (s.failure t.sessionId error)), none)
  | .emitStart _, .failed error | .canonicalCwd, .failed error | .goalArming, .failed error | .sessionIdentity, .failed error
  | .streamQueue _, .failed error | .bind _, .failed error | .emitFinal _, .failed error => (s.fail k t error, none)
  | _, _ => (s, none)

/-- A turn that ends, up to its finally block: the session is no longer active when
    `onComplete` is called. -/
def ended (s : CommandCodeService) (k : ℕ) (sessionId : JsString) (calls : List Call) : Outcome → CommandCodeService
  | .rejected error => s.moveTo k (.settled (.rejected error))
  | .completed error =>
    calls.foldl call ({ s with activeSessions := s.activeSessions.delete sessionId }.moveTo k (.settled (.completed error)))

/-- The finally block. -/
def settle (s : CommandCodeService) (k : ℕ) (sessionId : JsString) : CommandCodeService :=
  { s with
    pendingSessions := s.pendingSessions.delete sessionId
    activeSessions := s.activeSessions.delete sessionId
    abortRequested := s.abortRequested.delete sessionId
    inFlightTurns := if s.inFlightTurns.get sessionId = some k then s.inFlightTurns.delete sessionId else s.inFlightTurns }

def turnGoesOn (s : CommandCodeService) (k : ℕ) (answer : Answer) (calls : List Call) : CommandCodeService :=
  match s.turns[k]? with
  | none => s
  | some t =>
    match s.resume k t t.phase answer with
    | (s', none) => s'
    | (s', some outcome) => (s'.ended k t.sessionId calls outcome).settle k t.sessionId

/-! ### The rest -/

/-- `reconcileAfterRestart`: the records found running have failed. -/
def reconcile (records : JsMap JsString RecordState) (failed : Option ℕ) : JsMap JsString RecordState :=
  let ids := (records.entries.filter (·.2 = .running)).map (·.1)
  (match failed with
    | none => ids
    | some n => ids.take n).foldl (fun m x => m.set x .failed) records

def initSettles (s : CommandCodeService) (failed : Option ℕ) : CommandCodeService :=
  if s.initState ≠ .pending then s
  else { s with records := reconcile s.records failed, initState := if failed.isSome then .failed else .done }

/-- `finish` of the runner: its promise resolves with the result. -/
def childClosed (s : CommandCodeService) (sessionId : JsString) (result : CommandCodeProcessRunResult TerminalSubtype) :
    CommandCodeService :=
  match s.running.get sessionId with
  | none => s
  | some c =>
    { s with running := s.running.delete sessionId }.modifyTurn c.turn fun t =>
      if t.phase = Phase.child then { t with phase := .streamQueue { result with terminationCause := c.cause } } else t

def effortSettled (s : CommandCodeService) (k : ℕ) : CommandCodeService :=
  match s.mutations[k]? with
  | none => s
  | some m =>
    if m.settled then s
    else
      { s with
        mutations := s.mutations.modify k fun m => { m with settled := true }
        effortMutations := s.effortMutations.delete m.sessionId
        inFlightEffortMutations :=
          if s.inFlightEffortMutations.get m.sessionId = some k then s.inFlightEffortMutations.delete m.sessionId
          else s.inFlightEffortMutations }

/-- What a cancellation waits for is over. -/
def isOver (s : CommandCodeService) (c : Cancellation) : Bool :=
  c.children.all (fun k => s.running.values.all (·.turn ≠ k)) &&
    c.turns.all (fun k => s.turns[k]?.all (!·.inFlight)) && c.mutations.all (fun k => s.mutations[k]?.all (·.settled))

def cancelMovesTo (s : CommandCodeService) (k : ℕ) (phase : CancelPhase) : CommandCodeService :=
  { s with cancellations := s.cancellations.modify k fun c => { c with phase := phase } }

/-- The finally block of `deleteSession`. -/
def undelete (s : CommandCodeService) (sessionId : JsString) : CommandCodeService :=
  { s with
    deletedSessions := s.deletedSessions.delete sessionId
    abortRequested := s.abortRequested.delete sessionId }

def cancelGoesOn (s : CommandCodeService) (k : ℕ) : CommandCodeService :=
  match s.cancellations[k]? with
  | none => s
  | some c =>
    match c.phase, c.deletes with
    | .waiting, none => if s.isOver c then s.cancelMovesTo k .settled else s
    | .waiting, some _ => if s.isOver c then s.cancelMovesTo k .clearing else s
    | .clearing, some sessionId =>
      if s.records.has sessionId then { s with records := s.records.delete sessionId }.cancelMovesTo k .unlinking
      else (s.undelete sessionId).cancelMovesTo k .settled
    | .unlinking, some sessionId => (s.undelete sessionId).cancelMovesTo k .settled
    | _, _ => s

def step (s : CommandCodeService) : ServiceEvent → CommandCodeService
  | .call c => s.call c
  | .initSettles failed => s.initSettles failed
  | .turn k answer calls => s.turnGoesOn k answer calls
  | .terminated sessionId cause => s.terminate sessionId cause
  | .childClosed sessionId result => s.childClosed sessionId result
  | .effortSettled k => s.effortSettled k
  | .cancelGoesOn k => s.cancelGoesOn k
  | .created sessionId => s.restore sessionId true

end CommandCodeService

end PiWebUi.CommandCode
