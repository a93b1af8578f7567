/-
  PiWebUi.Watch.Manager — one watch of the watch manager (watch/watch-manager.ts).

  The state is the live watch (`ActiveWatch`) with what belongs to it in the process: its
  ledger (`record`), the chain of wake dispatches, the retry and deadline timers, the
  release of its pins, the queued ledger writes and the ledger on disk. A step is one turn
  of the event loop: an event, a timer, the start or the answer of a `dispatchWake` call,
  the answer of an `unpinSession` call, the end of a write. Every step says how much time
  passed since the last one, so the clock never goes back. `boot` is `WatchManager.init`
  over the ledger a crash left on disk.
-/

import PiWebUi.Watch.Conditions

namespace PiWebUi.Watch

open Lib

inductive WatchStatus where
  | active
  | detached
  | done
  | closed
  deriving DecidableEq

inductive WatchWakeAttemptStatus where
  | pending
  | dispatched
  | failed
  | suppressed
  deriving DecidableEq

inductive WakeMode where
  | prompt
  | follow_up
  | steer
  deriving DecidableEq

structure WatchConditionState where
  id : JsString
  type : JsString
  spec : WatchConditionSpec
  fired : Bool := false
  fireCount : ℕ := 0
  firstFiredAt : Option JsNumber := none
  lastFiredAt : Option JsNumber := none
  dueAt : Option ℕ := none
  deriving DecidableEq

structure WatchFiring where
  conditionId : JsString
  firedAt : JsNumber
  eventType : JsString
  evidence : JsString
  reconciled : Bool := false
  deriving DecidableEq

/-- The action after `validateOnFireAction`, which fills every default. -/
structure WatchOnFireAction where
  targetSessionId : JsString
  mode : WakeMode := .follow_up
  maxWakeups : ℕ := 1
  cooldownSeconds : ℕ := 60
  pinTarget : Bool := true
  deriving DecidableEq

structure WatchWakeAttempt where
  ref : ℕ
  attemptedAt : ℕ
  targetSessionId : JsString
  status : WatchWakeAttemptStatus
  conditionId : JsString
  runId : Option JsString := none
  deliveryKind : Option JsString := none
  errorCode : Option JsString := none
  reason : Option JsString := none
  deriving DecidableEq

structure WatchSnapshot where
  running : Bool := false
  eventCount : ℕ := 0
  toolCallCount : ℕ := 0
  sawAgentEnd : Bool := false
  lastEventType : Option JsString := none
  lastEventAt : Option JsNumber := none
  deriving DecidableEq

/-- The ledger. -/
structure PersistedWatch where
  status : WatchStatus := .active
  pinned : Bool
  targetPinned : Bool
  updatedAt : ℕ
  conditions : List WatchConditionState
  onFire : Option WatchOnFireAction
  wakeAttempts : List WatchWakeAttempt := []
  firings : List WatchFiring := []
  snapshot : WatchSnapshot := {}
  deriving DecidableEq

def DEFAULT_MAX_PER_CONDITION : ℕ := 50

def DEFAULT_MAX_TOTAL : ℕ := 500

def MAX_WAKE_ATTEMPTS_RECORDED : ℕ := 50

def TRANSIENT_WAKE_ERRORS : List JsString :=
  [js "SESSION_BUSY", js "ADMISSION_CAPACITY_EXHAUSTED", js "PROFILE_CAPACITY_EXHAUSTED",
    js "WAKE_DISPATCH_UNAVAILABLE", js "WAKE_DISPATCH_ERROR", js "SESSION_NOT_STREAMING"]

def consumesWakeBudget (attempt : WatchWakeAttempt) : Bool :=
  attempt.status = .dispatched ||
    (attempt.status = .failed && !(TRANSIENT_WAKE_ERRORS.contains (attempt.errorCode.getD []))) ||
    attempt.status = .pending

inductive WatchWakeDispatchResult where
  | dispatched (runId deliveryKind : Option JsString)
  | failed (errorCode : JsString)
  deriving DecidableEq

/-- A dispatch on the wake chain; `called` once its turn has come. -/
structure WakeTask where
  attempt : ℕ
  conditionId : JsString
  isRetry : Bool
  called : Bool := false
  deriving DecidableEq

structure WakeCall where
  decidedAt : ℕ
  attempt : WatchWakeAttempt
  deriving DecidableEq

/-- Where the release of a completed watch's pins stands. -/
inductive Release where
  | idle
  | subject
  | target
  | released
  deriving DecidableEq

structure DeadlineTimer where
  conditionId : JsString
  reconciled : Bool
  deriving DecidableEq

structure ActiveWatch (ρ : Type) where
  resolved : List (ResolvedCondition ρ)
  engine : ConditionEngine := {}
  record : PersistedWatch
  wakeChain : List WakeTask := []
  wakeRetryTimers : List JsString := []
  deadlineTimers : List DeadlineTimer := []
  pendingSteerTargets : List JsString := []
  /-- What is left of the restart reconciliation's `WakeBudget`. -/
  restartBudget : ℕ := 0
  release : Release := .idle
  /-- The claims this process holds on the subject and on the wake target. -/
  subjectClaim : Bool
  targetClaim : Bool
  saves : List PersistedWatch := []
  disk : PersistedWatch
  snapshotDirty : Bool := false
  clock : ℕ
  nextRef : ℕ := 0
  calls : List WakeCall := []

namespace ActiveWatch

variable {ρ : Type}

/-! ## The ledger -/

/-- `persistLive`: the payload is the ledger as it is now; it is written in its turn. -/
def persistLive (w : ActiveWatch ρ) : ActiveWatch ρ := { w with saves := w.saves ++ [w.record], snapshotDirty := false }

/-- `attempts.slice(-MAX_WAKE_ATTEMPTS_RECORDED)`. -/
def lastRecorded (attempts : List WatchWakeAttempt) : List WatchWakeAttempt :=
  attempts.drop (attempts.length - MAX_WAKE_ATTEMPTS_RECORDED)

def pushAttempt (w : ActiveWatch ρ) (attempt : WatchWakeAttempt) : ActiveWatch ρ :=
  { w with
    record := { w.record with wakeAttempts := lastRecorded (w.record.wakeAttempts ++ [attempt]), updatedAt := w.clock }
    nextRef := w.nextRef + 1 }

def appendWakeAttempt (w : ActiveWatch ρ) (attempt : WatchWakeAttempt) : ActiveWatch ρ := persistLive (pushAttempt w attempt)

end ActiveWatch

def oneShotFired (condition : WatchConditionState) : Bool := condition.spec.once ≠ some false && condition.fired

def allOneShotConditionsFired (record : PersistedWatch) : Bool :=
  !record.conditions.isEmpty && record.conditions.all oneShotFired

def isPending (attempt : WatchWakeAttempt) : Bool := attempt.status = .pending

namespace ActiveWatch

variable {ρ : Type}

/-- Mark a terminal one-shot watch done and start the release of its claims. -/
def completeWatch (w : ActiveWatch ρ) : ActiveWatch ρ :=
  if w.record.status = .done || !allOneShotConditionsFired w.record || w.record.wakeAttempts.any isPending ||
      !w.wakeRetryTimers.isEmpty then w
  else { w with record := { w.record with status := .done, updatedAt := w.clock }, deadlineTimers := [], release := .subject }

/-! ## Wakes -/

def suppressed (w : ActiveWatch ρ) (action : WatchOnFireAction) (conditionId reason : JsString) : WatchWakeAttempt :=
  { ref := w.nextRef, attemptedAt := w.clock, targetSessionId := action.targetSessionId, status := .suppressed
    conditionId, reason := some reason }

def suppress (w : ActiveWatch ρ) (action : WatchOnFireAction) (conditionId reason : JsString) : ActiveWatch ρ :=
  let w := appendWakeAttempt w (suppressed w action conditionId reason)
  if allOneShotConditionsFired w.record then completeWatch w else w

def dispatchedCount (record : PersistedWatch) : ℕ := record.wakeAttempts.countP consumesWakeBudget

def lastDispatchedAt (record : PersistedWatch) : ℕ :=
  ((record.wakeAttempts.filter fun a => a.status ≠ .suppressed).map (·.attemptedAt)).foldl max 0

/-- Why the wake policy holds a wake back; `none` lets it be dispatched. -/
def wakeRefusal (w : ActiveWatch ρ) (action : WatchOnFireAction) : Option JsString :=
  if action.maxWakeups ≤ dispatchedCount w.record then some (js "max_wakeups_reached")
  else if 0 < lastDispatchedAt w.record ∧ w.clock < lastDispatchedAt w.record + action.cooldownSeconds * 1000 then
    some (js "cooldown")
  else if action.mode = .steer ∧ action.targetSessionId ∈ w.pendingSteerTargets then some (js "steer_pending")
  else none

def pending (w : ActiveWatch ρ) (action : WatchOnFireAction) (conditionId : JsString) : WatchWakeAttempt :=
  { ref := w.nextRef, attemptedAt := w.clock, targetSessionId := action.targetSessionId, status := .pending, conditionId }

/-- Record the attempt and put its dispatch on the chain. -/
def dispatch (w : ActiveWatch ρ) (action : WatchOnFireAction) (conditionId : JsString) (isRetry : Bool) : ActiveWatch ρ :=
  let attempt := pending w action conditionId
  { pushAttempt w attempt with
    pendingSteerTargets :=
      if action.mode = .steer then action.targetSessionId :: w.pendingSteerTargets else w.pendingSteerTargets
    wakeChain := w.wakeChain ++ [{ attempt := attempt.ref, conditionId, isRetry }]
    calls := w.calls ++ [{ decidedAt := w.clock, attempt }] }

def dispatchWakeForFiring (w : ActiveWatch ρ) (conditionId : JsString) (isRetry : Bool) : ActiveWatch ρ :=
  match w.record.onFire with
  | none => w
  | some action =>
    match wakeRefusal w action with
    | some reason => suppress w action conditionId reason
    | none => dispatch w action conditionId isRetry

/-! ## Firings -/

structure FiringInput where
  eventType : JsString
  evidence : JsString
  firedAt : JsNumber
  reconciled : Bool := false

/-- `recordFiring`'s guards: once-semantics and the two caps. -/
def admits (record : PersistedWatch) (cond : WatchConditionState) : Bool :=
  !(cond.spec.once ≠ some false && cond.fired) && cond.fireCount < DEFAULT_MAX_PER_CONDITION &&
    record.firings.length < DEFAULT_MAX_TOTAL

def markFired (cond : WatchConditionState) (firedAt : JsNumber) : WatchConditionState :=
  { cond with
    fireCount := cond.fireCount + 1, lastFiredAt := some firedAt, fired := true
    firstFiredAt := if cond.fired then cond.firstFiredAt else some firedAt }

def addFiring (w : ActiveWatch ρ) (k : ℕ) (cond : WatchConditionState) (input : FiringInput) : ActiveWatch ρ :=
  { w with record := { w.record with
      firings := w.record.firings ++ [{ conditionId := cond.id, firedAt := input.firedAt, eventType := input.eventType
                                        evidence := input.evidence, reconciled := input.reconciled }]
      conditions := w.record.conditions.set k (markFired cond input.firedAt) } }

/-- The wake of a firing, and what is left of the budget it shares. -/
def wakeForFiring (w : ActiveWatch ρ) (conditionId : JsString) (budget : Option ℕ) : ActiveWatch ρ × Option ℕ :=
  match w.record.onFire, budget with
  | none, _ => (w, budget)
  | some action, some 0 =>
    (appendWakeAttempt w (suppressed w action conditionId (js "coalesced_restart_reconciliation")), budget)
  | some _, some (n + 1) => (dispatchWakeForFiring w conditionId false, some n)
  | some _, none => (dispatchWakeForFiring w conditionId false, none)

/-- `recordFiring` for the condition at position `k`; the last component says whether a
    firing was recorded. -/
def recordFiring (w : ActiveWatch ρ) (k : ℕ) (input : FiringInput) (budget : Option ℕ) : ActiveWatch ρ × Option ℕ × Bool :=
  match w.record.conditions[k]? with
  | none => (w, budget, false)
  | some cond =>
    if !admits w.record cond then (w, budget, false)
    else
      let (w, budget) := wakeForFiring (addFiring w k cond input) cond.id budget
      (w, budget, true)

/-- The position of the first condition with this id. -/
def find (record : PersistedWatch) (conditionId : JsString) : Option ℕ :=
  record.conditions.findIdx? fun c => c.id = conditionId

/-- The loop of `handleEvent` over the matches. -/
def recordMatches (firedAt : JsNumber) : List ConditionMatch → ActiveWatch ρ → Option ℕ → Bool → ActiveWatch ρ × Option ℕ × Bool
  | [], w, budget, fired => (w, budget, fired)
  | m :: ms, w, budget, fired =>
    match find w.record m.conditionId with
    | none => recordMatches firedAt ms w budget fired
    | some k =>
      if DEFAULT_MAX_TOTAL ≤ w.record.firings.length then (w, budget, fired)
      else
        let (w, budget, recorded) :=
          recordFiring w k { eventType := m.eventType, evidence := m.evidence, firedAt } budget
        recordMatches firedAt ms w budget (fired || recorded)

def observe (s : WatchSnapshot) (event : NormalizedEvent) : WatchSnapshot :=
  { running :=
      if event.type = js "agent_start" then true
      else if event.type = NormalizedEvent.agent_end then false else s.running
    eventCount := s.eventCount + 1
    toolCallCount := if event.type = NormalizedEvent.tool_execution_start then s.toolCallCount + 1 else s.toolCallCount
    sawAgentEnd := s.sawAgentEnd || event.type = NormalizedEvent.agent_end
    lastEventType := some event.type
    lastEventAt := some event.timestamp }

/-- After the firings of one step: a pure observer completes, and a firing is written at
    once where other changes wait for the flush. -/
def finishFirings (w : ActiveWatch ρ) (fired : Bool) : ActiveWatch ρ :=
  let w := { w with record := { w.record with updatedAt := w.clock } }
  let w := if fired && w.record.onFire.isNone && allOneShotConditionsFired w.record then completeWatch w else w
  if fired then persistLive w else { w with snapshotDirty := true }

/-- The matches an event is given; a full ledger is not evaluated any more. -/
def eventMatches (R : RegExps ρ) (w : ActiveWatch ρ) (event : NormalizedEvent) : List ConditionMatch :=
  if w.record.firings.length < DEFAULT_MAX_TOTAL then (ingest R w.resolved w.engine event).2 else []

def observed (R : RegExps ρ) (w : ActiveWatch ρ) (event : NormalizedEvent) : ActiveWatch ρ :=
  { w with
    engine := if w.record.firings.length < DEFAULT_MAX_TOTAL then (ingest R w.resolved w.engine event).1 else w.engine
    record := { w.record with snapshot := observe w.record.snapshot event } }

def handleEvent (R : RegExps ρ) (w : ActiveWatch ρ) (event : NormalizedEvent) (budget : Option ℕ) : ActiveWatch ρ × Option ℕ :=
  if w.record.status ≠ .active then (w, budget)
  else
    let (v, budget, fired) := recordMatches event.timestamp (eventMatches R w event) (observed R w event) budget false
    (finishFirings v fired, budget)

/-! ## Deadlines -/

def deadlineEvidence (cond : WatchConditionState) (due : ℕ) : JsString :=
  js "deadline " ++ (cond.spec.afterSeconds.getD (.fin 0)).toText ++ js "s elapsed (due " ++ isoString due ++ js ")"

def deadlineInput (w : ActiveWatch ρ) (timer : DeadlineTimer) (cond : WatchConditionState) (due : ℕ) : FiringInput :=
  { eventType := js "deadline", evidence := deadlineEvidence cond due, firedAt := .fin w.clock
    reconciled := timer.reconciled }

/-- One firing with what follows it. -/
def fireAlone (w : ActiveWatch ρ) (k : ℕ) (input : FiringInput) : ActiveWatch ρ :=
  let (v, _, recorded) := recordFiring w k input none
  if recorded then finishFirings v true else v

/-- A timer that goes off is no longer pending. -/
def dropDeadline (w : ActiveWatch ρ) (i : ℕ) : ActiveWatch ρ := { w with deadlineTimers := w.deadlineTimers.eraseIdx i }

def fireDeadline (w : ActiveWatch ρ) (timer : DeadlineTimer) : ActiveWatch ρ :=
  if w.record.status ≠ .active then w
  else
    match find w.record timer.conditionId with
    | none => w
    | some k =>
      match w.record.conditions[k]? with
      | none => w
      | some cond =>
        match cond.dueAt with
        | none => w
        | some due =>
          if cond.fired then w
          else if w.clock < due then { w with deadlineTimers := w.deadlineTimers ++ [timer] }
          else fireAlone w k (deadlineInput w timer cond due)

/-! ## Fire-if-settled -/

def SETTLED_COMPLETION_EVENT_TYPES : List JsString := [js "agent_end", js "goal_end"]

/-- Completion-type conditions without a predicate on the event. -/
def settles (cond : WatchConditionState) : Bool :=
  cond.type = js "event_type" && (cond.spec.eventType.any (SETTLED_COMPLETION_EVENT_TYPES.contains ·)) &&
    !(cond.spec.dataMatch.any fun m => !m.entries.isEmpty) && !(cond.spec.once ≠ some false && cond.fired)

def recordSettled (evidence : JsString) : List ℕ → ActiveWatch ρ → Bool → ActiveWatch ρ × Bool
  | [], w, fired => (w, fired)
  | k :: ks, w, fired =>
    match w.record.conditions[k]? with
    | none => recordSettled evidence ks w fired
    | some cond =>
      if !settles cond then recordSettled evidence ks w fired
      else
        let (w, _, recorded) := recordFiring w k
          { eventType := cond.spec.eventType.getD [], evidence, firedAt := .fin w.clock, reconciled := true } none
        recordSettled evidence ks w (fired || recorded)

def applyFireIfSettled (w : ActiveWatch ρ) (runNote : JsString) : ActiveWatch ρ :=
  if w.record.status ≠ .active then w
  else
    let (v, fired) :=
      recordSettled (js "settled at registration" ++ runNote) (List.range w.record.conditions.length) w false
    if fired then finishFirings v true else v

/-! ## Dispatch results -/

def settle (result : WatchWakeDispatchResult) (clock : ℕ) (attempt : WatchWakeAttempt) : WatchWakeAttempt :=
  match result with
  | .dispatched runId deliveryKind => { attempt with attemptedAt := clock, status := .dispatched, runId, deliveryKind }
  | .failed errorCode => { attempt with attemptedAt := clock, status := .failed, errorCode := some errorCode }

/-- Change the attempt object `ref`, wherever it is still held. -/
def updateAttempt (w : ActiveWatch ρ) (ref : ℕ) (f : WatchWakeAttempt → WatchWakeAttempt) : ActiveWatch ρ :=
  { w with
    record := { w.record with
      wakeAttempts := w.record.wakeAttempts.map fun a => if a.ref = ref then f a else a
      updatedAt := w.clock }
    calls := w.calls.map fun c => if c.attempt.ref = ref then { c with attempt := f c.attempt } else c }

def isTransient : WatchWakeDispatchResult → Bool
  | .failed errorCode => TRANSIENT_WAKE_ERRORS.contains errorCode
  | .dispatched .. => false

def steerDone (w : ActiveWatch ρ) : List JsString :=
  match w.record.onFire with
  | some action =>
    if action.mode = .steer then w.pendingSteerTargets.filter (· ≠ action.targetSessionId) else w.pendingSteerTargets
  | none => w.pendingSteerTargets

/-- The head of the chain gets its `dispatchWake` result. -/
def wakeResult (w : ActiveWatch ρ) (result : WatchWakeDispatchResult) : ActiveWatch ρ :=
  match w.wakeChain with
  | [] => w
  | task :: rest =>
    if !task.called then w
    else
      let w := persistLive (updateAttempt w task.attempt (settle result w.clock))
      let w := { w with wakeChain := rest, pendingSteerTargets := steerDone w }
      if isTransient result && !task.isRetry then
        { w with wakeRetryTimers := w.wakeRetryTimers ++ [task.conditionId] }
      else if allOneShotConditionsFired w.record then completeWatch w
      else w

def callWake (w : ActiveWatch ρ) : ActiveWatch ρ :=
  match w.wakeChain with
  | [] => w
  | task :: rest => { w with wakeChain := { task with called := true } :: rest }

def dropRetry (w : ActiveWatch ρ) (i : ℕ) : ActiveWatch ρ := { w with wakeRetryTimers := w.wakeRetryTimers.eraseIdx i }

def retryWake (w : ActiveWatch ρ) (i : ℕ) : ActiveWatch ρ :=
  match w.wakeRetryTimers[i]? with
  | none => w
  | some conditionId => dispatchWakeForFiring (dropRetry w i) conditionId true

/-! ## Releasing the pins, writing the ledger -/

/-- The release reaches its next `unpinSession` call, whose answer is `ok`. -/
def unpin (w : ActiveWatch ρ) (ok : Bool) : ActiveWatch ρ :=
  match w.release with
  | .idle | .released => w
  | .subject =>
    if w.record.pinned && ok then
      { w with record := { w.record with pinned := false }, subjectClaim := false, release := .target }
    else { w with release := .target }
  | .target =>
    let v := if w.record.targetPinned && w.record.onFire.isSome && ok then
        { w with record := { w.record with targetPinned := false }, targetClaim := false }
      else w
    { v with saves := v.saves ++ [v.record], release := .released }

/-- The oldest queued write ends. -/
def write (w : ActiveWatch ρ) (ok : Bool) : ActiveWatch ρ :=
  match w.saves with
  | [] => w
  | payload :: rest =>
    if ok then { w with disk := payload, saves := rest } else { w with saves := rest, snapshotDirty := true }

def flush (w : ActiveWatch ρ) : ActiveWatch ρ := if w.snapshotDirty then persistLive w else w

/-! ## Steps -/

inductive Step where
  | event (e : NormalizedEvent)
  /-- The restart reconciliation's `agent_end`, with a fresh budget of one wake. -/
  | reconcileRestart (e : NormalizedEvent)
  /-- Its `goal_end`, which shares that budget. -/
  | reconcileGoalEnd (e : NormalizedEvent)
  /-- `notifyRunNeverStarted`, with a budget of its own. -/
  | neverStarted (e : NormalizedEvent)
  | fireIfSettled (runNote : JsString)
  | deadline (i : ℕ)
  | callWake
  | wakeResult (result : WatchWakeDispatchResult)
  | retryWake (i : ℕ)
  | unpin (ok : Bool)
  | write (ok : Bool)
  | flush
  /-- Another watch starts or ends a steer of a target. -/
  | steer (target : JsString) (busy : Bool)

def reconcile (R : RegExps ρ) (w : ActiveWatch ρ) (e : NormalizedEvent) (budget : ℕ) : ActiveWatch ρ :=
  let (v, left) := handleEvent R w e (some budget)
  { v with restartBudget := left.getD 0 }

def act (R : RegExps ρ) (w : ActiveWatch ρ) : Step → ActiveWatch ρ
  | .event e => (handleEvent R w e none).1
  | .reconcileRestart e => reconcile R w e 1
  | .reconcileGoalEnd e => reconcile R w e w.restartBudget
  | .neverStarted e => (handleEvent R w e (some 1)).1
  | .fireIfSettled runNote => applyFireIfSettled w runNote
  | .deadline i =>
    match w.deadlineTimers[i]? with
    | none => w
    | some timer => fireDeadline (dropDeadline w i) timer
  | .callWake => callWake w
  | .wakeResult result => wakeResult w result
  | .retryWake i => retryWake w i
  | .unpin ok => unpin w ok
  | .write ok => write w ok
  | .flush => flush w
  | .steer target busy =>
    { w with pendingSteerTargets :=
        if busy then target :: w.pendingSteerTargets else w.pendingSteerTargets.filter (· ≠ target) }

def tick (w : ActiveWatch ρ) (elapsed : ℕ) : ActiveWatch ρ := { w with clock := w.clock + elapsed }

/-- A step and the milliseconds that passed since the last one. -/
def step (R : RegExps ρ) (w : ActiveWatch ρ) (s : ℕ × Step) : ActiveWatch ρ := act R (tick w s.1) s.2

def run (R : RegExps ρ) (w : ActiveWatch ρ) (ss : List (ℕ × Step)) : ActiveWatch ρ := ss.foldl (step R) w

/-! ## Registration and boot -/

def dueAt (clock : ℕ) (c : ResolvedCondition ρ) : Option ℕ :=
  if c.type = js "deadline" then
    match c.spec.afterSeconds with
    | some (.fin q) => some (clock + q.num.toNat * 1000)
    | _ => none
  else none

def conditionState (clock : ℕ) (c : ResolvedCondition ρ) : WatchConditionState :=
  { id := c.id, type := c.type, spec := c.spec, dueAt := dueAt clock c }

def armDeadlines (record : PersistedWatch) (reconciled : ℕ → Bool) : List DeadlineTimer :=
  record.conditions.filterMap fun cond =>
    match cond.dueAt with
    | some due => if cond.type = js "deadline" && !cond.fired then some ⟨cond.id, reconciled due⟩ else none
    | none => none

/-- The live watch of an accepted registration: its ledger is on disk before it goes live. -/
def registered (resolved : List (ResolvedCondition ρ)) (onFire : Option WatchOnFireAction) (pinned targetPinned : Bool)
    (clock : ℕ) : ActiveWatch ρ :=
  let record : PersistedWatch :=
    { pinned, targetPinned, updatedAt := clock, conditions := resolved.map (conditionState clock), onFire }
  { resolved, record, disk := record, subjectClaim := pinned, targetClaim := targetPinned, clock
    deadlineTimers := armDeadlines record fun _ => false }

/-- A record that is not live: a ledger that can be read, and nothing else. -/
def unattached (w : ActiveWatch ρ) (record : PersistedWatch) : ActiveWatch ρ :=
  { resolved := [], record, disk := record, subjectClaim := false, targetClaim := false, clock := w.clock
    nextRef := w.nextRef, calls := w.calls }

/-- `init` of a new manager over the ledger on disk. The subject's pin counts only if the
    runtime grants it again; the target's is asked for and its answer ignored. -/
def boot (R : RegExps ρ) (w : ActiveWatch ρ) (subjectOk targetOk : Bool) : ActiveWatch ρ :=
  let record := w.disk
  if record.status ≠ .active then unattached w record
  else
    match resolveConditions R (record.conditions.map (·.spec)) with
    | .error _ => unattached w { record with status := .detached }
    | .ok [] => unattached w { record with status := .detached }
    | .ok resolved =>
      let record := { record with pinned := record.pinned && subjectOk }
      let live : ActiveWatch ρ :=
        { resolved, record, disk := w.disk, subjectClaim := record.pinned, clock := w.clock
          targetClaim := record.targetPinned && record.onFire.isSome && targetOk
          deadlineTimers := armDeadlines record fun due => due ≤ w.clock
          nextRef := w.nextRef, calls := w.calls }
      if record.onFire.isNone && allOneShotConditionsFired record then completeWatch live else live

/-! ## What the wake policy leaves alone -/

section

variable (w : ActiveWatch ρ)
include w

theorem completeWatch_cases : completeWatch w = w ∨
    (allOneShotConditionsFired w.record = true ∧ w.record.wakeAttempts.any isPending = false ∧ w.wakeRetryTimers = [] ∧
      completeWatch w = { w with record := { w.record with status := .done, updatedAt := w.clock }, deadlineTimers := []
                                 release := .subject }) := by
  rw [completeWatch]
  split_ifs with h
  · exact .inl rfl
  · simp only [Bool.or_eq_true, not_or, Bool.not_eq_true, Bool.not_eq_false, Bool.not_eq_true', List.isEmpty_iff] at h
    exact .inr ⟨h.1.1.2, h.1.2, h.2, rfl⟩

@[simp] theorem completeWatch_frame : (completeWatch w).record.conditions = w.record.conditions ∧
    (completeWatch w).record.firings = w.record.firings ∧ (completeWatch w).resolved = w.resolved := by
  rcases completeWatch_cases w with h | ⟨-, -, -, h⟩ <;> simp [h]

@[simp] theorem suppress_frame (a : WatchOnFireAction) (c r : JsString) : (suppress w a c r).record.conditions = w.record.conditions ∧
    (suppress w a c r).record.firings = w.record.firings ∧ (suppress w a c r).resolved = w.resolved := by
  rw [suppress]
  split_ifs <;> simp [appendWakeAttempt, persistLive, pushAttempt]

end

section

variable (w : ActiveWatch ρ) (c : JsString) (isRetry : Bool)
include w c isRetry

theorem dispatchWakeForFiring_cases : (w.record.onFire = none ∧ dispatchWakeForFiring w c isRetry = w) ∨
      ∃ action, w.record.onFire = some action ∧
        ((∃ reason, wakeRefusal w action = some reason ∧ dispatchWakeForFiring w c isRetry = suppress w action c reason) ∨
          (wakeRefusal w action = none ∧ dispatchWakeForFiring w c isRetry = dispatch w action c isRetry)) := by
  rw [dispatchWakeForFiring]
  cases ho : w.record.onFire with
  | none => exact .inl ⟨rfl, rfl⟩
  | some action =>
    refine .inr ⟨action, rfl, ?_⟩
    cases hr : wakeRefusal w action with
    | some reason => exact .inl ⟨reason, rfl, by simp [hr]⟩
    | none => exact .inr ⟨rfl, by simp [hr]⟩

@[simp] theorem dispatchWakeForFiring_frame : (dispatchWakeForFiring w c isRetry).record.conditions = w.record.conditions ∧
    (dispatchWakeForFiring w c isRetry).record.firings = w.record.firings ∧ (dispatchWakeForFiring w c isRetry).resolved = w.resolved := by
  rcases dispatchWakeForFiring_cases w c isRetry with ⟨-, h⟩ | ⟨a, -, ⟨r, -, h⟩ | ⟨-, h⟩⟩ <;> rw [h]
  · simp
  · simp
  · exact ⟨rfl, rfl, rfl⟩

end

section

variable (w : ActiveWatch ρ) (c : JsString) (budget : Option ℕ)
include w c budget

/-- The wake of a firing: none, coalesced away, or the policy's decision. -/
theorem wakeForFiring_cases : (w.record.onFire = none ∧ wakeForFiring w c budget = (w, budget)) ∨
      (∃ action, w.record.onFire = some action ∧ budget = some 0 ∧ wakeForFiring w c budget =
        (appendWakeAttempt w (suppressed w action c (js "coalesced_restart_reconciliation")), some 0)) ∨
      (w.record.onFire.isSome = true ∧ budget ≠ some 0 ∧ wakeForFiring w c budget =
        (dispatchWakeForFiring w c false, budget.map (· - 1))) := by
  cases ho : w.record.onFire with
  | none => exact .inl ⟨rfl, by simp only [wakeForFiring, ho]⟩
  | some action =>
    rcases budget with _ | _ | n
    · exact .inr (.inr ⟨rfl, by simp, by simp only [wakeForFiring, ho, Option.map_none]⟩)
    · exact .inr (.inl ⟨action, rfl, rfl, by simp only [wakeForFiring, ho]⟩)
    · exact .inr (.inr ⟨rfl, by simp, by simp only [wakeForFiring, ho, Option.map_some, Nat.add_sub_cancel]⟩)

@[simp] theorem wakeForFiring_frame : (wakeForFiring w c budget).1.record.conditions = w.record.conditions ∧
    (wakeForFiring w c budget).1.record.firings = w.record.firings ∧ (wakeForFiring w c budget).1.resolved = w.resolved := by
  rcases wakeForFiring_cases w c budget with ⟨-, h⟩ | ⟨a, -, -, h⟩ | ⟨-, -, h⟩ <;> rw [h]
  · exact ⟨rfl, rfl, rfl⟩
  · exact ⟨rfl, rfl, rfl⟩
  · simp

end

/-- A firing is refused, or recorded at its position with its wake. -/
theorem recordFiring_cases (w : ActiveWatch ρ) (k : ℕ) (input : FiringInput) (budget : Option ℕ) :
    ((∀ cond, w.record.conditions[k]? = some cond → admits w.record cond = false) ∧
        recordFiring w k input budget = (w, budget, false)) ∨
      ∃ cond, w.record.conditions[k]? = some cond ∧ admits w.record cond = true ∧ recordFiring w k input budget =
        ((wakeForFiring (addFiring w k cond input) cond.id budget).1,
          (wakeForFiring (addFiring w k cond input) cond.id budget).2, true) := by
  cases hk : w.record.conditions[k]? with
  | none => exact .inl ⟨fun cond h => (by cases h), by simp only [recordFiring, hk]⟩
  | some cond =>
    cases ha : admits w.record cond with
    | false => exact .inl ⟨fun d h => (Option.some.inj h) ▸ ha, by simp [recordFiring, hk, ha]⟩
    | true => exact .inr ⟨cond, rfl, ha, by simp [recordFiring, hk, ha]⟩

/-- A deadline timer does nothing, waits again, or fires the condition it finds. -/
theorem fireDeadline_cases (w : ActiveWatch ρ) (timer : DeadlineTimer) :
    fireDeadline w timer = w ∨ fireDeadline w timer = { w with deadlineTimers := w.deadlineTimers ++ [timer] } ∨
      ∃ k cond due, w.record.status = .active ∧ find w.record timer.conditionId = some k ∧
        w.record.conditions[k]? = some cond ∧ cond.dueAt = some due ∧ cond.fired = false ∧ due ≤ w.clock ∧
        fireDeadline w timer = fireAlone w k (deadlineInput w timer cond due) := by
  by_cases hs : w.record.status = .active
  swap
  · exact .inl (by simp [fireDeadline, hs])
  cases hf : find w.record timer.conditionId with
  | none => exact .inl (by simp [fireDeadline, hf])
  | some k =>
    cases hk : w.record.conditions[k]? with
    | none => exact .inl (by simp [fireDeadline, hf, hk])
    | some cond =>
      cases hd : cond.dueAt with
      | none => exact .inl (by simp [fireDeadline, hf, hk, hd])
      | some due =>
        by_cases hfired : cond.fired = true
        · exact .inl (by simp [fireDeadline, hf, hk, hd, hfired])
        by_cases hdue : w.clock < due
        · exact .inr (.inl (by simp [fireDeadline, hs, hf, hk, hd, hfired, hdue]))
        · exact .inr (.inr ⟨k, cond, due, hs, rfl, hk, hd, by simpa using hfired, by omega,
            by simp [fireDeadline, hs, hf, hk, hd, hfired, hdue]⟩)

end ActiveWatch

end PiWebUi.Watch
