/-
  PiWebUi.Workers.WorkerPool — `WorkerPool`: at most one `SessionWorker` for a session path,
  at most `maxWorkers` of them, and the process-wide record of which pool owns a path.

  A worker is known by its place in `constructed`. What a worker does by itself comes as
  events: its status and clock (`workerStatus`), the steps of its resource lifecycle
  (`lifecycle`), and how its `spawn` and `terminate` settle. The handler a pool registers
  with `onTerminated` runs when the lifecycle reaches `released`. A call of `getOrCreate`
  that awaits stands in `calls`; after the await it goes on with what the pool is then
  (`resumed`, `cleanedUp`, `joined`). The two awaits that differ are the one on a pending
  termination, after which it starts over, and the one on the idle clean-up at capacity,
  after which it does not. Other pools claim and give up paths in the same owners map.
  `afterShutdown` of a worker is read by nothing.
-/

import PiWebUi.Lib.JsMap
import PiWebUi.Lib.JsNumber

namespace PiWebUi.Workers

open PiWebUi.Lib

inductive WorkerStatus where
  | spawning | ready | streaming | idle | terminated | error
deriving DecidableEq, Repr

inductive ResourceLifecycle where
  | unlaunched | owned | reconciling | released | quarantined
deriving DecidableEq, Repr

/-- What a worker's resource goes through; a launch that fails is reconciled without being owned. -/
def ResourceLifecycle.follows : ResourceLifecycle → ResourceLifecycle → Bool
  | .unlaunched, .owned | .unlaunched, .reconciling | .owned, .reconciling => true
  | .reconciling, .released | .reconciling, .quarantined => true
  | _, _ => false

structure WorkerAssignmentIdentity where
  sessionId : JsString
  sessionPath : JsString
  runId : JsString
  executionInstanceId : JsString
  attemptEpoch : ℤ
deriving DecidableEq

/-- How far the creation of a worker is: its `spawn`, its `terminate` after a failed one, the end. -/
inductive Creation where
  | spawning
  | terminating (error : JsString)
  | settled (answer : Except JsString Unit)

structure SessionWorker where
  sessionPath : JsString
  assignment : Option WorkerAssignmentIdentity
  status : WorkerStatus
  lastActivity : ℤ
  lifecycle : ResourceLifecycle
  creation : Creation
  afterShutdown : Bool

/-- A `terminateOwned` of a worker, or its teardown by `shutdownAll`. -/
structure Termination where
  path : JsString
  worker : ℕ
  settled : Option (Except JsString Unit)

inductive Owner where
  | thisPool
  | otherPool (kind : JsString)
deriving DecidableEq

/-- What `getOrCreate` was asked for; `optionsPath` is the `sessionPath` among its options. -/
structure Request where
  sessionPath : JsString
  optionsPath : Option JsString
  assignment : Option WorkerAssignmentIdentity
deriving DecidableEq

inductive Call where
  /-- Awaits a pending termination of its path. -/
  | afterTermination (request : Request) (termination : ℕ)
  /-- Awaits the idle clean-up made for it at capacity. -/
  | afterCleanup (request : Request) (terminations : List ℕ)
  /-- Awaits the creation of a worker, its own or another call's. -/
  | creating (worker : ℕ)

structure WorkerPool where
  maxWorkers : ℕ
  idleTimeoutMs : ℤ
  workers : JsMap JsString ℕ
  constructed : List SessionWorker
  creating : JsMap JsString ℕ
  terminating : JsMap JsString ℕ
  terminations : List Termination
  globalWorkerOwners : JsMap JsString Owner
  shuttingDown : Bool
  calls : JsMap ℕ Call
  nextCall : ℕ
  answers : List (ℕ × Except JsString ℕ)

inductive WorkerPoolEvent where
  | getOrCreate (request : Request) (now : ℤ)
  /-- The termination call `k` awaited has settled, and it goes on. -/
  | resumed (k : ℕ) (now : ℤ)
  | cleanedUp (k : ℕ) (now : ℤ)
  | joined (k : ℕ)
  | terminate (sessionPath : JsString)
  | cleanupIdle (now : ℤ) (maxIdleMs : Option ℤ)
  /-- `worker.terminate()` of a termination resolves, or rejects with an error. -/
  | terminationSettled (t : ℕ) (error : Option JsString)
  | spawnSettled (worker : ℕ) (error : Option JsString)
  /-- `worker.terminate()` after a failed spawn. -/
  | creationTerminated (worker : ℕ) (error : Option JsString)
  /-- The `finally` of the call that created the worker. -/
  | forgotten (worker : ℕ)
  | workerStatus (worker : ℕ) (status : WorkerStatus) (lastActivity : ℤ)
  | lifecycle (worker : ℕ) (lifecycle : ResourceLifecycle)
  | shutdownAll
  /-- `this.creating.clear()` at the end of the shutdown. -/
  | creatingCleared
  | otherClaims (sessionPath : JsString) (kind : JsString)
  | otherReleases (sessionPath : JsString)

namespace WorkerPool

def new (maxWorkers : ℕ) (idleTimeoutMs : ℤ) : WorkerPool :=
  ⟨maxWorkers, idleTimeoutMs, .empty, [], .empty, .empty, [], .empty, false, .empty, 0, []⟩

def lifecycleOf (s : WorkerPool) (worker : ℕ) : Option ResourceLifecycle := s.constructed[worker]?.map (·.lifecycle)

def creationOf (s : WorkerPool) (worker : ℕ) : Option Creation := s.constructed[worker]?.map (·.creation)

def statusOf (s : WorkerPool) (worker : ℕ) : Option WorkerStatus := s.constructed[worker]?.map (·.status)

/-- `if (owner?.poolId === this.poolId) globalWorkerOwners.delete(sessionPath)`. -/
def disown (owners : JsMap JsString Owner) (sessionPath : JsString) : JsMap JsString Owner :=
  if owners.get sessionPath = some .thisPool then owners.delete sessionPath else owners

def release (s : WorkerPool) (sessionPath : JsString) (expected : ℕ) : WorkerPool :=
  if s.workers.get sessionPath ≠ some expected then s
  else if s.lifecycleOf expected ≠ some .released then s
  else
    { s with
      workers := s.workers.delete sessionPath
      globalWorkerOwners := disown s.globalWorkerOwners sessionPath }

def cleanupTerminated (s : WorkerPool) : WorkerPool :=
  s.workers.entries.foldl (fun s e =>
    if s.statusOf e.2 = some .terminated ∧ s.lifecycleOf e.2 = some .released then s.release e.1 e.2 else s) s

/-- `terminateOwned`, and the termination it answers. -/
def terminateOwned (s : WorkerPool) (sessionPath : JsString) (worker : ℕ) : WorkerPool × ℕ :=
  match s.terminating.get sessionPath with
  | some pending => (s, pending)
  | none =>
    ({ s with
      terminations := s.terminations ++ [⟨sessionPath, worker, none⟩]
      terminating := s.terminating.set sessionPath s.terminations.length }, s.terminations.length)

def isIdle (s : WorkerPool) (worker : ℕ) (now idleThreshold : ℤ) : Bool :=
  s.constructed[worker]?.any fun w => (w.status = .idle || w.status = .ready) && now - w.lastActivity > idleThreshold

/-- The loop of `cleanupIdle` over the workers, and the terminations it collects. -/
def terminateIdle (now idleThreshold : ℤ) : List (JsString × ℕ) → WorkerPool × List ℕ → WorkerPool × List ℕ
  | [], p => p
  | (path, worker) :: rest, (s, terminations) =>
    if s.isIdle worker now idleThreshold then
      let (s, t) := s.terminateOwned path worker
      terminateIdle now idleThreshold rest (s, terminations ++ [t])
    else terminateIdle now idleThreshold rest (s, terminations)

/-- `cleanupIdle` up to its await. -/
def cleanupIdle (s : WorkerPool) (now : ℤ) (maxIdleMs : Option ℤ) : WorkerPool × List ℕ :=
  let (s, terminations) := terminateIdle now (maxIdleMs.getD s.idleTimeoutMs) s.workers.entries (s, [])
  (s.cleanupTerminated, terminations)

def answer (s : WorkerPool) (k : ℕ) (result : Except JsString ℕ) : WorkerPool :=
  { s with calls := s.calls.delete k, answers := s.answers ++ [(k, result)] }

def await (s : WorkerPool) (k : ℕ) (call : Call) : WorkerPool := { s with calls := s.calls.set k call }

/-- What `validateWarmAssignment` throws. -/
def warmMismatch (bound requested : Option WorkerAssignmentIdentity) : Option JsString :=
  match bound, requested with
  | none, none => none
  | none, some _ | some _, none =>
    some (js "Worker assignment identity cannot change between plain and contained ownership")
  | some bound, some requested =>
    if bound.sessionId ≠ requested.sessionId ∨ bound.sessionPath ≠ requested.sessionPath ∨
        bound.executionInstanceId ≠ requested.executionInstanceId ∨ requested.attemptEpoch < bound.attemptEpoch ∨
        (requested.attemptEpoch = bound.attemptEpoch ∧ requested.runId ≠ bound.runId) then
      some (js "Warm worker assignment owner identity mismatch: " ++ requested.sessionId)
    else none

/-- What `new SessionWorker` throws. -/
def constructorError (request : Request) : Option JsString :=
  if request.assignment.any (·.sessionPath ≠ request.optionsPath.getD request.sessionPath) then
    some (js "Worker assignment sessionPath does not match the worker session path")
  else none

/-- What `claimOwnership` throws. -/
def ownershipError (s : WorkerPool) (sessionPath : JsString) : Option JsString :=
  match s.globalWorkerOwners.get sessionPath with
  | some (.otherPool kind) => some (js "Worker session is already owned by " ++ kind ++ js " path: " ++ sessionPath)
  | _ => none

/-- `new SessionWorker`, entered in the maps; its `spawn` begins. -/
def construct (s : WorkerPool) (request : Request) (now : ℤ) : WorkerPool :=
  { s with
    constructed := s.constructed ++
      [⟨request.sessionPath, request.assignment, .spawning, now, .unlaunched, .spawning, s.shuttingDown⟩]
    workers := s.workers.set request.sessionPath s.constructed.length
    creating := s.creating.set request.sessionPath s.constructed.length }

/-- `getOrCreate` from `claimOwnership` to the await of the creation. -/
def create (s : WorkerPool) (k : ℕ) (request : Request) (now : ℤ) : WorkerPool :=
  match s.ownershipError request.sessionPath with
  | some error => s.answer k (.error error)
  | none =>
    let s := { s with globalWorkerOwners := s.globalWorkerOwners.set request.sessionPath .thisPool }
    match constructorError request with
    | some error => { s with globalWorkerOwners := disown s.globalWorkerOwners request.sessionPath }.answer k (.error error)
    | none => (s.construct request now).await k (.creating s.constructed.length)

def limitError (s : WorkerPool) : JsString :=
  js "Maximum worker limit reached (" ++ JsNumber.natText s.maxWorkers ++ js ")"

/-- `getOrCreate` from the check of the limit on. -/
def makeRoom (s : WorkerPool) (k : ℕ) (request : Request) (now : ℤ) : WorkerPool :=
  if s.workers.size ≥ s.maxWorkers then
    let (s, terminations) := s.cleanupIdle now none
    s.await k (.afterCleanup request terminations)
  else s.create k request now

/-- `getOrCreate` from its start to its first await. -/
def enter (s : WorkerPool) (k : ℕ) (request : Request) (now : ℤ) : WorkerPool :=
  if s.shuttingDown then s.answer k (.error (js "Worker pool is shutting down"))
  else match s.terminating.get request.sessionPath with
    | some pendingTermination => s.await k (.afterTermination request pendingTermination)
    | none =>
      match s.creating.get request.sessionPath with
      | some pendingCreation => s.await k (.creating pendingCreation)
      | none =>
        let s := s.cleanupTerminated
        match s.workers.get request.sessionPath with
        | none => s.makeRoom k request now
        | some existing =>
          if s.statusOf existing ≠ some .terminated then
            match warmMismatch (s.constructed[existing]?.bind (·.assignment)) request.assignment with
            | some error => s.answer k (.error error)
            | none => s.answer k (.ok existing)
          else if s.lifecycleOf existing ≠ some .released then
            s.answer k (.error (js "Worker session resource is quarantined or reconciling: " ++ request.sessionPath))
          else (s.release request.sessionPath existing).makeRoom k request now

def getOrCreate (s : WorkerPool) (request : Request) (now : ℤ) : WorkerPool :=
  { s with nextCall := s.nextCall + 1 }.enter s.nextCall request now

def settledOf (s : WorkerPool) (t : ℕ) : Option (Except JsString Unit) := s.terminations[t]?.bind (·.settled)

def resumed (s : WorkerPool) (k : ℕ) (now : ℤ) : WorkerPool :=
  match s.calls.get k with
  | some (.afterTermination request termination) =>
    match s.settledOf termination with
    | some (.ok ()) => s.enter k request now
    | some (.error error) => s.answer k (.error error)
    | none => s
  | _ => s

def rejectedOf (s : WorkerPool) (t : ℕ) : Option JsString :=
  match s.settledOf t with
  | some (.error error) => some error
  | _ => none

/-- The `Promise.all` over terminations: a rejection, or that all have resolved. -/
def allSettled (s : WorkerPool) (terminations : List ℕ) : Option (Except JsString Unit) :=
  match terminations.findSome? s.rejectedOf with
  | some error => some (.error error)
  | none => if terminations.all fun t => (s.settledOf t).isSome then some (.ok ()) else none

/-- `getOrCreate` after `await this.cleanupIdle()`: the size is checked again, nothing else is. -/
def cleanedUp (s : WorkerPool) (k : ℕ) (now : ℤ) : WorkerPool :=
  match s.calls.get k with
  | some (.afterCleanup request terminations) =>
    match s.allSettled terminations with
    | some (.ok ()) =>
      let s := s.cleanupTerminated
      if s.workers.size ≥ s.maxWorkers then s.answer k (.error s.limitError) else s.create k request now
    | some (.error error) => s.answer k (.error error)
    | none => s
  | _ => s

def joined (s : WorkerPool) (k : ℕ) : WorkerPool :=
  match s.calls.get k with
  | some (.creating worker) =>
    match s.creationOf worker with
    | some (.settled (.ok ())) => s.answer k (.ok worker)
    | some (.settled (.error error)) => s.answer k (.error error)
    | _ => s
  | _ => s

def terminate (s : WorkerPool) (sessionPath : JsString) : WorkerPool :=
  if s.terminating.has sessionPath then s
  else match s.workers.get sessionPath with
    | none => s
    | some worker => (s.terminateOwned sessionPath worker).1

/-- A settled promise: an error, or that it resolved. -/
def outcome : Option JsString → Except JsString Unit
  | none => .ok ()
  | some error => .error error

/-- The end of a termination. `worker.terminate()` resolves only when the resource is released. -/
def terminationSettled (s : WorkerPool) (t : ℕ) (error : Option JsString) : WorkerPool :=
  match s.terminations[t]? with
  | none => s
  | some termination =>
    if termination.settled.isSome || (error.isNone && s.lifecycleOf termination.worker ≠ some .released) then s
    else
      let s := if error.isNone then s.release termination.path termination.worker else s
      { s with
        terminations := s.terminations.modify t fun termination => { termination with settled := some (outcome error) }
        terminating := if s.terminating.get termination.path = some t then s.terminating.delete termination.path else s.terminating }

def modifyWorker (s : WorkerPool) (worker : ℕ) (f : SessionWorker → SessionWorker) : WorkerPool :=
  { s with constructed := s.constructed.modify worker f }

def afterSpawn : Option JsString → Creation
  | none => .settled (.ok ())
  | some error => .terminating error

def spawnSettled (s : WorkerPool) (worker : ℕ) (error : Option JsString) : WorkerPool :=
  match s.creationOf worker with
  | some .spawning =>
    s.modifyWorker worker fun w => { w with creation := afterSpawn error }
  | _ => s

/-- The catch block of a creation; an error of `terminate` replaces that of `spawn`. -/
def creationTerminated (s : WorkerPool) (worker : ℕ) (error : Option JsString) : WorkerPool :=
  match s.constructed[worker]? with
  | none => s
  | some w =>
    match w.creation with
    | .terminating spawnError =>
      if error.isNone && w.lifecycle ≠ .released then s
      else
        let s := if error.isNone then s.release w.sessionPath worker else s
        s.modifyWorker worker fun w => { w with creation := .settled (.error (error.getD spawnError)) }
    | _ => s

def forgotten (s : WorkerPool) (worker : ℕ) : WorkerPool :=
  match s.constructed[worker]? with
  | none => s
  | some w =>
    match w.creation with
    | .settled _ =>
      if s.creating.get w.sessionPath = some worker then { s with creating := s.creating.delete w.sessionPath } else s
    | _ => s

/-- A worker's resource goes on; when it is released, the pool's handler releases the worker. -/
def setLifecycle (s : WorkerPool) (worker : ℕ) (lifecycle : ResourceLifecycle) : WorkerPool :=
  match s.constructed[worker]? with
  | none => s
  | some w =>
    if w.lifecycle.follows lifecycle then
      let s := s.modifyWorker worker fun w => { w with lifecycle := lifecycle }
      if lifecycle = .released then s.release w.sessionPath worker else s
    else s

def shutdownAll (s : WorkerPool) : WorkerPool :=
  if s.shuttingDown then s
  else
    { s with
      shuttingDown := true
      terminations := s.terminations ++ s.workers.entries.map fun e => ⟨e.1, e.2, none⟩ }

def creatingCleared (s : WorkerPool) : WorkerPool := if s.shuttingDown then { s with creating := .empty } else s

def otherClaims (s : WorkerPool) (sessionPath kind : JsString) : WorkerPool :=
  if s.globalWorkerOwners.get sessionPath = some .thisPool then s
  else { s with globalWorkerOwners := s.globalWorkerOwners.set sessionPath (.otherPool kind) }

def otherReleases (s : WorkerPool) (sessionPath : JsString) : WorkerPool :=
  if s.globalWorkerOwners.get sessionPath = some .thisPool then s
  else { s with globalWorkerOwners := s.globalWorkerOwners.delete sessionPath }

def step (s : WorkerPool) : WorkerPoolEvent → WorkerPool
  | .getOrCreate request now => s.getOrCreate request now
  | .resumed k now => s.resumed k now
  | .cleanedUp k now => s.cleanedUp k now
  | .joined k => s.joined k
  | .terminate sessionPath => s.terminate sessionPath
  | .cleanupIdle now maxIdleMs => (s.cleanupIdle now maxIdleMs).1
  | .terminationSettled t error => s.terminationSettled t error
  | .spawnSettled worker error => s.spawnSettled worker error
  | .creationTerminated worker error => s.creationTerminated worker error
  | .forgotten worker => s.forgotten worker
  | .workerStatus worker status lastActivity =>
    s.modifyWorker worker fun w => { w with status := status, lastActivity := lastActivity }
  | .lifecycle worker lifecycle => s.setLifecycle worker lifecycle
  | .shutdownAll => s.shutdownAll
  | .creatingCleared => s.creatingCleared
  | .otherClaims sessionPath kind => s.otherClaims sessionPath kind
  | .otherReleases sessionPath => s.otherReleases sessionPath

/-! ## Safety -/

structure Safe (s : WorkerPool) : Prop where
  bounded : s.workers.size ≤ s.maxWorkers
  /-- A worker whose resource is not released is the one the map has for its path. -/
  registered : ∀ i w, s.constructed[i]? = some w → w.lifecycle ≠ .released → s.workers.get w.sessionPath = some i
  noneAfterShutdown : ∀ w ∈ s.constructed, w.afterShutdown = false
  owned : ∀ path, s.globalWorkerOwners.get path = some .thisPool ↔ s.workers.has path = true

/-- A call that goes on from the clean-up at capacity with room for its worker finds no worker
    of its path; and if it constructs one, the pool is not shutting down. -/
def CleanUpUndisturbed (s : WorkerPool) : WorkerPoolEvent → Prop
  | .cleanedUp k _ =>
    ∀ request terminations, s.calls.get k = some (.afterCleanup request terminations) →
      s.allSettled terminations = some (.ok ()) → s.cleanupTerminated.workers.size < s.maxWorkers →
        s.ownershipError request.sessionPath = none →
          s.workers.get request.sessionPath = none ∧ (s.shuttingDown = false ∨ (constructorError request).isSome = true)
  | _ => True

end WorkerPool

end PiWebUi.Workers
