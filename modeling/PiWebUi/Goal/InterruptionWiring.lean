/-
  PiWebUi.Goal.InterruptionWiring — the server's wiring of the interruption sweep
  (interruption-wiring.ts), and `handleCandidate` and `run` of interruption-sweep.ts as it uses
  them.

  `runSweep` lists the registry, reads the time of each entry's file and runs the sweep over
  the candidates. When a sweep has ended for the first time, `classificationSettled` resolves;
  `hasGoalContinueMarker` waits for it, and the restart reconciliation of the watches waits for
  that. Calls overlap (a drain that times out sweeps beside the boot) and so do probes, every
  await is a step.
-/

import PiWebUi.Goal.InterruptionSweep

namespace PiWebUi.Goal.Wiring

open Lib

structure WiringRegistryEntry where
  id : JsString
  path : JsString
  sdkType : JsString
  origin : Option SessionOrigin := none
  parentSource : Option JsString := none
  deriving DecidableEq

/-! ## A candidate -/

inductive SkipReason where
  /-- origin '…' is not an API child -/
  | origin (o : Option SessionOrigin)
  /-- last activity … outside the previous lifetime bound -/
  | lastActivity (ms : Option JsNumber)
  /-- session is live (busy) -/
  | busy
  /-- non-Pi visibility runs only in the boot sweep -/
  | notBoot
  /-- non-Pi goal state '…' is not a silent active stop -/
  | nonPiState (status : Option CanonicalGoalStatus)
  /-- goal state '…' is not a continueable stop -/
  | goalState (status : CanonicalGoalStatus)
  /-- error: … -/
  | error (message : JsString)
  deriving DecidableEq

inductive Handling where
  | skipped (reason : SkipReason)
  | interruptedVisible (p : SessionGoalProjection)
  | handedOn (stop : ClassifiedStop) (p : SessionGoalProjection)
  deriving DecidableEq

/-- What the awaits for one candidate answer, or throw. -/
structure CandidateAnswers where
  isSessionBusy : Except JsString Bool := .ok false
  runtimeProjection : Except JsString (Option SessionGoalProjection) := .ok none
  rawProjection : Except JsString SessionGoalProjection := .ok { status := .idle }
  continueOnce : Except JsString Unit := .ok ()
  publish : Except JsString Unit := .ok ()
  now : ℕ := 0

section Candidate

variable (deps : SweepDeps) (c : SweepCandidate) (a : CandidateAnswers)

/-- The non-Pi branch of `handleCandidate`, in a boot sweep. -/
def showSilentStop : Except JsString Handling := do
  let p ← if deps.readsRuntime then a.runtimeProjection else .ok none
  match silentStop c p a.now with
  | none => .ok (.skipped (.nonPiState (p.map (·.status))))
  | some q => do
    a.publish
    .ok (.interruptedVisible q)

def classifyAndContinue : Except JsString Handling := do
  let p ← a.rawProjection
  match classifyCandidate c p with
  | none => .ok (.skipped (.goalState p.status))
  | some stop => do
    a.continueOnce
    .ok (.handedOn stop p)

def handleCandidate (bootTimeMs : JsNumber) (boot : Bool) : Except JsString Handling :=
  if !isApiOriginChild c then .ok (.skipped (.origin c.origin))
  else if !inScope deps c bootTimeMs then .ok (.skipped (.lastActivity c.lastActivityMs))
  else do
    let busy ← a.isSessionBusy
    if busy then .ok (.skipped .busy)
    else if c.runtime ≠ js "pi" then
      if boot then showSilentStop deps c a else .ok (.skipped .notBoot)
    else classifyAndContinue c a

/-- What a worker of `run` reports of the candidate. -/
def handling (bootTimeMs : JsNumber) (boot : Bool) : Handling :=
  match handleCandidate deps c a bootTimeMs boot with
  | .ok h => h
  | .error message => .skipped (.error message)

end Candidate

/-- The candidates of `run` by session: an announced one gives way to a later one. -/
def unique (candidates : List SweepCandidate) : List SweepCandidate :=
  (candidates.foldl (fun (m : JsMap JsString SweepCandidate) c =>
    m.set c.sessionId
      (match m.get c.sessionId with
      | some existing => if existing.announced.isSome then c else existing
      | none => c)) .empty).values

/-- The sweep is wired without `readRuntimeProjection`, and with the default bounds. -/
def wiredDeps : SweepDeps := {}

/-! ## The wiring -/

inductive CallPhase where
  | listing
  | stats (rest : List WiringRegistryEntry) (candidates : List SweepCandidate)
  | sweeping (rest : List SweepCandidate) (bootTimeMs : JsNumber)
  | fulfilled
  | rejected (message : JsString)
  deriving DecidableEq

def CallPhase.isSettled : CallPhase → Bool
  | .fulfilled | .rejected _ => true
  | _ => false

/-- A call of `runSweep`, with the option `boot` that it was given. -/
structure Call where
  announced : JsMap JsString AnnouncedInterruption
  boot : Bool
  phase : CallPhase := .listing

inductive Probe where
  | waiting (sessionId : JsString)
  | answered (answer : Bool)
  deriving DecidableEq

structure Handled where
  boot : Bool
  candidate : SweepCandidate
  handling : Handling
  deriving DecidableEq

structure State where
  bootTimeMs : JsNumber
  calls : List Call := []
  idToPath : JsMap JsString JsString := .empty
  classifiedOnce : Bool := false
  classificationSettled : Bool := false
  probes : List Probe := []
  handled : List Handled := []

/-- What the reads of a probe give; `none` where one throws. -/
structure ProbeAnswers where
  raw : Option SessionGoalProjection := none
  marker : Option (Option ContinueMarker) := none

def hasGoalContinueMarker (s : State) (sessionId : JsString) (a : ProbeAnswers) : Bool :=
  match s.idToPath.get sessionId, a.raw, a.marker with
  | some path, some raw, some (some m) =>
    path ≠ [] && raw.status ≠ .idle && raw.status ≠ .unknown && (raw.objective.getD []) ≠ [] &&
      1 ≤ m.count && m.state = .confirmed && m.continuedAt.any fun t => s.bootTimeMs.le (.fin t)
  | _, _, _ => false

def candidateOf (announced : JsMap JsString AnnouncedInterruption) (e : WiringRegistryEntry) (mtime : Option JsNumber) :
    SweepCandidate :=
  { sessionId := e.id, sessionPath := e.path, runtime := e.sdkType, origin := e.origin, parentSource := e.parentSource
    lastActivityMs := mtime, announced := (announced.get e.id).orElse fun _ => announced.get e.path }

inductive Step where
  | runSweep (announced : JsMap JsString AnnouncedInterruption) (boot : Bool)
  | listed (i : ℕ) (entries : Except JsString (List WiringRegistryEntry))
  | stat (i : ℕ) (mtime : Option JsNumber)
  /-- `sweep.run(candidates, Date.now())`. -/
  | run (i : ℕ) (now : JsNumber)
  | handle (i : ℕ) (a : CandidateAnswers)
  | ends (i : ℕ)
  | probe (sessionId : JsString)
  | answer (j : ℕ) (a : ProbeAnswers)

def State.goto (s : State) (i : ℕ) (call : Call) (phase : CallPhase) : State :=
  { s with calls := s.calls.set i { call with phase } }

/-- The sweep has ended. -/
def State.settle (s : State) : State :=
  if s.classifiedOnce then s else { s with classifiedOnce := true, classificationSettled := true }

/-- A call goes on, where it is waiting for this. -/
def resume (s : State) (i : ℕ) (call : Call) : Step → State
  | .listed _ entries =>
    match call.phase, entries with
    | .listing, .ok entries => s.goto i call (.stats entries [])
    | .listing, .error message => s.goto i call (.rejected message)
    | _, _ => s
  | .stat _ mtime =>
    match call.phase with
    | .stats (e :: rest) candidates =>
      let s := s.goto i call (.stats rest (candidates ++ [candidateOf call.announced e mtime]))
      { s with idToPath := s.idToPath.set e.id e.path }
    | _ => s
  | .run _ now =>
    match call.phase with
    | .stats [] candidates => s.goto i call (.sweeping (unique candidates) now)
    | _ => s
  | .handle _ a =>
    match call.phase with
    | .sweeping (c :: rest) time =>
      -- the options of the call are not passed on
      let s := s.goto i call (.sweeping rest time)
      { s with handled := s.handled ++ [⟨call.boot, c, handling wiredDeps c a time false⟩] }
    | _ => s
  | .ends _ =>
    match call.phase with
    | .sweeping [] _ => (s.goto i call .fulfilled).settle
    | _ => s
  | .runSweep _ _ | .probe _ | .answer _ _ => s

/-- The call that a step is of. -/
def Step.call : Step → Option ℕ
  | .listed i _ | .stat i _ | .run i _ | .handle i _ | .ends i => some i
  | .runSweep _ _ | .probe _ | .answer _ _ => none

def step (s : State) (e : Step) : State :=
  match e with
  | .runSweep announced boot => { s with calls := s.calls ++ [{ announced, boot }] }
  | .probe sessionId => { s with probes := s.probes ++ [.waiting sessionId] }
  | .answer j a =>
    match s.probes[j]? with
    | some (.waiting sessionId) =>
      if s.classificationSettled then { s with probes := s.probes.set j (.answered (hasGoalContinueMarker s sessionId a)) }
      else s
    | _ => s
  | .listed i _ | .stat i _ | .run i _ | .handle i _ | .ends i =>
    match s.calls[i]? with
    | some call => resume s i call e
    | none => s

end PiWebUi.Goal.Wiring
