/-
  PiWebUi.Goal.InterruptionSweep — the interruption sweep (interruption-sweep.ts).

  A sweep takes up candidates. `handleCandidate` asks whether the session is busy, reads the
  goal on disk, and hands a continueable stop to `continueOnce`, which keeps one task per
  session (`inFlight`); a second caller joins the first. The task prunes the markers of other
  goals, claims the marker of this one, reads the goal again, dispatches until the answer is
  not a refusal worth waiting for, and commits; then it waits for the goal to be seen running
  and confirms. Every file access and every await is a step, so sweeps, tasks, the engine
  writing a goal (`setGoal`) and a crash interleave everywhere; a crash keeps the files, and
  a write of a file is two steps (torn, then whole).
-/

import PiWebUi.Goal.ContinueMarker

namespace PiWebUi.Goal

open Lib

inductive CanonicalGoalStatus where
  | running
  | paused
  | wrapping_up
  | achieved
  | cleared
  | failed
  | idle
  | suggested
  | unknown
  deriving DecidableEq

structure GoalInterruptionInfo where
  cause : InterruptionCause
  source : InterruptionSource
  detectedAt : ℕ
  continueCount : ℕ
  autoContinued : Bool
  deriving DecidableEq

structure SessionGoalProjection where
  supported : Bool := true
  status : CanonicalGoalStatus
  objective : Option JsString := none
  startedAt : Option JsNumber := none
  pausedReason : Option JsString := none
  interruption : Option GoalInterruptionInfo := none
  autoContinued : Bool := false
  deriving DecidableEq

inductive AnnouncedSource where
  | receipt
  | drain
  deriving DecidableEq

structure AnnouncedInterruption where
  source : AnnouncedSource
  interruptionReason : JsString
  deriving DecidableEq

inductive SessionOrigin where
  | browser
  | internal_api
  | native_discovered
  deriving DecidableEq

structure SweepCandidate where
  sessionId : JsString
  sessionPath : JsString
  runtime : JsString
  origin : Option SessionOrigin := none
  parentSource : Option JsString := none
  lastActivityMs : Option JsNumber := none
  announced : Option AnnouncedInterruption := none
  deriving DecidableEq

inductive Outcome where
  | accepted
  | refused
  | unknown
  deriving DecidableEq

structure SweepDispatchResult where
  outcome : Outcome
  retryAfterSeconds : Option JsNumber := none
  deriving DecidableEq

inductive ReportEntry where
  | continued (sessionId : JsString)
  | interruptedVisible (sessionId : JsString)
  | skipped (sessionId : JsString)
  deriving DecidableEq

structure SweepDeps where
  windowMs : ℕ := 600000
  restartBoundMs : ℕ := 21600000
  verifyMs : ℕ := 90000
  /-- Whether `readRuntimeProjection` is given. -/
  readsRuntime : Bool := false

/-! ## Decisions -/

def isApiOriginChild (c : SweepCandidate) : Bool := c.origin = some .internal_api || c.parentSource.isSome

def withinPreviousLifetime (c : SweepCandidate) (bootTimeMs : JsNumber) (boundMs : ℕ) : Bool :=
  match c.lastActivityMs with
  | none => false
  | some t => t.isFinite && t.le bootTimeMs && (bootTimeMs.sub t).le (.fin boundMs)

structure ClassifiedStop where
  cause : InterruptionCause
  source : InterruptionSource
  deriving DecidableEq

def AnnouncedSource.toSource : AnnouncedSource → InterruptionSource
  | .receipt => .receipt
  | .drain => .drain

def announcedSource (c : SweepCandidate) : InterruptionSource :=
  (c.announced.map fun a => a.source.toSource).getD .boot_orphan

def restoredPause : JsString := js "restored_on_session_start"

def classifyCandidate (c : SweepCandidate) (p : SessionGoalProjection) : Option ClassifiedStop :=
  if p.status = .running then some ⟨.restart_interruption, announcedSource c⟩
  else if p.status = .paused ∧ p.pausedReason = some restoredPause then some ⟨.rehydrate_pause, .rehydrate_pause⟩
  else none

def continueable (p : SessionGoalProjection) : Bool :=
  p.status = .running || (p.status = .paused && p.pausedReason = some restoredPause)

def interruptedProjection (p : SessionGoalProjection) (i : GoalInterruptionInfo) : SessionGoalProjection :=
  { p with status := .paused, pausedReason := some (js "interrupted"), interruption := some { i with autoContinued := false } }

def nonPiTerminal : CanonicalGoalStatus → Bool
  | .achieved | .cleared | .failed | .idle | .unknown => true
  | _ => false

/-- What `handleCandidate` decides before its first await: whether it goes on. -/
def inScope (deps : SweepDeps) (c : SweepCandidate) (bootTimeMs : JsNumber) : Bool :=
  isApiOriginChild c && (c.announced.isSome || withinPreviousLifetime c bootTimeMs deps.restartBoundMs)

/-- A silently active goal of another runtime, as the boot sweep publishes it. -/
def silentStop (c : SweepCandidate) (p : Option SessionGoalProjection) (now : ℕ) : Option SessionGoalProjection :=
  match p with
  | some p =>
    if nonPiTerminal p.status || p.status = .paused then none
    else some (interruptedProjection p ⟨.restart_interruption, announcedSource c, now, 0, false⟩)
  | none => none

/-! ## The state -/

/-- Where a `handleCandidate` is: before each await, or after the read of the goal. -/
inductive ActivityPhase where
  | busy
  | runtime
  | classify
  | classified (p : SessionGoalProjection)
  deriving DecidableEq

structure Activity where
  candidate : SweepCandidate
  boot : Bool
  phase : ActivityPhase := .busy
  deriving DecidableEq

/-- Where a task of `continueOnce` is; a projection is what its last read of the goal gave. -/
inductive Phase where
  | pruneList
  | pruneRead (names others : List JsString)
  | pruneRemove (files : List JsString)
  | get
  | secondStop (count : ℕ)
  | claimRead
  | claimOpen
  | claimWrite
  | consumed
  | preDispatch
  | transcript (p : SessionGoalProjection)
  | dispatching (p : SessionGoalProjection) (deadline : ℕ)
  | retryWait (p : SessionGoalProjection) (deadline : ℕ)
  | releaseRead (refused : Bool)
  | releaseRemove (refused : Bool)
  | refusedOverlay
  | commitRead (unknown : Bool)
  | commitTruncate (m : ContinueMarker) (unknown : Bool)
  | commitWrite (m : ContinueMarker) (unknown : Bool)
  | failedOverlay
  | verifySleep (deadline : ℕ)
  | verifyRead (deadline : ℕ)
  | confirmRead (p : SessionGoalProjection)
  | confirmTruncate (m : ContinueMarker) (p : SessionGoalProjection)
  | confirmWrite (m : ContinueMarker) (p : SessionGoalProjection)
  | verified (p : SessionGoalProjection)
  deriving DecidableEq

structure Task where
  candidate : SweepCandidate
  stop : ClassifiedStop
  projection : SessionGoalProjection
  phase : Phase := .pruneList
  deriving DecidableEq

structure Call where
  sessionId : JsString
  fingerprint : JsString
  idempotencyKey : JsString
  /-- The goal as the pre-dispatch read gave it. -/
  read : SessionGoalProjection
  deriving DecidableEq

structure Ended where
  sessionId : JsString
  fingerprint : JsString
  outcome : Outcome
  deriving DecidableEq

structure Publication where
  sessionId : JsString
  projection : SessionGoalProjection
  deriving DecidableEq

structure State where
  now : ℕ := 0
  /-- The goal on disk, by session path. -/
  goals : JsString → SessionGoalProjection := fun _ => { status := .idle }
  files : MarkerDir := .empty
  activities : List Activity := []
  inFlight : JsMap JsString Task := .empty
  calls : List Call := []
  ended : List Ended := []
  published : List Publication := []
  reports : List ReportEntry := []

/-- What the awaits of the outside answer. -/
structure Answers where
  busy : Bool := false
  runtimeProjection : Option SessionGoalProjection := none
  dispatch : SweepDispatchResult := ⟨.accepted, none⟩

inductive FileOp where
  | keep
  | put (name : JsString) (content : MarkerFile)
  | remove (name : JsString)

def FileOp.run (dir : MarkerDir) : FileOp → MarkerDir
  | .keep => dir
  | .put name content => dir.set name content
  | .remove name => dir.delete name

/-- What a step of a task does; without a next phase the task is over. -/
structure Effect where
  next : Option Phase := none
  file : FileOp := .keep
  call : Option Call := none
  ended : Option Ended := none
  published : Option Publication := none
  report : Option ReportEntry := none

section Steps

variable (sha256 : JsString → JsString) (deps : SweepDeps)

def Task.fingerprint (t : Task) : JsString := goalFingerprint sha256 t.projection.objective t.projection.startedAt

def Task.file (t : Task) : JsString := markerPath t.candidate.sessionId (t.fingerprint sha256)

/-- A stop that is not continued is published paused. -/
def madeVisible (t : Task) (cause : InterruptionCause) (count now : ℕ) : Effect :=
  { published := some ⟨t.candidate.sessionId, interruptedProjection t.projection ⟨cause, t.stop.source, now, count, false⟩⟩
    report := some (.interruptedVisible t.candidate.sessionId) }

def autoContinue (t : Task) (p : SessionGoalProjection) (now : ℕ) : Effect :=
  { published := some ⟨t.candidate.sessionId, { p with
      autoContinued := true, interruption := some ⟨t.stop.cause, t.stop.source, now, 1, true⟩ }⟩
    report := some (.continued t.candidate.sessionId) }

def Task.call (t : Task) (p : SessionGoalProjection) : Call :=
  { sessionId := t.candidate.sessionId, fingerprint := t.fingerprint sha256, read := p
    idempotencyKey := js "goal-continue:" ++ t.candidate.sessionId ++ unit ':' :: (t.fingerprint sha256).take 12 }

/-- After an answer that is not accepted: whether to ask again within the window. -/
def retries (r : SweepDispatchResult) (now deadline : ℕ) : Bool :=
  match r.retryAfterSeconds with
  | none => false
  | some wait => !wait.le (.fin 0) && now < deadline

/-- Whether a completed continue shows in the goal. -/
def completedContinue (p : SessionGoalProjection) : Bool :=
  p.status = .achieved || p.status = .cleared || p.status = .failed

/-- Where the commit leads: an unknown delivery is made visible, an accepted one verified. -/
def afterCommit (unknown : Bool) (now : ℕ) : Phase :=
  if unknown || deps.verifyMs = 0 then .failedOverlay else .verifySleep (now + deps.verifyMs)

def effect (s : State) (t : Task) (a : Answers) : Effect :=
  let fp := t.fingerprint sha256
  let file := t.file sha256
  match t.phase with
  | .pruneList => { next := some (.pruneRead (sessionFiles s.files t.candidate.sessionId) []) }
  | .pruneRead (name :: names) others =>
    let found := ((readMarker s.files name).map (·.fingerprint)).filter (· ≠ fp)
    { next := some (.pruneRead names (others ++ found.toList)) }
  | .pruneRead [] others => { next := some (.pruneRemove (others.map (markerPath t.candidate.sessionId))) }
  | .pruneRemove (name :: names) => { next := some (.pruneRemove names), file := .remove name }
  | .pruneRemove [] => { next := some .get }
  | .get =>
    match readMarker s.files file with
    | some m => { next := some (if 1 ≤ m.count then .secondStop m.count else .claimRead) }
    | none => { next := some .claimRead }
  | .secondStop count => madeVisible t .second_transient count s.now
  | .claimRead => { next := some (if (readMarker s.files file).isSome then .consumed else .claimOpen) }
  | .claimOpen =>
    -- the exclusive create; a file that does not read as a marker is there all the same
    if s.files.has file then { next := some .consumed } else { next := some .claimWrite, file := .put file .torn }
  | .claimWrite =>
    { next := some .preDispatch
      file := .put file (.marker (claimed t.candidate.sessionId fp t.stop.cause t.stop.source s.now)) }
  | .consumed => madeVisible t .continue_failed 1 s.now
  | .preDispatch =>
    let p := s.goals t.candidate.sessionPath
    if goalFingerprint sha256 p.objective p.startedAt = fp ∧ continueable p = true then { next := some (.transcript p) }
    else { next := some (.releaseRead false) }
  | .transcript p => { next := some (.dispatching p (s.now + deps.windowMs)), call := some (t.call sha256 p) }
  | .dispatching p deadline =>
    let ended : Option Ended := some ⟨t.candidate.sessionId, fp, a.dispatch.outcome⟩
    match a.dispatch.outcome with
    | .refused =>
      if retries a.dispatch s.now deadline then { next := some (.retryWait p deadline), ended }
      else { next := some (.releaseRead true), ended }
    | .accepted => { next := some (.commitRead false), ended }
    | .unknown => { next := some (.commitRead true), ended }
  | .retryWait p deadline => { next := some (.dispatching p deadline), call := some (t.call sha256 p) }
  | .releaseRead refused =>
    match readMarker s.files file with
    | some m =>
      if releasable m then { next := some (.releaseRemove refused) }
      else if refused then { next := some .refusedOverlay }
      else { report := some (.skipped t.candidate.sessionId) }
    | none => if refused then { next := some .refusedOverlay } else { report := some (.skipped t.candidate.sessionId) }
  | .releaseRemove refused =>
    if refused then { next := some .refusedOverlay, file := .remove file }
    else { file := .remove file, report := some (.skipped t.candidate.sessionId) }
  | .refusedOverlay => madeVisible t .continue_failed 0 s.now
  | .commitRead unknown =>
    match (readMarker s.files file).bind (committed · s.now) with
    | some m => { next := some (.commitTruncate m unknown) }
    | none => { next := some (afterCommit deps unknown s.now) }
  | .commitTruncate m unknown => { next := some (.commitWrite m unknown), file := .put file .torn }
  | .commitWrite m unknown => { next := some (afterCommit deps unknown s.now), file := .put file (.marker m) }
  | .failedOverlay => madeVisible t .continue_failed 1 s.now
  | .verifySleep deadline => { next := some (.verifyRead deadline) }
  | .verifyRead deadline =>
    let p := s.goals t.candidate.sessionPath
    -- a replaced goal gets no overlay and no event
    if goalFingerprint sha256 p.objective p.startedAt ≠ fp then {}
    else if p.status = .running || completedContinue p then { next := some (.confirmRead p) }
    else { next := some (if s.now < deadline then .verifySleep deadline else .failedOverlay) }
  | .confirmRead p =>
    match (readMarker s.files file).bind (confirmed · s.now) with
    | some m => { next := some (.confirmTruncate m p) }
    | none => { next := some (.verified p) }
  | .confirmTruncate m p => { next := some (.confirmWrite m p), file := .put file .torn }
  | .confirmWrite m p => { next := some (.verified p), file := .put file (.marker m) }
  | .verified p => autoContinue t p s.now

/-- The state after what a task does. -/
def perform (s : State) (sessionId : JsString) (t : Task) (e : Effect) : State :=
  { s with
    files := e.file.run s.files
    inFlight := match e.next with
      | some phase => s.inFlight.set sessionId { t with phase }
      | none => s.inFlight.delete sessionId
    calls := s.calls ++ e.call.toList
    ended := s.ended ++ e.ended.toList
    published := s.published ++ e.published.toList
    reports := s.reports ++ e.report.toList }

/-- `continueOnce`: start a task, or join the one of the session. -/
def continueOnce (s : State) (c : SweepCandidate) (stop : ClassifiedStop) (p : SessionGoalProjection) : State :=
  if s.inFlight.has c.sessionId then s
  else { s with inFlight := s.inFlight.set c.sessionId { candidate := c, stop, projection := p } }

def skip (s : State) (c : SweepCandidate) : State := { s with reports := s.reports ++ [.skipped c.sessionId] }

/-- Take up a candidate: `handleCandidate` up to its first await. -/
def takeUp (s : State) (c : SweepCandidate) (bootTimeMs : JsNumber) (boot : Bool) : State :=
  if inScope deps c bootTimeMs then { s with activities := s.activities ++ [{ candidate := c, boot }] } else skip s c

def State.setPhase (s : State) (i : ℕ) (a : Activity) (phase : ActivityPhase) : State :=
  { s with activities := s.activities.set i { a with phase } }

def State.endActivity (s : State) (i : ℕ) : State := { s with activities := s.activities.eraseIdx i }

/-- An await of `handleCandidate` ends. -/
def advance (s : State) (i : ℕ) (answers : Answers) : State :=
  match s.activities[i]? with
  | none => s
  | some act =>
    let c := act.candidate
    match act.phase with
    | .busy =>
      if answers.busy then skip (s.endActivity i) c
      else if c.runtime ≠ js "pi" then
        if act.boot then s.setPhase i act .runtime else skip (s.endActivity i) c
      else s.setPhase i act .classify
    | .runtime =>
      match silentStop c (if deps.readsRuntime then answers.runtimeProjection else none) s.now with
      | none => skip (s.endActivity i) c
      | some p =>
        let s := s.endActivity i
        { s with published := s.published ++ [⟨c.sessionId, p⟩]
                 reports := s.reports ++ [.interruptedVisible c.sessionId] }
    | .classify => s.setPhase i act (.classified (s.goals c.sessionPath))
    | .classified p =>
      match classifyCandidate c p with
      | none => skip (s.endActivity i) c
      | some stop => continueOnce (s.endActivity i) c stop p

inductive Step where
  | tick (ms : ℕ)
  | setGoal (sessionPath : JsString) (p : SessionGoalProjection)
  | sweep (c : SweepCandidate) (bootTimeMs : JsNumber) (boot : Bool)
  | advance (i : ℕ) (answers : Answers)
  | task (sessionId : JsString) (answers : Answers)
  /-- An await throws: the candidate is reported skipped. -/
  | activityFails (i : ℕ)
  | taskFails (sessionId : JsString)
  | crash

def step (s : State) : Step → State
  | .tick ms => { s with now := s.now + ms }
  | .setGoal path p => { s with goals := fun q => if q = path then p else s.goals q }
  | .sweep c bootTimeMs boot => takeUp deps s c bootTimeMs boot
  | .advance i answers => advance deps s i answers
  | .task sessionId answers =>
    match s.inFlight.get sessionId with
    | some t => perform s sessionId t (effect sha256 deps s t answers)
    | none => s
  | .activityFails i =>
    match s.activities[i]? with
    | some act => skip (s.endActivity i) act.candidate
    | none => s
  | .taskFails sessionId =>
    match s.inFlight.get sessionId with
    | some t => skip { s with inFlight := s.inFlight.delete sessionId } t.candidate
    | none => s
  | .crash => { s with activities := [], inFlight := .empty }

end Steps

end PiWebUi.Goal
