/-
  PiWebUi.Goal.AntigravityGoal — the goal of an Antigravity session (antigravity-goal.ts, and
  the control requests of routes/sessions.ts).

  The goal is a record in a file. `patch` reads it, merges, and writes it back, with nothing
  held in between. A sweep visits the session: it reads the record and the latest completed
  turn, verifies the turn, patches the result, and sends a continuation if the goal is still
  armed (`stillArmed`, read again just before). The timer starts sweeps without waiting, so
  any number of visits are under way (`procs`), beside the user's control requests.
-/

import PiWebUi.Lib.JsText

namespace PiWebUi.Goal.Antigravity

open Lib

inductive AgyGoalStatus where
  | running
  | paused
  | achieved
  | failed
  | cleared
  deriving DecidableEq

inductive PausedReason where
  | user
  | budget
  | error
  deriving DecidableEq

structure GoalVerificationInfo where
  status : JsString
  command : Option JsString := none
  message : Option JsString := none
  deriving DecidableEq

inductive Field where
  | objective
  | verifyCommand
  | maxRuns
  | status
  | runs
  | pausedReason
  | consecutiveErrors
  | pendingContinuation
  | lastReason
  | verification
  | createdAt
  | updatedAt
  | completedAt
  | clearedAt
  | autoContinue
  | lastVerifiedTurnAt
  deriving DecidableEq

inductive Value where
  | null
  | num (n : ℕ)
  | text (s : JsString)
  | flag (b : Bool)
  | status (s : AgyGoalStatus)
  | reason (r : PausedReason)
  | verification (v : GoalVerificationInfo)
  deriving DecidableEq

/-- A field that is absent, or `undefined`, is `none`. -/
abbrev AntigravityGoalRecord := Field → Option Value

abbrev Patch := List (Field × Option Value)

/-- `{ ...current, ...patch }`. -/
def merge (current : AntigravityGoalRecord) (patch : Patch) : AntigravityGoalRecord :=
  fun f => (patch.lookup f).getD (current f)

def AGY_GOAL_MAX_CONSECUTIVE_ERRORS : ℕ := 3

def number : Option Value → Option ℕ
  | some (.num n) => some n
  | _ => none

/-- `value + 1`: a missing value makes it NaN, which is written as null and reads as 0. -/
def increment : Option Value → Option Value
  | some (.num n) => some (.num (n + 1))
  | some .null => some (.num 1)
  | _ => some .null

/-- Running and not disarmed. -/
def armed (r : AntigravityGoalRecord) : Bool := r .status = some (.status .running) && r .autoContinue ≠ some (.flag false)

structure AgyCompletedTurn where
  completedAt : ℕ
  response : JsString := []
  isError : Bool := false
  error : Option JsString := none
  deriving DecidableEq

structure AgyGoalVerifyResult where
  met : Bool
  verification : GoalVerificationInfo
  deriving DecidableEq

def turnIsNew (r : AntigravityGoalRecord) (t : AgyCompletedTurn) : Bool :=
  match r .lastVerifiedTurnAt with
  | none => true
  | some (.num n) => n < t.completedAt
  | some _ => 0 < t.completedAt

def errorText (t : AgyCompletedTurn) : JsString :=
  let own := trim (t.error.getD [])
  let response := trim t.response
  if own ≠ [] then own else if response ≠ [] then response else js "unknown provider error"

/-! ## What is written -/

/-- The record as a visit read it, and the number of writes before. -/
structure Copy where
  record : AntigravityGoalRecord
  landings : ℕ

/-- A new turn taken up with a copy of the record. -/
structure Work where
  copy : Copy
  turn : AgyCompletedTurn

inductive ControlRequest where
  | start (objective : JsString) (verifyCommand : Option JsString) (maxRuns : ℕ) (autoContinue : Bool)
  | pause
  | resume
  | clear

inductive Write where
  /-- The owed continuation was accepted. -/
  | owedDone (copy : Copy) (turnAt : Option ℕ)
  /-- A newer turn supersedes the owed continuation. -/
  | superseded (w : Work)
  | pausedForErrors (w : Work)
  | strike (w : Work)
  | achieved (w : Work) (v : GoalVerificationInfo)
  | budgetExhausted (w : Work) (v : GoalVerificationInfo)
  | unmet (w : Work) (v : GoalVerificationInfo)
  /-- The continuation was refused, and is owed. -/
  | refused (w : Work)
  | control (request : ControlRequest) (previous : Option AntigravityGoalRecord)
  | resumed (dispatched : Bool)

def strikes (r : AntigravityGoalRecord) : ℕ := (number (r .consecutiveErrors)).getD 0 + 1

/-- `verification.message ?? (recovered ? undefined : record.lastReason)`. -/
def reasonAfter (r : AntigravityGoalRecord) (v : GoalVerificationInfo) : Option Value :=
  match v.message with
  | some m => some (.text m)
  | none => if 0 < (number (r .consecutiveErrors)).getD 0 then none else r .lastReason

def startPatch (objective : JsString) (verifyCommand : Option JsString) (maxRuns : ℕ) (autoContinue : Bool)
    (createdAt : Option Value) : Patch :=
  [(.objective, some (.text objective)), (.verifyCommand, verifyCommand.map .text), (.maxRuns, some (.num maxRuns)),
   (.status, some (.status .running)), (.runs, some (.num 0)), (.pausedReason, none), (.lastReason, none),
   (.verification, none), (.completedAt, some .null), (.clearedAt, none), (.consecutiveErrors, some (.num 0)),
   (.pendingContinuation, some (.flag false)), (.lastVerifiedTurnAt, none), (.autoContinue, some (.flag autoContinue)),
   (.createdAt, createdAt)]

def controlPatch (request : ControlRequest) (previous : Option AntigravityGoalRecord) (now : ℕ) : Patch :=
  match request with
  | .start objective verifyCommand maxRuns autoContinue =>
    startPatch objective verifyCommand maxRuns autoContinue
      (match previous.bind (· .createdAt) with
      | some .null | none => some (.num now)
      | createdAt => createdAt)
  | .pause => [(.status, some (.status .paused)), (.pausedReason, some (.reason .user)), (.autoContinue, some (.flag false))]
  | .resume => [(.status, some (.status .running)), (.pausedReason, none), (.autoContinue, some (.flag true)),
      (.consecutiveErrors, some (.num 0))]
  | .clear => [(.status, some (.status .cleared)), (.clearedAt, some (.num now)), (.autoContinue, some (.flag false)),
      (.completedAt, some .null)]

def Write.patch (now : ℕ) : Write → Patch
  | .owedDone _ _ | .superseded _ => [(.pendingContinuation, some (.flag false))]
  | .refused _ => [(.pendingContinuation, some (.flag true))]
  | .pausedForErrors w =>
    [(.status, some (.status .paused)), (.pausedReason, some (.reason .error)), (.consecutiveErrors, some (.num 0)),
     (.lastReason, some (.text (js "goal paused after " ++ JsNumber.natText (strikes w.copy.record) ++
       js " consecutive provider errors; last error: " ++ errorText w.turn))),
     (.lastVerifiedTurnAt, some (.num w.turn.completedAt))]
  | .strike w =>
    [(.consecutiveErrors, some (.num (strikes w.copy.record))),
     (.lastReason, some (.text (js "provider error (strike " ++ JsNumber.natText (strikes w.copy.record) ++ unit '/' ::
       JsNumber.natText AGY_GOAL_MAX_CONSECUTIVE_ERRORS ++ js "): " ++ errorText w.turn))),
     (.lastVerifiedTurnAt, some (.num w.turn.completedAt))]
  | .achieved w v =>
    [(.status, some (.status .achieved)), (.completedAt, some (.num now)), (.runs, increment (w.copy.record .runs)),
     (.verification, some (.verification v)), (.lastReason, reasonAfter w.copy.record v),
     (.consecutiveErrors, some (.num 0)), (.lastVerifiedTurnAt, some (.num w.turn.completedAt))]
  | .budgetExhausted w v =>
    [(.status, some (.status .failed)), (.pausedReason, some (.reason .budget)), (.runs, increment (w.copy.record .runs)),
     (.verification, some (.verification v)),
     (.lastReason, some (.text (js "goal run budget exhausted (" ++
       ((number (w.copy.record .maxRuns)).map JsNumber.natText).getD (js "undefined") ++
       js " runs) without achieving the goal; start or resume to re-arm"))),
     (.consecutiveErrors, some (.num 0)), (.lastVerifiedTurnAt, some (.num w.turn.completedAt))]
  | .unmet w v =>
    [(.runs, increment (w.copy.record .runs)), (.verification, some (.verification v)),
     (.lastReason, reasonAfter w.copy.record v), (.consecutiveErrors, some (.num 0)),
     (.lastVerifiedTurnAt, some (.num w.turn.completedAt))]
  | .control request previous => controlPatch request previous now
  | .resumed dispatched => [(.pendingContinuation, some (.flag !dispatched))]

/-- The copy that a visit's patch was made from. -/
def Write.copy : Write → Option Copy
  | .owedDone c _ => some c
  | .superseded w | .pausedForErrors w | .strike w | .achieved w _ | .budgetExhausted w _ | .unmet w _ | .refused w =>
    some w.copy
  | .control _ _ | .resumed _ => none

/-! ## The session -/

/-- A continuation to send, and what it acts on. -/
inductive Due where
  | owed (copy : Copy) (turnAt : Option ℕ)
  | retry (w : Work)
  | next (w : Work)

/-- The cursor that the record must have to send it. -/
def Due.cursor : Due → Option Value
  | .owed c _ => c.record .lastVerifiedTurnAt
  | .retry w => w.copy.record .lastVerifiedTurnAt
  | .next w => some (.num w.turn.completedAt)

def Due.turnAt : Due → Option ℕ
  | .owed _ turnAt => turnAt
  | .retry w | .next w => some w.turn.completedAt

def Due.isOwed : Due → Bool
  | .owed _ _ => true
  | _ => false

def Write.turnAt : Write → Option ℕ
  | .owedDone _ turnAt => turnAt
  | .superseded w | .pausedForErrors w | .strike w | .achieved w _ | .budgetExhausted w _ | .unmet w _ | .refused w =>
    some w.turn.completedAt
  | .control _ _ | .resumed _ => none

inductive Phase where
  | record
  | recordRead (copy : Option Copy)
  | turn (copy : Copy)
  | turnRead (copy : Copy) (turn : Option AgyCompletedTurn)
  | verify (w : Work)
  | armedTurn (d : Due)
  | armedRecord (d : Due)
  | armedRead (d : Due) (fresh : Option AntigravityGoalRecord)
  | dispatch (d : Due)
  | patchRead (k : Write) (p : Patch)
  | patchTruncate (k : Write) (p : Patch) (next : AntigravityGoalRecord)
  | patchWrite (k : Write) (p : Patch) (next : AntigravityGoalRecord) (truncation : ℕ)
  | wrote (k : Write)
  | existing (request : ControlRequest)
  | resumeDispatch
  | done

inductive File where
  | absent
  | torn
  | record (r : AntigravityGoalRecord)

def File.read : File → Option AntigravityGoalRecord
  | .record r => some r
  | _ => none

structure Landing where
  turnAt : Option ℕ
  isError : Bool
  strike : Bool
  runsBefore : Option ℕ
  runsAfter : Option ℕ
  deriving DecidableEq

structure State where
  now : ℕ := 0
  file : File := .absent
  turn : Option AgyCompletedTurn := none
  isRunning : Bool := false
  procs : List Phase := []
  truncations : ℕ := 0
  last : AntigravityGoalRecord := fun _ => none
  landings : ℕ := 0
  wrote : Field → ℕ := fun _ => 0
  landed : List Landing := []
  accepted : List (Option ℕ) := []

inductive DispatchAnswer where
  | accepted
  | busy
  | refused
  deriving DecidableEq

structure Answers where
  verify : AgyGoalVerifyResult := ⟨false, { status := js "not_run" }⟩
  dispatch : DispatchAnswer := .accepted
  /-- Two writes overlap in the file. -/
  garbled : Bool := false

def State.goto (s : State) (i : ℕ) (phase : Phase) : State := { s with procs := s.procs.set i phase }

/-- `store.patch`: its first await. -/
def State.patch (s : State) (i : ℕ) (k : Write) : State := s.goto i (.patchRead k (k.patch s.now))

/-- `stillArmed`: its first check and await. -/
def State.checkArmed (s : State) (i : ℕ) (d : Due) : State := if s.isRunning then s.goto i .done else s.goto i (.armedTurn d)

/-- The record is still armed, at the cursor, and owes a continuation where that is asked. -/
def stillArmed (d : Due) (r : AntigravityGoalRecord) : Bool :=
  armed r && r .lastVerifiedTurnAt = d.cursor && (!d.isOwed || r .pendingContinuation = some (.flag true))

/-- A new turn: a strike, or the verification. -/
def State.process (s : State) (i : ℕ) (w : Work) : State :=
  if w.turn.isError then
    if AGY_GOAL_MAX_CONSECUTIVE_ERRORS ≤ strikes w.copy.record then s.patch i (.pausedForErrors w)
    else s.checkArmed i (.retry w)
  else s.goto i (.verify w)

/-- `runs >= record.maxRuns`. -/
def budgetReached (r : AntigravityGoalRecord) : Bool :=
  match number (increment (r .runs)), number (r .maxRuns) with
  | some runs, some maxRuns => maxRuns ≤ runs
  | _, _ => false

def Write.isStrike : Write → Bool
  | .strike _ | .pausedForErrors _ => true
  | _ => false

def Write.isError : Write → Bool
  | .superseded w | .pausedForErrors w | .strike w | .achieved w _ | .budgetExhausted w _ | .unmet w _ | .refused w =>
    w.turn.isError
  | _ => false

/-- What a visit's write leaves in the history. -/
def Write.landing (k : Write) (before after : AntigravityGoalRecord) : List Landing :=
  if k.copy.isSome then
    [{ turnAt := k.turnAt, isError := k.isError, strike := k.isStrike
       runsBefore := number (before .runs), runsAfter := number (after .runs) }]
  else []

/-- The write ends: whole, or torn with one that has overlapped it. -/
def State.land (s : State) (k : Write) (p : Patch) (next : AntigravityGoalRecord) (whole : Bool) : State :=
  let after := if whole then next else fun _ => none
  { s with
    file := if whole then .record next else .torn
    last := after
    landings := s.landings + 1
    wrote := fun f => if (p.lookup f).isSome || f = .updatedAt then s.landings + 1 else s.wrote f
    landed := s.landed ++ k.landing s.last after }

def advance (s : State) (i : ℕ) (phase : Phase) (a : Answers) : State :=
  match phase with
  | .record => s.goto i (.recordRead (s.file.read.map fun r => ⟨r, s.landings⟩))
  | .recordRead none => s.goto i .done
  | .recordRead (some c) => if !armed c.record || s.isRunning then s.goto i .done else s.goto i (.turn c)
  | .turn c => s.goto i (.turnRead c s.turn)
  | .turnRead c turn =>
    match turn.filter (turnIsNew c.record) with
    | none =>
      if c.record .pendingContinuation = some (.flag true) then s.checkArmed i (.owed c (turn.map (·.completedAt)))
      else s.goto i .done
    | some t =>
      if c.record .pendingContinuation = some (.flag true) then s.patch i (.superseded ⟨c, t⟩) else s.process i ⟨c, t⟩
  | .verify w =>
    if a.verify.met then s.patch i (.achieved w a.verify.verification)
    else if budgetReached w.copy.record then s.patch i (.budgetExhausted w a.verify.verification)
    else s.patch i (.unmet w a.verify.verification)
  | .armedTurn d =>
    if s.turn.map (·.completedAt) = d.turnAt then s.goto i (.armedRecord d) else s.goto i .done
  | .armedRecord d => s.goto i (.armedRead d s.file.read)
  | .armedRead d fresh =>
    if fresh.any (stillArmed d) && !s.isRunning then s.goto i (.dispatch d) else s.goto i .done
  | .dispatch d =>
    if a.dispatch = .accepted then
      let s := { s with accepted := s.accepted ++ [d.turnAt] }
      match d with
      | .owed c turnAt => s.patch i (.owedDone c turnAt)
      | .retry w => s.patch i (.strike w)
      | .next _ => s.goto i .done
    else
      match d with
      | .next w => s.patch i (.refused w)
      | _ => s.goto i .done
  | .patchRead k p =>
    s.goto i (.patchTruncate k p (merge (s.file.read.getD fun _ => none) (p ++ [(.updatedAt, some (.num s.now))])))
  | .patchTruncate k p next =>
    let s := { s with file := .torn, truncations := s.truncations + 1 }
    s.goto i (.patchWrite k p next s.truncations)
  | .patchWrite k p next truncation => (s.land k p next (s.truncations = truncation || !a.garbled)).goto i (.wrote k)
  | .wrote k =>
    match k with
    | .superseded w => s.process i w
    | .unmet w _ => s.checkArmed i (.next w)
    | .control .resume _ => if s.isRunning then s.patch i (.resumed false) else s.goto i .resumeDispatch
    | _ => s.goto i .done
  | .existing request =>
    match request, s.file.read with
    | .start .., previous => s.patch i (.control request previous)
    | .clear, previous => s.patch i (.control .clear previous)
    | _, none => s.goto i .done
    | .resume, some r => if r .status = some (.status .cleared) then s.goto i .done else s.patch i (.control .resume (some r))
    | .pause, some r => s.patch i (.control .pause (some r))
  | .resumeDispatch =>
    match a.dispatch with
    | .accepted => s.patch i (.resumed true)
    | .busy => s.patch i (.resumed false)
    | .refused => s.goto i .done
  | .done => s.goto i .done

/-- Between its read of the record and the end of its write. -/
def Phase.patching : Phase → Bool
  | .patchTruncate _ _ _ | .patchWrite _ _ _ _ => true
  | _ => false

inductive Step where
  | tick (ms : ℕ)
  | turnCompletes (t : AgyCompletedTurn)
  | runningChanges (running : Bool)
  /-- A sweep comes to the session. -/
  | sweep
  | control (request : ControlRequest)
  | proc (i : ℕ) (a : Answers)
  /-- An await other than a file access throws. -/
  | fails (i : ℕ)

def Phase.mayFail : Phase → Bool
  | .turn _ | .verify _ | .armedTurn _ | .resumeDispatch => true
  | _ => false

def step (s : State) : Step → State
  | .tick ms => { s with now := s.now + ms }
  | .turnCompletes t => { s with turn := some t }
  | .runningChanges running => { s with isRunning := running }
  | .sweep => { s with procs := s.procs ++ [.record] }
  | .control request => { s with procs := s.procs ++ [.existing request] }
  | .proc i a =>
    match s.procs[i]? with
    | some phase => advance s i phase a
    | none => s
  | .fails i =>
    match s.procs[i]? with
    | some phase => if phase.mayFail then s.goto i .done else s
    | none => s

end PiWebUi.Goal.Antigravity
