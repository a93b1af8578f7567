/-
  PiWebUi.Goal.ClaudeNudger — the Claude auto-continue nudger and its control record
  (claude-auto-continue.ts, the Claude projection of claude-goal.ts).

  The state is that of one session: the record's file, the sweep's read cache, and the
  calls in flight. A visit is one session's turn in a sweep; any number of visits and of
  control patches run at once, and each `proc` step takes one of them from one await to
  the next. `patch` reads the record, merges and writes the file whole: the write first
  truncates the file, and a reader then finds no record. What a step reads from outside
  comes with it (`Answers`): the transcript, whether the prompt goes out, whether the call
  fails. `log` has the prompts that went out and the patches that landed, in order.
-/

import Mathlib.Data.Rat.Defs
import Mathlib.Algebra.Order.Ring.Rat
import PiWebUi.Lib.Run

namespace PiWebUi.Goal.ClaudeNudger

structure ClaudeGoalAutoContinueConfig where
  enabled : Bool := true
  maxNudges : ℕ := 20
  baseBackoffMs : ℕ := 30000
  maxBackoffMs : ℕ := 600000

/-- `base * 2 ** n` is exact below the maximum, a safe integer. -/
def backoffDelayMs (baseBackoffMs maxBackoffMs nudgeIndex : ℕ) : ℕ := min maxBackoffMs (baseBackoffMs * 2 ^ nudgeIndex)

/-! ## The control record -/

structure ClaudeGoalControlRecord where
  autoContinue : Option Bool := none
  nudges : Option ℕ := none
  lastNudgeAt : Option ℕ := none
  exhaustedAt : Option ℕ := none
  clearedAt : Option ℕ := none
  deriving DecidableEq

/-- A patch names fields and their new values; `some none` sets a field to undefined, and
    the file then has none. -/
structure Patch where
  autoContinue : Option (Option Bool) := none
  nudges : Option (Option ℕ) := none
  lastNudgeAt : Option (Option ℕ) := none
  exhaustedAt : Option (Option ℕ) := none
  clearedAt : Option (Option ℕ) := none
  deriving DecidableEq

/-- `{ ...current, ...patch }`. -/
def merge (current : ClaudeGoalControlRecord) (patch : Patch) : ClaudeGoalControlRecord where
  autoContinue := patch.autoContinue.getD current.autoContinue
  nudges := patch.nudges.getD current.nudges
  lastNudgeAt := patch.lastNudgeAt.getD current.lastNudgeAt
  exhaustedAt := patch.exhaustedAt.getD current.exhaustedAt
  clearedAt := patch.clearedAt.getD current.clearedAt

inductive File where
  | absent
  | torn
  | record (r : ClaudeGoalControlRecord)
  deriving DecidableEq

/-- `(await store.get(sessionId)) ?? {}`. -/
def File.get : File → ClaudeGoalControlRecord
  | .record r => r
  | _ => {}

/-- What the goal routes patch. -/
inductive ControlRequest where
  | create (autoContinue : Bool)
  | start
  | pause
  | resume
  | clear
  deriving DecidableEq

/-- Who patches: a route, the reset of a goal that is over, the end of the budget, or the
    accounting of a nudge that went out as number `nudges`, counted from zero. -/
inductive Write where
  | control (request : ControlRequest)
  | reset
  | exhausted
  | nudge (nudges : ℕ)
  deriving DecidableEq

def controlPatch (now : ℕ) : ControlRequest → Patch
  | .create autoContinue =>
    { autoContinue := some (some autoContinue), nudges := some (some 0), exhaustedAt := some none, clearedAt := some none }
  | .start =>
    { autoContinue := some (some true), nudges := some (some 0), lastNudgeAt := some none, exhaustedAt := some none,
      clearedAt := some none }
  | .pause => { autoContinue := some (some false) }
  | .resume => { autoContinue := some (some true), exhaustedAt := some none }
  | .clear => { clearedAt := some (some now), nudges := some (some 0), exhaustedAt := some none }

def Write.patch (now : ℕ) : Write → Patch
  | .control request => controlPatch now request
  | .reset => { nudges := some (some 0), lastNudgeAt := some none, exhaustedAt := some none }
  | .exhausted => { exhaustedAt := some (some now), autoContinue := some (some false) }
  | .nudge nudges => { nudges := some (some (nudges + 1)), lastNudgeAt := some (some now) }

/-! ## The projection -/

inductive CanonicalGoalStatus where
  | running
  | paused
  | achieved
  | cleared
  | failed
  | idle
  deriving DecidableEq

/-- The last `goal_status` attachment of the transcript. -/
structure ClaudeGoalStatus where
  met : Bool
  impossible : Bool
  timestampMs : Option ℚ

/-- A goal that reads `running` is armed. -/
structure SessionGoalProjection where
  status : CanonicalGoalStatus
  autoContinue : Bool
  armed : status = .running → autoContinue = true
  deriving DecidableEq

def canonicalFromLast (last : ClaudeGoalStatus) (autoContinue : Option Bool) : CanonicalGoalStatus :=
  if last.met then .achieved
  else if last.impossible then .failed
  else if autoContinue = some false then .paused else .running

/-- The attachment is at or before the moment of the clear. -/
def isHistory (last : ClaudeGoalStatus) (clearedAt : Option ℕ) : Bool :=
  match clearedAt with
  | none => false
  | some clearedAt => last.timestampMs.all fun ms => ms ≤ (clearedAt : ℚ)

def projectedStatus (last : Option ClaudeGoalStatus) (control : ClaudeGoalControlRecord) : CanonicalGoalStatus :=
  match last with
  | none => .idle
  | some last => if isHistory last control.clearedAt then .cleared else canonicalFromLast last control.autoContinue

theorem projected_armed {last : Option ClaudeGoalStatus} {control : ClaudeGoalControlRecord}
    (h : projectedStatus last control = .running) : control.autoContinue ≠ some false := by
  intro hpaused
  unfold projectedStatus at h
  split at h
  · cases h
  split at h
  · cases h
  unfold canonicalFromLast at h
  rw [if_pos hpaused] at h
  split at h
  · cases h
  split at h <;> cases h

def projectClaudeGoal (last : Option ClaudeGoalStatus) (control : ClaudeGoalControlRecord) : SessionGoalProjection where
  status := projectedStatus last control
  autoContinue := control.autoContinue ≠ some false
  armed h := decide_eq_true (projected_armed h)

/-! ## Calls in flight -/

/-- Where a call is. A visit: the transcript's time is awaited, its statuses, the control
    record of the projection, the record, the dispatch. A patch: the record is read, the
    file truncated, written, and the cache told. -/
inductive Phase where
  | stat
  | statuses (mtimeMs : ℚ)
  | control (mtimeMs : ℚ) (last : Option ClaudeGoalStatus)
  | projected (mtimeMs : ℚ) (projection : SessionGoalProjection)
  | get (projection : SessionGoalProjection)
  | decide (projection : SessionGoalProjection) (record : ClaudeGoalControlRecord)
  | dispatching (nudges : ℕ)
  | patchRead (w : Write) (patch : Patch)
  | patchTruncate (w : Write) (patch : Patch) (current : ClaudeGoalControlRecord)
  | patchWrite (w : Write) (patch : Patch) (current : ClaudeGoalControlRecord)
  | wrote
  | done

inductive Entry where
  | sent (time : ℕ)
  | landed (patch : Patch)
  deriving DecidableEq

structure State where
  now : ℕ
  file : File
  /-- The session's entry in the sweep's read cache, by the transcript's `mtimeMs`. -/
  cache : Option (ℚ × SessionGoalProjection)
  procs : List Phase
  log : List Entry

structure Answers where
  /-- `none`: no projection (no entry, an unsupported backend, an error). -/
  mtimeMs : Option ℚ := some 0
  last : Option ClaudeGoalStatus := none
  /-- The prompt goes out; the dispatch throws otherwise. -/
  sent : Bool := true
  fails : Bool := false
  /-- Two writes overlap in the file. -/
  garbled : Bool := false

def State.goto (s : State) (i : ℕ) (phase : Phase) : State := { s with procs := s.procs.set i phase }

/-- `store.patch`: its first await. -/
def State.patch (s : State) (i : ℕ) (w : Write) : State := s.goto i (.patchRead w (w.patch s.now))

def isExhausted (record : ClaudeGoalControlRecord) : Bool := record.exhaustedAt.any (· ≠ 0)

def nudgesOf (record : ClaudeGoalControlRecord) : ℕ := record.nudges.getD 0

section Config

variable (c : ClaudeGoalAutoContinueConfig)

def isDue (now : ℕ) (record : ClaudeGoalControlRecord) : Bool :=
  match record.lastNudgeAt with
  | none => true
  | some lastNudgeAt => backoffDelayMs c.baseBackoffMs c.maxBackoffMs (nudgesOf record) + lastNudgeAt ≤ now

/-- What a visit does with the projection and the record it read. -/
inductive Decision where
  | leave
  | patch (w : Write)
  | nudge
  deriving DecidableEq

def decideOn (now : ℕ) (projection : SessionGoalProjection) (record : ClaudeGoalControlRecord) : Decision :=
  match projection.status with
  | .achieved | .cleared | .failed => if 0 < nudgesOf record || isExhausted record then .patch .reset else .leave
  | .running =>
    if isExhausted record || decide (c.maxNudges ≤ nudgesOf record) then
      if isExhausted record then .leave else .patch .exhausted
    else if isDue c now record then .nudge else .leave
  | _ => .leave

/-- The record the call truncated the file with. -/
def Phase.writing : Phase → Option ClaudeGoalControlRecord
  | .patchWrite _ _ current => some current
  | _ => none

def State.isWriting (s : State) : Bool := s.procs.any (·.writing.isSome)

def advance (s : State) (i : ℕ) (phase : Phase) (a : Answers) : State :=
  match phase with
  | .stat =>
    match a.mtimeMs with
    | none => s.goto i .done
    | some mtimeMs =>
      match s.cache with
      | some (key, projection) => if key = mtimeMs then s.goto i (.get projection) else s.goto i (.statuses mtimeMs)
      | none => s.goto i (.statuses mtimeMs)
  | .statuses mtimeMs => s.goto i (.control mtimeMs a.last)
  | .control mtimeMs last => s.goto i (.projected mtimeMs (projectClaudeGoal last s.file.get))
  | .projected mtimeMs projection => { s.goto i (.get projection) with cache := some (mtimeMs, projection) }
  | .get projection => s.goto i (.decide projection s.file.get)
  | .decide projection record =>
    match decideOn c s.now projection record with
    | .leave => s.goto i .done
    | .patch w => s.patch i w
    | .nudge => if a.sent then { s.goto i (.dispatching (nudgesOf record)) with log := s.log ++ [.sent s.now] } else s.goto i .done
  | .dispatching nudges => s.patch i (.nudge nudges)
  | .patchRead w patch => if a.fails then s.goto i .done else s.goto i (.patchTruncate w patch s.file.get)
  | .patchTruncate w patch current =>
    if a.fails then s.goto i .done else { s.goto i (.patchWrite w patch current) with file := .torn }
  | .patchWrite _ patch current =>
    if a.fails then { s.goto i .done with file := .torn }
    else
      { s.goto i .wrote with
        file := if a.garbled && (s.goto i .wrote).isWriting then .torn else .record (merge current patch)
        log := s.log ++ [.landed patch] }
  | .wrote => { s.goto i .done with cache := none }
  | .done => s

inductive Step where
  /-- A sweep comes to the session. -/
  | visit (isRunning : Bool)
  | control (request : ControlRequest)
  | proc (i : ℕ) (a : Answers)
  | wait (ms : ℕ)
  /-- The cache makes room for another session. -/
  | evict

def step (s : State) : Step → State
  | .visit isRunning => if c.enabled && !isRunning then { s with procs := s.procs ++ [.stat] } else s
  | .control request =>
    { s with procs := s.procs ++ [.patchRead (.control request) (controlPatch s.now request)] }
  | .proc i a =>
    match s.procs[i]? with
    | some phase => advance c s i phase a
    | none => s
  | .wait ms => { s with now := s.now + ms }
  | .evict => { s with cache := none }

end Config

end PiWebUi.Goal.ClaudeNudger
