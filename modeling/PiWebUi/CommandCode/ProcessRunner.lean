/-
  PiWebUi.CommandCode.ProcessRunner — `CommandCodeProcessRunner`: the children of the
  Command Code turns, one for each call of `run`, and the placement launch each was
  spawned from.

  A call of `run` that reaches its plan is one entry of `runs`, at the index its launch is
  known by. `activeLaunch` is one field of the runner for all of them. What the outside
  answers is in the events: whether placement gave a plan, what `spawn` did, what the
  children report, what the parser made of a chunk or of the whole output. `close` says
  that the child has ended and its pipes are closed; `childError` may come while it lives
  (a signal that could not be sent). `cleanups` is read by nothing: the calls of a launch's
  `cleanup`, by whom, and whether that launch's child was alive.
-/

import PiWebUi.Lib.JsMap
import PiWebUi.Lib.JsString

namespace PiWebUi.CommandCode

open PiWebUi.Lib

inductive TerminationCause where
  | abort | timeout | shutdown
deriving DecidableEq, Repr

inductive Signal where
  | SIGTERM | SIGKILL
deriving DecidableEq, Repr

/-- The child of a run: alive, never started (no pid), ended, or `spawn` threw and there is none. -/
inductive Child where
  | live | notStarted | ended | none
deriving DecidableEq, Repr

structure CommandCodeProcessRunResult (P : Type) where
  parsed : Option P
  exitCode : Option ℤ
  signal : Option JsString
  terminationCause : Option TerminationCause
  protocolError : Option JsString
  spawnError : Option JsString
deriving DecidableEq

/-- The variables of one call of `run` after it has its launch. -/
structure ProcessRun (P : Type) where
  sessionId : JsString
  /-- `planSpawnForSession` gave a plan; else the launch is the plain command, its cleanup does nothing. -/
  placed : Bool
  child : Child
  exitCode : Option ℤ
  signal : Option JsString
  terminationCause : Option TerminationCause
  protocolError : Option JsString
  spawnError : Option JsString
  result : Option (CommandCodeProcessRunResult P)
deriving DecidableEq

namespace ProcessRun

variable {P : Type}

def settled (c : ProcessRun P) : Bool := c.result.isSome

/-- Nothing more is awaited of the launch: its run has finished, or never got a child. -/
def isOver (c : ProcessRun P) : Bool := c.settled || c.child = .none

end ProcessRun

/-- A call of the cleanup of `launch` by the finishing run `caller`. -/
structure Cleanup where
  caller : ℕ
  launch : ℕ
  childLive : Bool
deriving DecidableEq, Repr

structure CommandCodeProcessRunner (P : Type) where
  maxPromptBytes : ℕ
  active : JsMap JsString ℕ
  activeLaunch : Option ℕ
  runs : List (ProcessRun P)
  kills : List (ℕ × Signal)
  cleanups : List Cleanup

/-- What `planSpawnForSession` does. -/
inductive PlanAnswer where
  | threw (message : JsString)
  | unplaced
  | placed
deriving DecidableEq, Repr

/-- What `spawn` does; a child that failed to start reports it by an error event. -/
inductive SpawnAnswer where
  | threw (message : JsString)
  | failed
  | started
deriving DecidableEq, Repr

def SpawnAnswer.child : SpawnAnswer → Child
  | .threw _ => .none
  | .failed => .notStarted
  | .started => .live

structure CommandCodeProcessRunInput where
  sessionId : JsString
  prompt : JsString
deriving DecidableEq

inductive RunnerEvent (P : Type) where
  /-- `args`: what `buildCommandCodeArgs` answers; `stdin`: what writing the prompt throws. -/
  | run (input : CommandCodeProcessRunInput) (args : Except JsString (List JsString)) (plan : PlanAnswer)
      (spawned : SpawnAnswer) (stdin : Option JsString)
  | stdout (i : ℕ) (rejected : Option JsString)
  | stdinError (i : ℕ) (message : JsString)
  | childError (i : ℕ) (message : JsString) (finished : Except JsString P)
  | close (i : ℕ) (code : Option ℤ) (signal : Option JsString) (finished : Except JsString P)
  | wallTimer (i : ℕ)
  | graceTimer (i : ℕ)
  | abort (sessionId : JsString)
  | shutdown

namespace CommandCodeProcessRunner

variable {P : Type}

def new (maxPromptBytes : ℕ) : CommandCodeProcessRunner P := ⟨maxPromptBytes, .empty, none, [], [], []⟩

def modifyRun (r : CommandCodeProcessRunner P) (i : ℕ) (f : ProcessRun P → ProcessRun P) : CommandCodeProcessRunner P :=
  { r with runs := r.runs.modify i f }

def childLive (r : CommandCodeProcessRunner P) (i : ℕ) : Bool := r.runs[i]?.any (·.child = .live)

/-- `killGroup`: a child without a pid is not signalled. -/
def killGroup (r : CommandCodeProcessRunner P) (i : ℕ) (signalToSend : Signal) : CommandCodeProcessRunner P :=
  if r.runs[i]?.any (·.child = .notStarted) then r else { r with kills := r.kills ++ [(i, signalToSend)] }

def terminate (r : CommandCodeProcessRunner P) (i : ℕ) (cause : TerminationCause) : CommandCodeProcessRunner P :=
  match r.runs[i]? with
  | none => r
  | some c =>
    if c.settled || c.terminationCause.isSome then r
    else (r.modifyRun i fun c => { c with terminationCause := some cause }).killGroup i .SIGTERM

/-- `finished` is what `parser.finish` answers; it is not asked after a protocol error. -/
def resultOf (c : ProcessRun P) (finished : Except JsString P) : CommandCodeProcessRunResult P :=
  let parsed := if c.protocolError.isSome then none else match finished with
    | .ok p => some p
    | .error _ => none
  let protocolError := if c.protocolError.isSome then c.protocolError else match finished with
    | .ok _ => none
    | .error message => some message
  ⟨parsed, c.exitCode, c.signal, c.terminationCause, protocolError, c.spawnError⟩

/-- `this.activeLaunch?.cleanup()`, called by the run `i`. -/
def cleanup (r : CommandCodeProcessRunner P) (i : ℕ) : List Cleanup :=
  match r.activeLaunch with
  | some launch => r.cleanups ++ [⟨i, launch, r.childLive launch⟩]
  | none => r.cleanups

def finish (r : CommandCodeProcessRunner P) (i : ℕ) (finished : Except JsString P) : CommandCodeProcessRunner P :=
  match r.runs[i]? with
  | none => r
  | some c =>
    if c.settled then r
    else
      { r with
        cleanups := r.cleanup i
        activeLaunch := none
        runs := r.runs.modify i fun c => { c with result := some (resultOf c finished) }
        active := r.active.delete c.sessionId }

/-- The checks of `run` before it asks for a launch. -/
def refusal (r : CommandCodeProcessRunner P) (input : CommandCodeProcessRunInput)
    (args : Except JsString (List JsString)) : Option JsString :=
  if r.active.has input.sessionId then some (js "Command Code session is already running: " ++ input.sessionId)
  else if utf8Length input.prompt > r.maxPromptBytes then some (js "Command Code prompt exceeds configured byte limit")
  else match args with
    | .error message => some message
    | .ok _ => none

def newRun (sessionId : JsString) (placed : Bool) (child : Child) : ProcessRun P :=
  ⟨sessionId, placed, child, none, none, none, none, none, none⟩

/-- The launch is the runner's own from here, whatever `spawn` does. -/
def launched (r : CommandCodeProcessRunner P) (sessionId : JsString) (placed : Bool) (child : Child) :
    CommandCodeProcessRunner P :=
  { r with activeLaunch := some r.runs.length, runs := r.runs ++ [newRun sessionId placed child] }

def stdinFailed (r : CommandCodeProcessRunner P) (i : ℕ) (message : JsString) : CommandCodeProcessRunner P :=
  (r.modifyRun i fun c => { c with spawnError := some message }).terminate i .abort

/-- `run` once `spawn` has returned a child. -/
def attach (r : CommandCodeProcessRunner P) (sessionId : JsString) (i : ℕ) (stdin : Option JsString) :
    CommandCodeProcessRunner P :=
  let s := { r with active := r.active.set sessionId i }
  match stdin with
  | none => s
  | some message => s.stdinFailed i message

/-- `run` from `this.activeLaunch = launch` on. -/
def launch (r : CommandCodeProcessRunner P) (sessionId : JsString) (placed : Bool) (spawned : SpawnAnswer)
    (stdin : Option JsString) : CommandCodeProcessRunner P :=
  let s := r.launched sessionId placed spawned.child
  match spawned with
  | .threw _ => s
  | .failed | .started => s.attach sessionId r.runs.length stdin

def run (r : CommandCodeProcessRunner P) (input : CommandCodeProcessRunInput) (args : Except JsString (List JsString))
    (plan : PlanAnswer) (spawned : SpawnAnswer) (stdin : Option JsString) : CommandCodeProcessRunner P :=
  if (r.refusal input args).isSome then r
  else match plan with
    | .threw _ => r
    | .unplaced => r.launch input.sessionId false spawned stdin
    | .placed => r.launch input.sessionId true spawned stdin

/-- The `data` listener of stdout, past the timer. -/
def stdout (r : CommandCodeProcessRunner P) (i : ℕ) (rejected : Option JsString) : CommandCodeProcessRunner P :=
  match r.runs[i]?, rejected with
  | some c, some message =>
    if c.settled || c.protocolError.isSome then r
    else (r.modifyRun i fun c => { c with protocolError := some message }).terminate i .timeout
  | _, _ => r

/-- A run whose `spawn` threw listens to no child. -/
def listens (r : CommandCodeProcessRunner P) (i : ℕ) : Bool := r.runs[i]?.any (·.child ≠ .none)

def childError (r : CommandCodeProcessRunner P) (i : ℕ) (message : JsString) (finished : Except JsString P) :
    CommandCodeProcessRunner P :=
  if !r.listens i then r
  else (r.modifyRun i fun c => { c with spawnError := some message }).finish i finished

def close (r : CommandCodeProcessRunner P) (i : ℕ) (code : Option ℤ) (signal : Option JsString) (finished : Except JsString P) :
    CommandCodeProcessRunner P :=
  if !r.listens i then r
  else (r.modifyRun i fun c => { c with child := .ended, exitCode := code, signal := signal }).finish i finished

def graceTimer (r : CommandCodeProcessRunner P) (i : ℕ) : CommandCodeProcessRunner P :=
  if r.runs[i]?.any (fun c => !c.settled && c.terminationCause.isSome) then r.killGroup i .SIGKILL else r

def abort (r : CommandCodeProcessRunner P) (sessionId : JsString) : CommandCodeProcessRunner P :=
  match r.active.get sessionId with
  | none => r
  | some i => r.terminate i .abort

def shutdown (r : CommandCodeProcessRunner P) : CommandCodeProcessRunner P :=
  r.active.values.foldl (fun r i => r.terminate i .shutdown) r

def step (r : CommandCodeProcessRunner P) : RunnerEvent P → CommandCodeProcessRunner P
  | .run input args plan spawned stdin => r.run input args plan spawned stdin
  | .stdout i rejected => r.stdout i rejected
  | .stdinError i message => r.stdinFailed i message
  | .childError i message finished => r.childError i message finished
  | .close i code signal finished => r.close i code signal finished
  | .wallTimer i => r.terminate i .timeout
  | .graceTimer i => r.graceTimer i
  | .abort sessionId => r.abort sessionId
  | .shutdown => r.shutdown

/-! ## A launch and its cleanup -/

def cleanupsOf (r : CommandCodeProcessRunner P) (i : ℕ) : List Cleanup := r.cleanups.filter (·.launch = i)

/-- Each placed launch has been cleaned up once if its run is over, by that run and with its
    child no longer alive; and not at all before. -/
def CleanedByOwnRun (r : CommandCodeProcessRunner P) : Prop :=
  ∀ i c, r.runs[i]? = some c → c.placed = true → r.cleanupsOf i = if c.isOver then [⟨i, i, false⟩] else []

/-- The run launched last has a placement and is not over. -/
def lastPending (r : CommandCodeProcessRunner P) : Bool := r.runs.getLast?.any fun c => c.placed && !c.isOver

/-- The finish of run `i`: of a placed run when no other was launched after it, of an unplaced
    one when the run launched last is not a placed one still in flight. -/
def finishesAlone (r : CommandCodeProcessRunner P) (i : ℕ) : Bool :=
  r.runs[i]?.all fun c => c.isOver || (if c.placed then i + 1 = r.runs.length else !r.lastPending)

/-- Where a step of the runner keeps launches and runs apart: a run finishes alone, an error
    event of a placed child comes when the child is not alive, and no placed spawn throws. -/
def Apart (r : CommandCodeProcessRunner P) : RunnerEvent P → Prop
  | .run input args plan spawned _ =>
    (r.refusal input args).isSome ∨ plan ≠ .placed ∨ ∀ message, spawned ≠ .threw message
  | .close i _ _ _ => r.finishesAlone i = true
  | .childError i _ _ =>
    r.finishesAlone i = true ∧ ∀ c, r.runs[i]? = some c → c.isOver = true ∨ c.placed = false ∨ c.child ≠ .live
  | _ => True

end CommandCodeProcessRunner

end PiWebUi.CommandCode
