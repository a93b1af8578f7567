/-
  PiWebUi.RunReceipts.RunReceiptManager — the runs of a receipt manager and its watchdog
  (run-receipt-manager.ts).

  A watchdog pass takes the runs that are active and looks at them one by one (`visit`). It
  asks to finish a run that has stalled or never started, reaches the run's lock after
  `init()` (`reach`), and goes on when it has the run's receipt (`resume`). A new pass does
  not wait for the one before. `announcements` are the callbacks that were called.
-/

import PiWebUi.RunReceipts.RunCell

namespace PiWebUi.RunReceipts

open Lib

inductive PassState where
  | looking
  | calling (run : ℕ) (outcome : RunFinishOutcome)
  | waiting (run : ℕ)
  deriving DecidableEq

structure Pass where
  now : ℤ
  rest : List ℕ
  state : PassState
  deriving DecidableEq

/-- A run was announced: by `onStalled`, or by `onRunNeverStarted` and then each of the `listeners`. -/
structure Announcement where
  run : ℕ
  pass : ℕ
  errorCode : JsString
  listeners : ℕ
  deriving DecidableEq

structure RunReceiptManager where
  cells : ℕ → RunCell
  activeRuns : List ℕ
  passes : List Pass
  neverStartedListeners : ℕ
  stalledRunCount : ℕ
  announcements : List Announcement

inductive ManagerEvent where
  | run (run : ℕ) (event : RunEvent)
  | addNeverStartedListener
  | tick (now : ℤ)
  | visit (pass : ℕ)
  | reach (pass : ℕ)
  | resume (pass : ℕ) (threw : Bool)
  | restart (now : ℤ) (loads persisted : ℕ → Bool)

def NEVER_STARTED : JsString := js "NEVER_STARTED"

def TURN_STALLED : JsString := js "TURN_STALLED"

namespace RunReceiptManager

variable (c : RunReceiptManagerConfig)

def new : RunReceiptManager := ⟨fun _ => {}, [], [], 0, 0, []⟩

/-- What a pass that looks at a run at `now` wants it finished with. -/
def stallOutcome (now : ℤ) (cell : RunCell) : Option RunFinishOutcome :=
  match cell.active with
  | none => none
  | some active =>
    let startWindowExceeded := decide (0 < c.runStartWindowMs) && decide (c.runStartWindowMs ≤ now - active.acceptedAtMs)
    if startWindowExceeded && neverProducedWork active then
      if cell.receipt.any (·.status = .started) then
        some { status := some .failed, errorCode := some NEVER_STARTED, stallReason := some .noActivity }
      else none
    else
      let idleExceeded := decide (c.turnIdleTimeoutMs ≤ now - active.lastActivityAtMs)
      let maxExceeded := decide (c.turnMaxMs ≤ now - active.acceptedAtMs)
      if !idleExceeded && !maxExceeded then none
      else if cell.receipt.any (!isTerminal ·.status) then
        let stallReason : RunStallReason := if maxExceeded then .absolute else if neverProducedWork active then .noActivity else .idle
        some { status := some .failed, errorCode := some TURN_STALLED, stallReason := some stallReason }
      else none

def setCell (s : RunReceiptManager) (run : ℕ) (cell : RunCell) : RunReceiptManager :=
  { s with
    cells := Function.update s.cells run cell
    activeRuns := if cell.listed then (if run ∈ s.activeRuns then s.activeRuns else s.activeRuns ++ [run]) else s.activeRuns.erase run }

def setPass (s : RunReceiptManager) (pass : ℕ) (p : Pass) : RunReceiptManager := { s with passes := s.passes.set pass p }

def tick (s : RunReceiptManager) (now : ℤ) : RunReceiptManager := { s with passes := s.passes ++ [⟨now, s.activeRuns, .looking⟩] }

def visit (s : RunReceiptManager) (pass : ℕ) : RunReceiptManager :=
  match s.passes[pass]? with
  | some ⟨now, run :: rest, .looking⟩ =>
    match stallOutcome c now (s.cells run) with
    | some outcome => s.setPass pass ⟨now, rest, .calling run outcome⟩
    | none => s.setPass pass ⟨now, rest, .looking⟩
  | _ => s

def reach (s : RunReceiptManager) (pass : ℕ) : RunReceiptManager :=
  match s.passes[pass]? with
  | some ⟨now, rest, .calling run outcome⟩ =>
    (s.setCell run ((s.cells run).enqueue (.finish outcome) (some pass))).setPass pass ⟨now, rest, .waiting run⟩
  | _ => s

def announce (s : RunReceiptManager) (run pass : ℕ) (errorCode : JsString) (threw : Bool) : RunReceiptManager :=
  if errorCode = NEVER_STARTED then
    { s with announcements := s.announcements ++ [⟨run, pass, errorCode, if threw then 0 else s.neverStartedListeners⟩] }
  else { s with stalledRunCount := s.stalledRunCount + 1, announcements := s.announcements ++ [⟨run, pass, errorCode, 0⟩] }

/-- The pass has its answer: it announces a receipt with the error code it asked for. A callback
    that throws is the end of the pass; a listener's error is caught. -/
def resume (s : RunReceiptManager) (pass : ℕ) (threw : Bool) : RunReceiptManager :=
  match s.passes[pass]? with
  | some ⟨now, rest, .waiting run⟩ =>
    match (s.cells run).answers.find? (·.pass = pass) with
    | none => s
    | some answer =>
      let s := s.setCell run { s.cells run with answers := (s.cells run).answers.erase answer }
      match answer.errorCode, answer.receipt.bind (·.errorCode) with
      | some asked, some found =>
        if asked = found then (s.setPass pass ⟨now, if threw then [] else rest, .looking⟩).announce run pass asked threw
        else s.setPass pass ⟨now, rest, .looking⟩
      | _, _ => s.setPass pass ⟨now, rest, .looking⟩
  | _ => s

def restart (s : RunReceiptManager) (now : ℤ) (loads persisted : ℕ → Bool) : RunReceiptManager where
  cells run := (s.cells run).restart now (loads run) (persisted run)
  activeRuns := []
  passes := []
  neverStartedListeners := 0
  stalledRunCount := 0
  announcements := []

def step (s : RunReceiptManager) : ManagerEvent → RunReceiptManager
  | .run run event => s.setCell run ((s.cells run).step c event)
  | .addNeverStartedListener => { s with neverStartedListeners := s.neverStartedListeners + 1 }
  | .tick now => s.tick now
  | .visit pass => s.visit c pass
  | .reach pass => s.reach pass
  | .resume pass threw => s.resume pass threw
  | .restart now loads persisted => s.restart now loads persisted

end RunReceiptManager

end PiWebUi.RunReceipts
