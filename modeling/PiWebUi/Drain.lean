/-
  PiWebUi.Drain — drain-then-restart (drain-controller.ts), with the busy-session source as
  server.ts wires it.

  A drain closes admission and polls. Every decision first awaits one refresh of the
  cross-runtime registry, bounded by a timeout, then measures, then decides. The registry
  listing is shared: a refresh asked for while one is in flight is that one, and `refresh`
  answers well whether the listing did or not. Every measurement kicks a refresh and reads
  the last snapshot.
-/

import PiWebUi.Lib.JsString
import PiWebUi.Lib.JsNumber

namespace PiWebUi.Drain

open Lib

inductive DrainState where
  | idle
  | draining
  | settled
  | timed_out
  deriving DecidableEq

structure DrainRunRef where
  runId : JsString
  sessionId : JsString
  runtime : JsString
  status : JsString
  deriving DecidableEq

structure DrainBusySession where
  sessionId : JsString
  runtime : JsString
  busyReason : JsString
  runIds : List JsString := []
  deriving DecidableEq

structure RegistryEntry where
  id : JsString
  sdkType : JsString
  deriving DecidableEq

structure Listing where
  request : ℕ
  entries : List RegistryEntry
  deriving DecidableEq

/-- What the accessors answer at one instant. -/
structure Accessors where
  nonterminalRuns : Option (List DrainRunRef) := some []
  activeTurns : Option ℕ := some 0
  quarantinedTurns : Option ℕ := some 0
  piBusySessions : Option (List DrainBusySession) := some []
  isRuntimeRunning : JsString → JsString → Option Bool := fun _ _ => some false

structure Remaining where
  activeTurns : ℕ := 0
  quarantinedTurns : ℕ := 0
  nonterminalRuns : ℕ := 0
  runs : List DrainRunRef := []
  busySessions : ℕ := 0
  sessions : List DrainBusySession := []
  deriving DecidableEq

structure DrainRecord where
  state : DrainState
  reason : JsString
  startedAt : ℕ
  finishedAt : ℕ
  cutOffRunIds : List JsString
  cutOffSessions : List DrainBusySession
  busyRefresh : JsString
  deriving DecidableEq

structure LastOutcome where
  state : DrainState
  endedBy : JsString
  endedAt : ℕ
  cutOffRunIds : List JsString
  cutOffSessionIds : List JsString
  deriving DecidableEq

structure DrainStartInput where
  reason : JsString
  timeoutMs : Option JsNumber := none
  holdMs : Option JsNumber := none
  excludeSessionIds : List JsString := []
  deriving DecidableEq

def DEFAULT_DRAIN_TIMEOUT_MS : ℕ := 600000

def MAX_DRAIN_TIMEOUT_MS : ℕ := 3600000

def DEFAULT_DRAIN_HOLD_MS : ℕ := 300000

/-- The refresh in flight; `answer` tells whether its listing has ended, and well. -/
structure Fetch where
  request : ℕ
  answer : Option Bool := none
  deriving DecidableEq

/-- An evaluation: waiting for the refresh with this number, told whether that ended within its
    bound, or about to decide. -/
inductive Evaluation where
  | waiting (request : ℕ)
  | refreshed (fresh : Bool)
  | resuming
  deriving DecidableEq

structure State where
  state : DrainState := .idle
  reason : JsString := []
  startedAtMs : ℕ := 0
  finishedAtMs : Option ℕ := none
  timeoutMs : ℕ := 0
  holdMs : ℕ := 0
  holdUntilMs : Option ℕ := none
  remaining : Remaining := {}
  cutOffRunIds : List JsString := []
  cutOffSessionIds : List JsString := []
  excludedSessionIds : List JsString := []
  lastBusyRefreshFresh : Bool := true
  evaluating : Option Evaluation := none
  lastOutcome : Option LastOutcome := none
  /-- `admission.setDraining`. -/
  admission : Option (ℕ × JsString) := none
  record : Option DrainRecord := none
  /-- The busy-session source. -/
  snapshot : List RegistryEntry := []
  inFlight : Option Fetch := none
  now : ℕ := 0
  requests : ℕ := 0
  startMark : ℕ := 0
  completed : List Listing := []

def clampInt (value : Option JsNumber) (fallback low high : ℕ) : ℕ :=
  match value with
  | some (.fin q) => min high (max low ⌊q⌋.toNat)
  | _ => fallback

/-! ## The busy-session source -/

/-- `refresh`: the one in flight, or a new one. -/
def refresh (s : State) : State :=
  match s.inFlight with
  | some _ => s
  | none => { s with inFlight := some { request := s.requests }, requests := s.requests + 1 }

def runtimeBusy (a : Accessors) (e : RegistryEntry) : Option DrainBusySession :=
  if a.isRuntimeRunning e.sdkType e.id = some true then
    some { sessionId := e.id, runtime := e.sdkType, busyReason := js "runtime-running" }
  else none

/-- The Pi sessions as they are now, the others from a registry listing. -/
def listBusySessions (a : Accessors) (entries : List RegistryEntry) : List DrainBusySession :=
  (a.piBusySessions.getD []).map (fun b => { b with runIds := [] }) ++ entries.filterMap (runtimeBusy a)

/-! ## The controller -/

def runIdsOf (runs : List DrainRunRef) (sessionId : JsString) : List JsString :=
  (runs.filter fun r => r.sessionId = sessionId).map (·.runId)

def measured (a : Accessors) (entries : List RegistryEntry) (excluded : List JsString) : Remaining :=
  let runs := a.nonterminalRuns.getD []
  -- a snapshot that throws leaves both counts at 0
  let active := a.activeTurns.getD 0
  let quarantined := if a.activeTurns.isSome then a.quarantinedTurns.getD 0 else 0
  let busy := (listBusySessions a entries).filter fun b => !excluded.contains b.sessionId
  { activeTurns := active - quarantined, quarantinedTurns := quarantined
    nonterminalRuns := runs.length, runs, busySessions := busy.length
    sessions := busy.map fun b => { b with runIds := runIdsOf runs b.sessionId } }

def measure (s : State) (a : Accessors) : State :=
  let s := refresh s
  { s with remaining := measured a s.snapshot s.excludedSessionIds }

/-- Up to the await of the refresh. -/
def evaluate (s : State) : State :=
  if s.state ≠ .draining ∨ s.evaluating.isSome then s
  else
    let s := refresh s
    { s with evaluating := s.inFlight.map fun f => .waiting f.request }

def start (s : State) (input : DrainStartInput) (a : Accessors) : State :=
  if s.state ≠ .idle then s
  else
    evaluate (measure { s with
      state := .draining, reason := input.reason, startedAtMs := s.now, finishedAtMs := none, holdUntilMs := none
      timeoutMs := clampInt input.timeoutMs DEFAULT_DRAIN_TIMEOUT_MS 0 MAX_DRAIN_TIMEOUT_MS
      holdMs := clampInt input.holdMs DEFAULT_DRAIN_HOLD_MS 1 MAX_DRAIN_TIMEOUT_MS
      cutOffRunIds := [], cutOffSessionIds := [], excludedSessionIds := input.excludeSessionIds.take 8
      lastBusyRefreshFresh := true, admission := some (s.now, input.reason), startMark := s.requests } a)

def cancel (s : State) (endedBy : JsString) (a : Accessors) : State :=
  if s.state = .idle then s
  else
    let s := measure s a
    { s with
      lastOutcome := some { state := s.state, endedBy, endedAt := s.now, cutOffRunIds := s.cutOffRunIds
                            cutOffSessionIds := s.cutOffSessionIds }
      state := .idle, admission := none, record := none }

def freshness (fresh : Bool) : JsString := if fresh then js "fresh" else js "unavailable"

def finish (s : State) (verdict : DrainState) : State :=
  { s with
    state := verdict, finishedAtMs := some s.now, holdUntilMs := some (s.now + s.holdMs)
    record := some { state := verdict, reason := s.reason, startedAt := s.startedAtMs, finishedAt := s.now
                     cutOffRunIds := s.cutOffRunIds, cutOffSessions := s.remaining.sessions
                     busyRefresh := if verdict = .settled then js "fresh" else freshness s.lastBusyRefreshFresh } }

def nothingLeft (r : Remaining) : Bool := r.activeTurns = 0 && r.nonterminalRuns = 0 && r.busySessions = 0

/-- The decision, after the await. -/
def decide (s : State) (a : Accessors) : State :=
  let s := measure s a
  if nothingLeft s.remaining && s.lastBusyRefreshFresh then finish s .settled
  else if s.timeoutMs ≤ s.now - s.startedAtMs then
    finish { s with cutOffRunIds := s.remaining.runs.map (·.runId)
                    cutOffSessionIds := s.remaining.sessions.map (·.sessionId) } .timed_out
  else s

/-- The end of `refreshBusyBeforeDecision`. -/
def noteRefresh (s : State) : State :=
  match s.evaluating with
  | some (.refreshed fresh) => { s with lastBusyRefreshFresh := fresh, evaluating := some .resuming }
  | _ => s

def resume (s : State) (a : Accessors) : State :=
  if s.evaluating ≠ some .resuming then s
  else if s.state ≠ .draining then { s with evaluating := none }
  else decide { s with evaluating := none } a

/-- The bound on the refresh passes first. -/
def refreshTimeout (s : State) : State :=
  match s.evaluating with
  | some (.waiting _) => { s with evaluating := some (.refreshed false) }
  | _ => s

/-- The listing ends; `none` is a failure, which keeps the snapshot. -/
def listingEnds (s : State) (entries : Option (List RegistryEntry)) : State :=
  match s.inFlight, entries with
  | some ⟨request, none⟩, some entries =>
    { s with inFlight := some ⟨request, some true⟩, snapshot := entries
             completed := s.completed ++ [⟨request, entries⟩] }
  | some ⟨request, none⟩, none => { s with inFlight := some ⟨request, some false⟩ }
  | _, _ => s

/-- The shared promise is fulfilled, whichever way the listing ended. -/
def refreshEnds (s : State) : State :=
  match s.inFlight with
  | some ⟨request, some _⟩ =>
    { s with inFlight := none
             evaluating := if s.evaluating = some (.waiting request) then some (.refreshed true) else s.evaluating }
  | _ => s

inductive Step where
  | tick (elapsed : ℕ)
  | start (input : DrainStartInput) (a : Accessors)
  /-- Also the end of the hold window, as `hold_expired`. -/
  | cancel (endedBy : JsString) (a : Accessors)
  | poll
  /-- The boot or the drain route asks for a refresh. -/
  | kick
  | listingEnds (entries : Option (List RegistryEntry))
  | refreshEnds
  | refreshTimeout
  | noteRefresh
  | resume (a : Accessors)

def step (s : State) : Step → State
  | .tick elapsed => { s with now := s.now + elapsed }
  | .start input a => start s input a
  | .cancel endedBy a => cancel s endedBy a
  | .poll => evaluate s
  | .kick => refresh s
  | .listingEnds entries => listingEnds s entries
  | .refreshEnds => refreshEnds s
  | .refreshTimeout => refreshTimeout s
  | .noteRefresh => noteRefresh s
  | .resume a => resume s a

end PiWebUi.Drain
