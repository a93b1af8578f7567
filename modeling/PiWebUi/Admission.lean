/-
  PiWebUi.Admission — the admission controller (admission-controller.ts).

  A turn of one of five runtimes and four priority classes asks for a lease
  (`acquire`); P0 and P1 are control, P2 and P3 execution. `resolveAdmissionConfig`
  turns the options into numbers, `evaluatePressure` reads every capacity source once
  (moving the heap and lag latches), `refusalReason` decides. A granted lease counts in
  `activeTurns`, in its runtime and in its class until its first `release`.
-/

import PiWebUi.Lib.JsNumber
import PiWebUi.Lib.Ledger

namespace PiWebUi

open Lib

inductive SessionRuntime where
  | pi
  | claude
  | opencode
  | antigravity
  | commandcode
  deriving DecidableEq, Repr

def RUNTIMES : List SessionRuntime := [.pi, .claude, .opencode, .antigravity, .commandcode]

namespace Admission

inductive AdmissionRefusalReason where
  | globalLimit
  | runtimeLimit
  | memoryPressure
  | pidPressure
  | hostMemoryPressure
  | heapPressure
  | eventLoopLag
  | draining
  deriving DecidableEq, Repr

def SLOT_REFUSALS : List AdmissionRefusalReason := [.globalLimit, .runtimeLimit]

def admissionRefusalHttpStatus (reason : AdmissionRefusalReason) : ℕ :=
  if reason ∈ SLOT_REFUSALS then 429 else 503

inductive AdmissionClass where
  | P0
  | P1
  | P2
  | P3
  deriving DecidableEq, Repr

def CONTROL_CLASSES : List AdmissionClass := [.P0, .P1]

def ADMISSION_CLASSES : List AdmissionClass := [.P0, .P1, .P2, .P3]

/-! ## Configuration -/

structure AdmissionControllerOptions where
  maxActiveTurns : Option JsNumber := none
  interactiveReserve : Option JsNumber := none
  controlReserve : Option JsNumber := none
  memoryCriticalBytes : Option JsNumber := none
  runtimeMaxActiveTurns : SessionRuntime → Option JsNumber := fun _ => none
  minimumHeadroomBytes : Option JsNumber := none
  reservedBytesPerTurn : Option JsNumber := none
  reservedPidsPerTurn : Option JsNumber := none
  hostMinimumHeadroomBytes : Option JsNumber := none
  retryAfterSeconds : Option JsNumber := none
  heapPressureFraction : Option JsNumber := none
  heapRecoveryFraction : Option JsNumber := none
  reservedHeapBytesPerTurn : Option JsNumber := none
  lagThresholdMs : Option JsNumber := none
  lagRecoveryMs : Option JsNumber := none
  lagSustainedReadings : Option JsNumber := none
  lagReadingStaleMs : Option JsNumber := none
  heapLagRetryAfterSeconds : Option JsNumber := none

def num (n : ℕ) : JsNumber := .fin n

def DEFAULT_MINIMUM_HEADROOM_BYTES : ℕ := 512 * 1024 * 1024
def DEFAULT_RESERVED_BYTES_PER_TURN : ℕ := 512 * 1024 * 1024
def DEFAULT_RESERVED_PIDS_PER_TURN : ℕ := 96
def DEFAULT_HOST_MINIMUM_HEADROOM_BYTES : ℕ := 512 * 1024 * 1024
def DEFAULT_HEAP_PRESSURE_FRACTION : JsNumber := JsNumber.roundBinary64 (75 / 100)
def DEFAULT_HEAP_RECOVERY_FRACTION : JsNumber := JsNumber.roundBinary64 (65 / 100)
def DEFAULT_RESERVED_HEAP_BYTES_PER_TURN : ℕ := 64 * 1024 * 1024
def DEFAULT_LAG_THRESHOLD_MS : ℕ := 300
def DEFAULT_LAG_SUSTAINED_READINGS : ℕ := 2
def DEFAULT_LAG_READING_STALE_MS : ℕ := 180000
def DEFAULT_HEAP_LAG_RETRY_AFTER_SECONDS : ℕ := 30

def positiveInteger (value : Option JsNumber) (fallback : JsNumber) : JsNumber :=
  match value with
  | some v => if v.isFinite && (num 0).lt v then v.floor else fallback
  | none => fallback

/-- A fraction in (0, 1]; anything else falls back. -/
def fraction (value : Option JsNumber) (fallback : JsNumber) : JsNumber :=
  match value with
  | some v => if v.isFinite && (num 0).lt v && v.le (num 1) then v else fallback
  | none => fallback

structure ResolvedAdmissionConfig where
  maxActiveTurns : JsNumber
  interactiveReserve : JsNumber
  apiTurnLimit : JsNumber
  controlReserve : JsNumber
  executionCapacity : JsNumber
  minimumHeadroomBytes : JsNumber
  memoryCriticalBytes : JsNumber
  reservedBytesPerTurn : JsNumber
  reservedPidsPerTurn : JsNumber
  hostMinimumHeadroomBytes : JsNumber
  retryAfterSeconds : JsNumber
  heapPressureFraction : JsNumber
  heapRecoveryFraction : JsNumber
  reservedHeapBytesPerTurn : JsNumber
  lagThresholdMs : JsNumber
  lagRecoveryMs : JsNumber
  lagSustainedReadings : JsNumber
  lagReadingStaleMs : JsNumber
  heapLagRetryAfterSeconds : JsNumber
  warnings : List JsString
  usingDefaults : Bool

/-- The lag threshold in force and the warning of a knob that fell back. -/
def resolveLagThreshold (value : Option JsNumber) : JsNumber × List JsString :=
  let lagThresholdMs := positiveInteger value (num DEFAULT_LAG_THRESHOLD_MS)
  match value with
  | some v =>
    (lagThresholdMs, if lagThresholdMs = v then [] else
      [js "admission lagThresholdMs=" ++ v.toText ++ js " is not a positive integer; using " ++
        (num DEFAULT_LAG_THRESHOLD_MS).toText ++ js "."])
  | none => (lagThresholdMs, [])

/-- Recovery defaults to half the trigger; an invalid value or one at or above the
    trigger warns and falls back to that. -/
def resolveLagRecovery (value : Option JsNumber) (lagThresholdMs : JsNumber) : JsNumber × List JsString :=
  let derivedRecoveryMs := (num 1).max (lagThresholdMs.divNat 2).floor
  match value with
  | some v =>
    let requested := positiveInteger value (num 0)
    if (num 0).lt requested && decide (requested = v) && requested.lt lagThresholdMs then (requested, [])
    else (derivedRecoveryMs,
      [js "admission lagRecoveryMs=" ++ v.toText ++ js " is invalid or not below lagThresholdMs=" ++
        lagThresholdMs.toText ++ js "; using " ++ derivedRecoveryMs.toText ++ js "."])
  | none => (derivedRecoveryMs, [])

def resolveLagSustained (value : Option JsNumber) : JsNumber × List JsString :=
  let lagSustainedReadings := positiveInteger value (num DEFAULT_LAG_SUSTAINED_READINGS)
  match value with
  | some v =>
    (lagSustainedReadings, if lagSustainedReadings = v then [] else
      [js "admission lagSustainedReadings=" ++ v.toText ++ js " must be an integer >= 1; using " ++
        (num DEFAULT_LAG_SUSTAINED_READINGS).toText ++ js "."])
  | none => (lagSustainedReadings, [])

/-- `Math.min(Math.max(0, Math.floor(value)), Math.max(0, maxActiveTurns - 1))`. -/
def clampReserve (value maxActiveTurns : JsNumber) : JsNumber :=
  ((num 0).max value.floor).min ((num 0).max (maxActiveTurns.sub (num 1)))

def resolveAdmissionConfig (availableParallelism : ℕ) (options : AdmissionControllerOptions) :
    ResolvedAdmissionConfig :=
  let maxActiveTurns := positiveInteger options.maxActiveTurns (num (max 2 availableParallelism))
  let interactiveReserve := clampReserve (options.interactiveReserve.getD (num 1)) maxActiveTurns
  let controlReserve := clampReserve (options.controlReserve.getD interactiveReserve) maxActiveTurns
  let minimumHeadroomBytes := positiveInteger options.minimumHeadroomBytes (num DEFAULT_MINIMUM_HEADROOM_BYTES)
  let heapPressureFraction := fraction options.heapPressureFraction DEFAULT_HEAP_PRESSURE_FRACTION
  let lagThreshold := resolveLagThreshold options.lagThresholdMs
  let lagRecovery := resolveLagRecovery options.lagRecoveryMs lagThreshold.1
  let lagSustained := resolveLagSustained options.lagSustainedReadings
  { warnings := lagThreshold.2 ++ lagRecovery.2 ++ lagSustained.2
    heapPressureFraction
    heapRecoveryFraction :=
      heapPressureFraction.min (fraction options.heapRecoveryFraction DEFAULT_HEAP_RECOVERY_FRACTION)
    reservedHeapBytesPerTurn :=
      positiveInteger options.reservedHeapBytesPerTurn (num DEFAULT_RESERVED_HEAP_BYTES_PER_TURN)
    lagThresholdMs := lagThreshold.1
    lagRecoveryMs := lagRecovery.1
    lagSustainedReadings := lagSustained.1
    lagReadingStaleMs := positiveInteger options.lagReadingStaleMs (num DEFAULT_LAG_READING_STALE_MS)
    heapLagRetryAfterSeconds :=
      positiveInteger options.heapLagRetryAfterSeconds (num DEFAULT_HEAP_LAG_RETRY_AFTER_SECONDS)
    maxActiveTurns
    interactiveReserve
    apiTurnLimit := (num 1).max (maxActiveTurns.sub interactiveReserve)
    controlReserve
    executionCapacity := (num 0).max (maxActiveTurns.sub controlReserve)
    minimumHeadroomBytes
    memoryCriticalBytes :=
      positiveInteger options.memoryCriticalBytes ((num 1).max (minimumHeadroomBytes.divNat 4).floor)
    reservedBytesPerTurn := positiveInteger options.reservedBytesPerTurn (num DEFAULT_RESERVED_BYTES_PER_TURN)
    reservedPidsPerTurn := positiveInteger options.reservedPidsPerTurn (num DEFAULT_RESERVED_PIDS_PER_TURN)
    hostMinimumHeadroomBytes :=
      positiveInteger options.hostMinimumHeadroomBytes (num DEFAULT_HOST_MINIMUM_HEADROOM_BYTES)
    retryAfterSeconds := positiveInteger options.retryAfterSeconds (num 2)
    usingDefaults := options.maxActiveTurns.isNone }

/-- What the constructor keeps: the resolved configuration and the runtime limits. -/
structure Limits extends ResolvedAdmissionConfig where
  runtimeLimits : SessionRuntime → JsNumber

def limits (availableParallelism : ℕ) (options : AdmissionControllerOptions) : Limits :=
  let c := resolveAdmissionConfig availableParallelism options
  { c with runtimeLimits := fun runtime => positiveInteger (options.runtimeMaxActiveTurns runtime) c.apiTurnLimit }

/-! ## State and readings -/

structure MemoryCapacity where
  currentBytes : JsNumber
  limitBytes : JsNumber
  highBytes : Option JsNumber := none

structure ResolvedPidsCapacity where
  current : Option JsNumber := none
  max : Option JsNumber := none

structure ResolvedHostPressure where
  memAvailableBytes : Option JsNumber := none

structure HeapReading where
  usedBytes : JsNumber
  limitBytes : JsNumber

structure LagReading where
  p99Ms : JsNumber
  atMs : JsNumber
  sampleCount : Option JsNumber := none

/-- What the injected readers answer during one evaluation. -/
structure Telemetry where
  now : JsNumber
  heap : Option HeapReading
  overrideHeapUsedBytes : Option JsNumber := none
  memory : Option MemoryCapacity
  pids : Option ResolvedPidsCapacity
  host : Option ResolvedHostPressure

structure Draining where
  since : JsNumber
  reason : JsString

structure Lease where
  runtime : SessionRuntime
  cls : AdmissionClass

/-- `released` of each lease handed out lives in `leases`. -/
structure AdmissionController where
  activeTurns : ℕ
  activeByRuntime : SessionRuntime → ℕ
  activeByClass : AdmissionClass → ℕ
  heapLatched : Bool
  lagLatched : Bool
  lagConsecutiveHigh : ℕ
  /-- `p99Ms` and `atMs` of the last lag reading. -/
  lastLag : Option (JsNumber × JsNumber)
  drainingState : Option Draining
  leases : Ledger Lease

def init : AdmissionController :=
  ⟨0, fun _ => 0, fun _ => 0, false, false, 0, none, none, .empty⟩

variable (c : Limits)

def executionActive (s : AdmissionController) : ℕ := s.activeByClass .P2 + s.activeByClass .P3

/-! ## Pressure -/

def resetLag (s : AdmissionController) : AdmissionController := { s with lagLatched := false, lagConsecutiveHigh := 0 }

/-- The second half of `observeLagReading`: the streak and the latch. -/
def latchLag (s : AdmissionController) (p99Ms atMs : JsNumber) : AdmissionController :=
  let high := if c.lagThresholdMs.le p99Ms then s.lagConsecutiveHigh + 1 else 0
  let lagLatched :=
    if !s.lagLatched && c.lagSustainedReadings.le (num high) then true
    else if s.lagLatched && p99Ms.lt c.lagRecoveryMs then false
    else s.lagLatched
  { s with lastLag := some (p99Ms, atMs), lagConsecutiveHigh := high, lagLatched }

def observeLagReading (s : AdmissionController) (reading : LagReading) (override : Option JsNumber) :
    AdmissionController :=
  if reading.sampleCount.any (·.le (num 0)) then s
  else
    let p99Ms := override.getD reading.p99Ms
    if !p99Ms.isFinite then s
    else
      let stale := s.lastLag.any fun last => c.lagReadingStaleMs.lt (reading.atMs.sub last.2)
      latchLag c (if stale then resetLag s else s) p99Ms reading.atMs

structure AdmissionHeapState where
  usedBytes : JsNumber
  limitBytes : JsNumber
  projectedBytes : JsNumber
  pressureBytes : JsNumber
  recoveryBytes : JsNumber
  pressure : Bool

def evaluateHeap (s : AdmissionController) (t : Telemetry) : AdmissionController × AdmissionHeapState :=
  let reading := t.heap.getD ⟨num 0, num 0⟩
  let usedBytes := t.overrideHeapUsedBytes.getD reading.usedBytes
  let limitBytes := if (num 0).lt reading.limitBytes then reading.limitBytes else num 0
  let projectedBytes := usedBytes.add ((num (executionActive s + 1)).mul c.reservedHeapBytesPerTurn)
  let pressureBytes := (limitBytes.mul c.heapPressureFraction).floor
  let recoveryBytes := (limitBytes.mul c.heapRecoveryFraction).floor
  let heapLatched :=
    if limitBytes = num 0 then false
    else if !s.heapLatched && pressureBytes.le projectedBytes then true
    else if s.heapLatched && projectedBytes.lt recoveryBytes then false
    else s.heapLatched
  ({ s with heapLatched }, ⟨usedBytes, limitBytes, projectedBytes, pressureBytes, recoveryBytes, heapLatched⟩)

/-- Staleness fails open and clears the latch and the streak. -/
def lagState (s : AdmissionController) (now : JsNumber) : AdmissionController × Bool × Bool :=
  let stale := s.lastLag.any fun last => c.lagReadingStaleMs.lt (now.sub last.2)
  let s := if stale then resetLag s else s
  (s, s.lagLatched, stale)

structure Pressure where
  memory : MemoryCapacity
  headroomBytes : JsNumber
  projectedHeadroomBytes : JsNumber
  memoryPressure : Bool
  memoryCritical : Bool
  pids : ResolvedPidsCapacity
  pidPressure : Bool
  host : ResolvedHostPressure
  hostPressure : Option Bool
  heap : AdmissionHeapState
  lagPressure : Bool
  lagStale : Bool

/-- The pressure flags, `none` when a reader throws; the latches have moved by then. -/
def evaluatePressure (s : AdmissionController) (t : Telemetry) : AdmissionController × Option Pressure :=
  let (s, heap) := evaluateHeap c s t
  let (s, lagPressure, lagStale) := lagState c s t.now
  let flags : Option Pressure := do
    let memory ← t.memory
    let pids ← t.pids
    let host ← t.host
    let execution := num (executionActive s + 1)
    let headroomBytes := (num 0).max (memory.limitBytes.sub memory.currentBytes)
    let projectedHeadroomBytes :=
      (num 0).max (headroomBytes.sub ((num (s.activeTurns + 1)).mul c.reservedBytesPerTurn))
    let highPressure := memory.highBytes.any (·.le memory.currentBytes)
    let pidPressure :=
      match pids.max, pids.current with
      | some max, some current => max.le (current.add (execution.mul c.reservedPidsPerTurn))
      | _, _ => false
    let hostPressure := host.memAvailableBytes.map fun available =>
      (available.sub (execution.mul c.reservedBytesPerTurn)).lt c.hostMinimumHeadroomBytes
    some {
      memory, headroomBytes, projectedHeadroomBytes
      memoryPressure := projectedHeadroomBytes.lt c.minimumHeadroomBytes || highPressure
      memoryCritical := projectedHeadroomBytes.lt c.memoryCriticalBytes
      pids, pidPressure, host, hostPressure, heap, lagPressure, lagStale }
  (s, flags)

/-! ## Leases -/

def refusalReason (s : AdmissionController) (runtime : SessionRuntime) (cls : AdmissionClass) (p : Pressure) :
    Option AdmissionRefusalReason :=
  if cls ∈ CONTROL_CLASSES then
    if p.memoryCritical then some .memoryPressure
    else if c.maxActiveTurns.le (num s.activeTurns) then some .globalLimit
    else none
  else if s.drainingState.isSome then some .draining
  else if p.memoryPressure then some .memoryPressure
  else if p.hostPressure.getD false then some .hostMemoryPressure
  else if p.pidPressure then some .pidPressure
  else if p.heap.pressure then some .heapPressure
  else if p.lagPressure then some .eventLoopLag
  else if c.executionCapacity.le (num (executionActive s)) then some .globalLimit
  else if (c.runtimeLimits runtime).le (num (s.activeByRuntime runtime)) then some .runtimeLimit
  else none

structure AdmissionCapacityError where
  reason : AdmissionRefusalReason
  retryAfterSeconds : JsNumber
  detail : Option JsString

def refusal (reason : AdmissionRefusalReason) (detail : Option JsString) : AdmissionCapacityError :=
  { reason, detail
    retryAfterSeconds :=
      if reason = .heapPressure ∨ reason = .eventLoopLag then c.heapLagRetryAfterSeconds else c.retryAfterSeconds }

def optText (x : Option JsNumber) : JsString := (x.map (·.toText)).getD (js "undefined")

/-- The numbers an `acquire` refusal names. -/
def refusalDetail (s : AdmissionController) (p : Pressure) : AdmissionRefusalReason → Option JsString
  | .pidPressure =>
    let reservedTasks := (num (executionActive s + 1)).mul c.reservedPidsPerTurn
    some (js "currentTasks=" ++ optText p.pids.current ++ js " reservedTasks=" ++ reservedTasks.toText ++
      js " projectedTasks=" ++ optText (p.pids.current.map (·.add reservedTasks)) ++ js " taskLimit=" ++ optText p.pids.max)
  | .heapPressure =>
    some (js "projectedHeapBytes=" ++ p.heap.projectedBytes.toText ++ js " pressureBytes=" ++ p.heap.pressureBytes.toText ++
      js " heapLimitBytes=" ++ p.heap.limitBytes.toText)
  | .eventLoopLag =>
    some (js "lagP99Ms=" ++ optText (s.lastLag.map (·.1)) ++ js " thresholdMs=" ++ c.lagThresholdMs.toText ++
      js " recoveryMs=" ++ c.lagRecoveryMs.toText)
  | _ => none

/-- What a rejected call throws. -/
inductive Thrown where
  | refused (e : AdmissionCapacityError)
  | reader

def update [DecidableEq κ] (f : κ → ℕ) (k : κ) (n : ℕ) : κ → ℕ := fun j => if j = k then n else f j

def grant (s : AdmissionController) (runtime : SessionRuntime) (cls : AdmissionClass) : AdmissionController :=
  { s with
    activeTurns := s.activeTurns + 1
    activeByRuntime := update s.activeByRuntime runtime (s.activeByRuntime runtime + 1)
    activeByClass := update s.activeByClass cls (s.activeByClass cls + 1)
    leases := s.leases.grant ⟨runtime, cls⟩ }

def acquire (s : AdmissionController) (runtime : SessionRuntime) (cls : AdmissionClass) (t : Telemetry) :
    AdmissionController × Except Thrown ℕ :=
  let (s, pressure) := evaluatePressure c s t
  match pressure with
  | none => (s, .error .reader)
  | some p =>
    match refusalReason c s runtime cls p with
    | some reason => (s, .error (.refused (refusal c reason (refusalDetail c s p reason))))
    | none => (grant s runtime cls, .ok s.leases.entries.length)

/-- `release()` of the `i`-th lease handed out. -/
def release (s : AdmissionController) (i : ℕ) : AdmissionController :=
  match s.leases.held i with
  | none => s
  | some l =>
    { s with
      activeTurns := s.activeTurns - 1
      activeByRuntime := update s.activeByRuntime l.runtime (s.activeByRuntime l.runtime - 1)
      activeByClass := update s.activeByClass l.cls (s.activeByClass l.cls - 1)
      leases := s.leases.release i }

structure AdmissionLagState where
  thresholdMs : JsNumber
  recoveryMs : JsNumber
  sustainedReadings : JsNumber
  consecutiveHighReadings : ℕ
  pressure : Bool
  stale : Bool
  /-- `lastP99Ms` and `lastReadingAt`, when there was a reading. -/
  last : Option (JsNumber × JsNumber)

/-- What `GET /capacity` publishes. -/
structure AdmissionSnapshot where
  available : Bool
  reason : Option AdmissionRefusalReason
  activeTurns : ℕ
  maxActiveTurns : JsNumber
  interactiveReserve : JsNumber
  apiTurnLimit : JsNumber
  controlReserve : JsNumber
  executionCapacity : JsNumber
  classes : AdmissionClass → ℕ
  controlAvailable : Bool
  emergencyMode : Bool
  memory : MemoryCapacity
  headroomBytes : JsNumber
  projectedHeadroomBytes : JsNumber
  pids : ResolvedPidsCapacity
  pidPressure : Bool
  host : ResolvedHostPressure
  hostPressure : Option Bool
  heap : AdmissionHeapState
  eventLoopLag : AdmissionLagState
  draining : Option Draining
  runtimes : SessionRuntime → ℕ × JsNumber
  retryAfterSeconds : JsNumber

/-- The reason is that of a P2 acquire; `runtime_limit` is of one runtime and left out. -/
def snapshot (s : AdmissionController) (t : Telemetry) : AdmissionController × Option AdmissionSnapshot :=
  let (s, pressure) := evaluatePressure c s t
  (s, pressure.map fun p =>
    let refusal := refusalReason c s .pi .P2 p
    let reason := if refusal = some .runtimeLimit then none else refusal
    { available := reason.isNone
      reason
      activeTurns := s.activeTurns
      maxActiveTurns := c.maxActiveTurns
      interactiveReserve := c.interactiveReserve
      apiTurnLimit := c.apiTurnLimit
      controlReserve := c.controlReserve
      executionCapacity := c.executionCapacity
      classes := s.activeByClass
      controlAvailable := !p.memoryCritical
      emergencyMode := p.memoryPressure && !p.memoryCritical
      memory := p.memory
      headroomBytes := p.headroomBytes
      projectedHeadroomBytes := p.projectedHeadroomBytes
      pids := p.pids
      pidPressure := p.pidPressure
      host := p.host
      hostPressure := p.hostPressure
      heap := p.heap
      eventLoopLag := ⟨c.lagThresholdMs, c.lagRecoveryMs, c.lagSustainedReadings, s.lagConsecutiveHigh, p.lagPressure, p.lagStale, s.lastLag⟩
      draining := s.drainingState
      runtimes := fun runtime => (s.activeByRuntime runtime, c.runtimeLimits runtime)
      retryAfterSeconds := c.retryAfterSeconds })

/-- Refuses a session create for every reason but turn-slot saturation. -/
def assertCreateAdmissible (s : AdmissionController) (runtime : SessionRuntime) (cls : AdmissionClass) (t : Telemetry) :
    AdmissionController × Except Thrown Unit :=
  let (s, pressure) := evaluatePressure c s t
  match pressure with
  | none => (s, .error .reader)
  | some p =>
    match refusalReason c s runtime cls p with
    | some reason =>
      (s, if reason ∈ SLOT_REFUSALS then .ok () else .error (.refused (refusal c reason none)))
    | none => (s, .ok ())

inductive Event where
  | acquire (runtime : SessionRuntime) (cls : AdmissionClass) (t : Telemetry)
  | release (i : ℕ)
  | setDraining (state : Option Draining)
  | observeLagReading (reading : LagReading) (override : Option JsNumber)
  | assertCreateAdmissible (runtime : SessionRuntime) (cls : AdmissionClass) (t : Telemetry)
  /-- `snapshot()`, which evaluates the pressure too. -/
  | snapshot (t : Telemetry)

def step (s : AdmissionController) : Event → AdmissionController
  | .acquire runtime cls t => (acquire c s runtime cls t).1
  | .release i => release s i
  | .setDraining state => { s with drainingState := state }
  | .observeLagReading reading override => observeLagReading c s reading override
  | .assertCreateAdmissible runtime cls t => (assertCreateAdmissible c s runtime cls t).1
  | .snapshot t => (evaluatePressure c s t).1

end Admission

end PiWebUi
