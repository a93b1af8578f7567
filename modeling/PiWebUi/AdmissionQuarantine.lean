/-
  PiWebUi.AdmissionQuarantine — what a refusal says of quarantined leases
  (`quarantineAttribution`, admission-controller.ts).

  The source counts, for each runtime, the leases that were never confirmed quiescent. A
  refusal of an execution class is attributed to them when the arithmetic on the counters
  says that it would clear without them; only turn slots and memory reservations are, never
  the host, PID, heap, lag or draining gates.
-/

import PiWebUi.AdmissionLag
import PiWebUi.AdmissionSnapshot

namespace PiWebUi.Admission

open Lib List Option

variable (c : Limits)

/-! ## The attribution -/

structure AdmissionQuarantineSource where
  byRuntime : SessionRuntime → Option ℤ
  oldestAgeMs : Option JsNumber := none

structure AdmissionQuarantine where
  runs : ℤ
  oldestAgeMs : Option JsNumber

def numZ (z : ℤ) : JsNumber := .fin z

/-- `Math.max(0, source.byRuntime[rt] ?? 0)`. -/
def AdmissionQuarantineSource.of (source : AdmissionQuarantineSource) (runtime : SessionRuntime) : ℤ :=
  max 0 ((source.byRuntime runtime).getD 0)

def AdmissionQuarantineSource.total (source : AdmissionQuarantineSource) : ℤ := (RUNTIMES.map source.of).sum

/-- Whether the refusal clears without the leases; the memory is read once more. -/
def clears (s : AdmissionController) (source : AdmissionQuarantineSource) (memory : Option MemoryCapacity)
    (reason : AdmissionRefusalReason) (runtime : SessionRuntime) : Bool :=
  let total := source.total
  let executionFree := (numZ (executionActive s - total)).lt c.executionCapacity
  let runtimeFree := (numZ (s.activeByRuntime runtime - source.of runtime)).lt (c.runtimeLimits runtime)
  match reason with
  | .globalLimit => executionFree && runtimeFree
  | .runtimeLimit => decide (0 < source.of runtime) && runtimeFree
  | .memoryPressure =>
    memory.any fun memory =>
      let highPressure := memory.highBytes.any (·.le memory.currentBytes)
      let headroomBytes := (num 0).max (memory.limitBytes.sub memory.currentBytes)
      let projected :=
        (num 0).max (headroomBytes.sub ((numZ (max 0 (s.activeTurns - total) + 1)).mul c.reservedBytesPerTurn))
      !highPressure && c.minimumHeadroomBytes.le projected && executionFree && runtimeFree
  | _ => false

/-- `none` for the source is no source, or one that throws. -/
def quarantineAttribution (s : AdmissionController) (source : Option AdmissionQuarantineSource) (memory : Option MemoryCapacity)
    (reason : AdmissionRefusalReason) (runtime : SessionRuntime) (cls : AdmissionClass) : Option AdmissionQuarantine :=
  match source with
  | none => none
  | some source =>
    if source.total ≤ 0 ∨ cls ∈ CONTROL_CLASSES then none
    else if clears c s source memory reason runtime then some ⟨source.total, source.oldestAgeMs⟩
    else none

/-- The refusal of an acquire and what it says of quarantined leases; the attribution reads
    the counters after the evaluation, and the same memory. -/
def refusedAcquire (s : AdmissionController) (runtime : SessionRuntime) (cls : AdmissionClass) (t : Telemetry)
    (source : Option AdmissionQuarantineSource) : Option (AdmissionCapacityError × Option AdmissionQuarantine) :=
  match acquire c s runtime cls t with
  | (s, .error (.refused e)) => some (e, quarantineAttribution c s source t.memory e.reason runtime cls)
  | _ => none

/-! ## The state without the leases -/

def releaseAll (s : AdmissionController) (ls : List ℕ) : AdmissionController := ls.foldl release s

/-- The leases of a list that are of a runtime. -/
def ofRuntime (s : AdmissionController) (ls : List ℕ) (runtime : SessionRuntime) : ℕ :=
  ls.countP fun i => (s.leases.held i).any (·.runtime = runtime)

/-- The source counts these leases: each is held, of an execution class, and there once. -/
structure Quarantined (s : AdmissionController) (ls : List ℕ) (source : AdmissionQuarantineSource) : Prop where
  nodup : ls.Nodup
  held : ∀ i ∈ ls, ∃ l, s.leases.held i = some l ∧ l.cls ∉ CONTROL_CLASSES
  counts : ∀ runtime, (source.byRuntime runtime).getD 0 = ofRuntime s ls runtime

/-- The latches and the drain are the same. -/
structure SameLatches (s s' : AdmissionController) : Prop where
  heap : s'.heapLatched = s.heapLatched
  lag : s'.lagLatched = s.lagLatched
  last : s'.lastLag = s.lastLag
  draining : s'.drainingState = s.drainingState

/-- What releasing some leases makes of the counters. -/
structure Without (s : AdmissionController) (n : ℕ) (byRuntime : SessionRuntime → ℕ) (s' : AdmissionController) : Prop where
  turns : s'.activeTurns + n = s.activeTurns
  execution : executionActive s' + n = executionActive s
  runtimes : ∀ runtime, s'.activeByRuntime runtime + byRuntime runtime = s.activeByRuntime runtime
  latches : SameLatches s s'

variable {c}
variable {s s' : AdmissionController} {ls : List ℕ} {source : AdmissionQuarantineSource}

theorem execution_outstanding (h : Accounted s) :
    executionActive s = s.leases.outstanding (fun l => l.cls = .P2) + s.leases.outstanding fun l => l.cls = .P3 := by
  rw [executionActive, h.classes, h.classes]

theorem without_release (h : Accounted s) {i : ℕ} {l : Lease} (hl : s.leases.held i = some l) (hcls : l.cls ∉ CONTROL_CLASSES) :
    Without s 1 (fun runtime => if l.runtime = runtime then 1 else 0) (release s i) := by
  have ha := release_accounted h hl
  have hleases : (release s i).leases = s.leases.release i := by simp [release, hl]
  have hcount : ∀ p, (release s i).leases.outstanding p + (if p l then 1 else 0) = s.leases.outstanding p := by
    intro p
    rw [hleases]
    exact Ledger.outstanding_release hl p
  refine ⟨?_, ?_, fun runtime => ?_, ?_⟩
  · rw [ha.turns, h.turns, ← hcount fun _ => true]
    rfl
  · rw [execution_outstanding ha, execution_outstanding h, ← hcount fun l => l.cls = .P2, ← hcount fun l => l.cls = .P3]
    cases hk : l.cls with
    | P0 | P1 => exact absurd (hk ▸ by decide) hcls
    | P2 | P3 => simp; omega
  · rw [ha.runtimes, h.runtimes, ← hcount fun l => l.runtime = runtime]
    simp
  · simp only [release, hl]
    exact ⟨rfl, rfl, rfl, rfl⟩

/-- By induction on the leases: each is still held when its turn comes. -/
theorem without_releaseAll (h : Accounted s) (hn : ls.Nodup) (hheld : ∀ i ∈ ls, ∃ l, s.leases.held i = some l ∧ l.cls ∉ CONTROL_CLASSES) :
    Without s ls.length (ofRuntime s ls) (releaseAll s ls) := by
  induction ls generalizing s with
  | nil => exact ⟨rfl, rfl, fun _ => rfl, rfl, rfl, rfl, rfl⟩
  | cons i ls ih =>
    obtain ⟨l, hl, hcls⟩ := hheld i mem_cons_self
    obtain ⟨hfresh, hrest⟩ := nodup_cons.mp hn
    have hleases : (release s i).leases = s.leases.release i := by simp [release, hl]
    have hkept : ∀ j ∈ ls, (release s i).leases.held j = s.leases.held j := by
      intro j hj
      rw [hleases]
      exact Ledger.held_release_of_ne fun hij => hfresh (hij ▸ hj)
    have hone := without_release h hl hcls
    have hall := ih (release_accounted h hl) hrest fun j hj => hkept j hj ▸ hheld j (mem_cons_of_mem i hj)
    have hcount : ∀ runtime, ofRuntime (release s i) ls runtime = ofRuntime s ls runtime := by
      intro runtime
      refine countP_congr fun j hj => ?_
      rw [hkept j hj]
    refine ⟨?_, ?_, fun runtime => ?_, ?_⟩
    · rw [← hone.turns, ← hall.turns, length_cons]
      exact (Nat.add_assoc _ _ _).symm
    · rw [← hone.execution, ← hall.execution, length_cons]
      exact (Nat.add_assoc _ _ _).symm
    · have hruntime := hall.runtimes runtime
      rw [hcount] at hruntime
      rw [← hone.runtimes runtime, ← hruntime, ofRuntime, countP_cons, ← ofRuntime, hl]
      simp only [any_some, decide_eq_true_eq]
      exact (Nat.add_assoc _ _ _).symm
    · exact ⟨hall.latches.heap.trans hone.latches.heap, hall.latches.lag.trans hone.latches.lag, hall.latches.last.trans hone.latches.last,
        hall.latches.draining.trans hone.latches.draining⟩

theorem Quarantined.without (h : Accounted s) (hq : Quarantined s ls source) :
    Without s ls.length (ofRuntime s ls) (releaseAll s ls) := without_releaseAll h hq.nodup hq.held

theorem Quarantined.of_eq (hq : Quarantined s ls source) (runtime : SessionRuntime) : source.of runtime = ofRuntime s ls runtime := by
  rw [AdmissionQuarantineSource.of, hq.counts]
  omega

/-- Each lease is of one runtime. -/
theorem sum_ofRuntime (hheld : ∀ i ∈ ls, ∃ l, s.leases.held i = some l ∧ l.cls ∉ CONTROL_CLASSES) :
    (RUNTIMES.map (ofRuntime s ls)).sum = ls.length := by
  induction ls with
  | nil => rfl
  | cons i ls ih =>
    obtain ⟨l, hl, _⟩ := hheld i mem_cons_self
    have hrest := ih fun j hj => hheld j (mem_cons_of_mem i hj)
    have hcons : ofRuntime s (i :: ls) = fun runtime => ofRuntime s ls runtime + if l.runtime = runtime then 1 else 0 := by
      funext runtime
      rw [ofRuntime, countP_cons, ← ofRuntime, hl]
      simp
    have hone : RUNTIMES.count l.runtime = 1 := by cases l.runtime <;> decide
    rw [hcons, sum_map_add, hrest, Ledger.sum_indicator, hone, length_cons]

theorem Quarantined.total_eq (hq : Quarantined s ls source) : source.total = ls.length := by
  have hsum := sum_ofRuntime hq.held
  simp only [RUNTIMES, map_cons, map_nil, sum_cons, sum_nil] at hsum
  simp only [AdmissionQuarantineSource.total, RUNTIMES, hq.of_eq, map_cons, map_nil, sum_cons, sum_nil]
  omega

/-! ## The limits -/

theorem clampReserve_ne_nan {value maxActiveTurns : JsNumber} (hv : value ≠ .nan) (hm : maxActiveTurns.isFinite = true) :
    clampReserve value maxActiveTurns ≠ .nan := by
  have hsub : maxActiveTurns.sub (num 1) ≠ .nan := JsNumber.sub_ne_nan hm (by simp [num])
  exact JsNumber.min_ne_nan (JsNumber.max_ne_nan (by simp [num]) (JsNumber.floor_ne_nan hv)) (JsNumber.max_ne_nan (by simp [num]) hsub)

theorem positiveInteger_ne_nan (value : Option JsNumber) {fallback : JsNumber} (h : fallback ≠ .nan) : positiveInteger value fallback ≠ .nan := by
  cases value with
  | none => exact h
  | some v =>
    simp only [positiveInteger]
    split
    · next hv =>
      rw [Bool.and_eq_true] at hv
      exact JsNumber.floor_ne_nan fun hnan => by simp [hnan, JsNumber.isFinite] at hv
    · exact h

/-- What the gates compare with: reservations and the headroom are natural numbers, the turn
    ceilings are numbers, and the heap mark is not below every reading. -/
structure GateLimits (c : Limits) : Prop where
  bytes : ∃ k, c.reservedBytesPerTurn = num k
  pids : ∃ k, c.reservedPidsPerTurn = num k
  heap : ∃ k, c.reservedHeapBytesPerTurn = num k
  headroom : ∃ k, c.minimumHeadroomBytes = num k
  execution : c.executionCapacity ≠ .nan
  runtimes : ∀ runtime, c.runtimeLimits runtime ≠ .nan
  mark : ∀ limit, (num 0).lt limit = true → (limit.mul c.heapPressureFraction).floor ≠ .negInf

/-- The reserves, when given, are numbers. -/
structure NumericReserves (options : AdmissionControllerOptions) : Prop where
  interactive : options.interactiveReserve ≠ some .nan
  control : options.controlReserve ≠ some .nan

theorem heap_mark {limit f : JsNumber} (hlimit : (num 0).lt limit = true) (hf : f.isFinite = true ∧ (num 0).lt f = true) :
    (limit.mul f).floor ≠ .negInf := by
  cases f with
  | fin q =>
    have hq : (0 : ℚ) < q := by simpa [num, JsNumber.lt] using hf.2
    cases limit with
    | nan | negInf => cases hlimit
    | posInf => simp [JsNumber.mul, hq.ne', JsNumber.isNegative, not_lt.mpr hq.le, JsNumber.floor]
    | fin a =>
      have ha : (0 : ℚ) < a := by simpa [num, JsNumber.lt] using hlimit
      have hround := JsNumber.roundBinary64_nonneg (mul_pos ha hq).le
      show (JsNumber.roundBinary64 (a * q)).floor ≠ .negInf
      cases hr : JsNumber.roundBinary64 (a * q) with
      | negInf =>
        rw [hr] at hround
        cases hround
      | _ => simp [JsNumber.floor]
  | _ => cases hf.1

theorem limits_gates (cpus : ℕ) {options : AdmissionControllerOptions} (h : NumericReserves options) : GateLimits (limits cpus options) := by
  obtain ⟨k, hk⟩ := positiveInteger_natural options.maxActiveTurns (max 2 cpus)
  have hmax : (limits cpus options).maxActiveTurns = num k := hk
  have hfinite : (limits cpus options).maxActiveTurns.isFinite = true := hmax ▸ rfl
  have hinteractive : (limits cpus options).interactiveReserve ≠ .nan := by
    refine clampReserve_ne_nan ?_ hfinite
    cases hi : options.interactiveReserve with
    | none => simp [num]
    | some v => exact fun hnan => h.interactive (hi.trans (congrArg some hnan))
  have hcontrol : (limits cpus options).controlReserve ≠ .nan := by
    refine clampReserve_ne_nan ?_ hfinite
    cases hi : options.controlReserve with
    | none => exact hinteractive
    | some v => exact fun hnan => h.control (hi.trans (congrArg some hnan))
  exact {
    bytes := positiveInteger_natural options.reservedBytesPerTurn DEFAULT_RESERVED_BYTES_PER_TURN
    pids := positiveInteger_natural options.reservedPidsPerTurn DEFAULT_RESERVED_PIDS_PER_TURN
    heap := positiveInteger_natural options.reservedHeapBytesPerTurn DEFAULT_RESERVED_HEAP_BYTES_PER_TURN
    headroom := positiveInteger_natural options.minimumHeadroomBytes DEFAULT_MINIMUM_HEADROOM_BYTES
    execution := JsNumber.max_ne_nan (by simp [num]) (JsNumber.sub_ne_nan hfinite hcontrol)
    runtimes := fun _ => positiveInteger_ne_nan _ (JsNumber.max_ne_nan (by simp [num]) (JsNumber.sub_ne_nan hfinite hinteractive))
    mark := fun _ hlimit => heap_mark hlimit (fraction_positive options.heapPressureFraction DEFAULT_HEAP_PRESSURE_FRACTION (by decide +kernel)) }

/-! ## The gates with fewer leases -/

def projectedHeadroom (c : Limits) (memory : MemoryCapacity) (turns : ℕ) : JsNumber :=
  (num 0).max (((num 0).max (memory.limitBytes.sub memory.currentBytes)).sub ((num (turns + 1)).mul c.reservedBytesPerTurn))

def pidGate (c : Limits) (pids : ResolvedPidsCapacity) (execution : ℕ) : Bool :=
  match pids.max, pids.current with
  | some max, some current => max.le (current.add ((num (execution + 1)).mul c.reservedPidsPerTurn))
  | _, _ => false

def hostGate (c : Limits) (host : ResolvedHostPressure) (execution : ℕ) : Bool :=
  host.memAvailableBytes.any fun available =>
    (available.sub ((num (execution + 1)).mul c.reservedBytesPerTurn)).lt c.hostMinimumHeadroomBytes

/-- What an evaluation answers, gate by gate. -/
structure Gates (c : Limits) (s : AdmissionController) (t : Telemetry) (memory : MemoryCapacity) (pids : ResolvedPidsCapacity)
    (host : ResolvedHostPressure) (p : Pressure) : Prop where
  memory : p.memoryPressure = ((projectedHeadroom c memory s.activeTurns).lt c.minimumHeadroomBytes ||
    memory.highBytes.any (·.le memory.currentBytes))
  pids : p.pidPressure = pidGate c pids (executionActive s)
  host : p.hostPressure.getD false = hostGate c host (executionActive s)
  heap : p.heap.pressure = (evaluateHeap c s t).2.pressure
  lag : p.lagPressure = (!s.lastLag.any (staleAt c t.now) && s.lagLatched)

variable {host : ResolvedHostPressure} {memory : MemoryCapacity} {pids : ResolvedPidsCapacity} {t : Telemetry}
  {n : ℕ}

/-- An evaluation answers when the readers do. -/
theorem evaluatePressure_gates
    (hm : t.memory = some memory) (hp : t.pids = some pids) (hh : t.host = some host) (s : AdmissionController) :
    ∃ p, (evaluatePressure c s t).2 = some p ∧ Gates c s t memory pids host p := by
  have hsame := same_evaluatePressure c s t
  have hturns : (lagState c (evaluateHeap c s t).1 t.now).1.activeTurns = s.activeTurns := hsame.turns
  have hexecution : executionActive (lagState c (evaluateHeap c s t).1 t.now).1 = executionActive s := hsame.execution
  obtain ⟨p, hpressure⟩ : ∃ p, (evaluatePressure c s t).2 = some p := by
    simp [evaluatePressure, hm, hp, hh]
  refine ⟨p, hpressure, ?_⟩
  have hlag := evaluatePressure_lag hpressure
  simp only [evaluatePressure, hm, hp, hh, hturns, hexecution, bind_eq_bind, bind_some, some.injEq] at hpressure
  subst hpressure
  refine ⟨rfl, rfl, ?_, rfl, hlag⟩
  simp only [hostGate]
  cases host.memAvailableBytes <;> rfl

theorem evaluatePressure_reads {p : Pressure} (h : (evaluatePressure c s t).2 = some p) :
    ∃ memory pids host, t.memory = some memory ∧ t.pids = some pids ∧ t.host = some host ∧ Gates c s t memory pids host p := by
  have hcopy := h
  simp only [evaluatePressure, bind_eq_bind, bind_eq_some_iff] at hcopy
  obtain ⟨memory, hm, pids, hp, host, hh, _⟩ := hcopy
  obtain ⟨p', hp', hgates⟩ := evaluatePressure_gates hm hp hh s
  rw [h] at hp'
  exact ⟨memory, pids, host, hm, hp, hh, some.inj hp' ▸ hgates⟩

/-- A task count is not `-Infinity`. -/
def Counted (t : Telemetry) : Prop := ∀ pids, t.pids = some pids → pids.current ≠ some .negInf

theorem memory_mono (hc : GateLimits c) {m : ℕ} (hle : m ≤ n)
    (h : (projectedHeadroom c memory n).lt c.minimumHeadroomBytes = false) : (projectedHeadroom c memory m).lt c.minimumHeadroomBytes = false := by
  obtain ⟨k, hk⟩ := hc.bytes
  simp only [projectedHeadroom, hk, num, Nat.cast_zero] at h ⊢
  exact JsNumber.max_sub_not_lt (JsNumber.mul_nat_mono (by omega)) h

theorem host_mono (hc : GateLimits c) {m : ℕ} (hle : m ≤ n) (h : hostGate c host n = false) : hostGate c host m = false := by
  obtain ⟨k, hk⟩ := hc.bytes
  simp only [hostGate, hk, num] at h ⊢
  cases ha : host.memAvailableBytes with
  | none => rfl
  | some available =>
    rw [ha, any_some] at h
    exact JsNumber.sub_not_lt (JsNumber.mul_nat_mono (by omega)) h

theorem pid_mono (hc : GateLimits c) (hcurrent : pids.current ≠ some .negInf) {m : ℕ} (hle : m ≤ n)
    (h : pidGate c pids n = false) : pidGate c pids m = false := by
  obtain ⟨k, hk⟩ := hc.pids
  simp only [pidGate, hk, num] at h ⊢
  cases hmax : pids.max with
  | none => rfl
  | some max =>
    cases hcur : pids.current with
    | none => rfl
    | some current =>
      simp only [hmax, hcur] at h ⊢
      exact JsNumber.add_not_le (.inl fun hneg => hcurrent (hcur.trans (congrArg some hneg))) (JsNumber.mul_nat_nonneg _ _)
        (JsNumber.mul_nat_mono (by omega)) h

theorem heap_mono (hc : GateLimits c) (hlatch : s'.heapLatched = s.heapLatched)
    (hle : executionActive s' ≤ executionActive s) (h : (evaluateHeap c s t).2.pressure = false) :
    (evaluateHeap c s' t).2.pressure = false := by
  obtain ⟨k, hk⟩ := hc.heap
  simp only [evaluateHeap, hlatch, hk] at h ⊢
  generalize hlimit : (if (num 0).lt (t.heap.getD ⟨num 0, num 0⟩).limitBytes then (t.heap.getD ⟨num 0, num 0⟩).limitBytes else num 0) = limit at *
  by_cases h0 : limit = num 0
  · rw [if_pos h0]
  have hpos : (num 0).lt limit = true := by
    split at hlimit
    · next hlt => exact hlimit ▸ hlt
    · exact absurd hlimit.symm h0
  have hmark := hc.mark limit hpos
  rw [if_neg h0] at h ⊢
  generalize t.overrideHeapUsedBytes.getD (t.heap.getD ⟨num 0, num 0⟩).usedBytes = used at *
  generalize (limit.mul c.heapPressureFraction).floor = pressure at *
  generalize (limit.mul c.heapRecoveryFraction).floor = recovery at *
  have hmore : ((num (executionActive s' + 1)).mul (num k)).le ((num (executionActive s + 1)).mul (num k)) = true :=
    JsNumber.mul_nat_mono (by omega)
  have hnonneg : (JsNumber.fin 0).le ((num (executionActive s' + 1)).mul (num k)) = true := JsNumber.mul_nat_nonneg _ _
  cases hl : s.heapLatched with
  | false =>
    -- an open latch stays open below the pressure mark
    simp only [hl, Bool.not_false, Bool.true_and, Bool.false_and, Bool.false_eq_true, if_false] at h ⊢
    have hbelow : pressure.le (used.add ((num (executionActive s + 1)).mul (num k))) = false := by simpa using h
    rw [if_neg (by simp [JsNumber.add_not_le (.inr hmark) hnonneg hmore hbelow])]
  | true =>
    simp only [hl, Bool.not_true, Bool.false_and, Bool.true_and, Bool.false_eq_true, if_false] at h ⊢
    have hbelow : (used.add ((num (executionActive s + 1)).mul (num k))).lt recovery = true := by simpa using h
    rw [if_pos (JsNumber.add_lt hnonneg hmore hbelow)]

/-- Gates that are open stay open with fewer leases. -/
theorem gates_mono (hc : GateLimits c) {byRuntime : SessionRuntime → ℕ} (hw : Without s n byRuntime s')
    (hcurrent : pids.current ≠ some .negInf)
    {p p' : Pressure} (hp : Gates c s t memory pids host p) (hp' : Gates c s' t memory pids host p') :
    (p.memoryPressure = false → p'.memoryPressure = false) ∧ (p.hostPressure.getD false = false → p'.hostPressure.getD false = false) ∧
      (p.pidPressure = false → p'.pidPressure = false) ∧ (p.heap.pressure = false → p'.heap.pressure = false) ∧
      p'.lagPressure = p.lagPressure := by
  have hturns : s'.activeTurns ≤ s.activeTurns := hw.turns ▸ Nat.le_add_right _ _
  have hexecution : executionActive s' ≤ executionActive s := hw.execution ▸ Nat.le_add_right _ _
  refine ⟨fun h => ?_, fun h => ?_, fun h => ?_, fun h => ?_, ?_⟩
  · rw [hp.memory, Bool.or_eq_false_iff] at h
    rw [hp'.memory, Bool.or_eq_false_iff]
    exact ⟨memory_mono hc hturns h.1, h.2⟩
  · rw [hp.host] at h
    rw [hp'.host]
    exact host_mono hc hexecution h
  · rw [hp.pids] at h
    rw [hp'.pids]
    exact pid_mono hc hcurrent hexecution h
  · rw [hp.heap] at h
    rw [hp'.heap]
    exact heap_mono hc hw.latches.heap hexecution h
  · rw [hp.lag, hp'.lag, hw.latches.last, hw.latches.lag]

/-! ## What an execution acquire answers -/

variable {runtime : SessionRuntime} {cls : AdmissionClass} {p : Pressure}

/-- Everything but the slots lets an execution acquire through. -/
structure Open (s : AdmissionController) (p : Pressure) : Prop where
  draining : s.drainingState = none
  memory : p.memoryPressure = false
  host : p.hostPressure.getD false = false
  pids : p.pidPressure = false
  heap : p.heap.pressure = false
  lag : p.lagPressure = false

/-- The slots an execution acquire needs are free. -/
def SlotsFree (c : Limits) (s : AdmissionController) (runtime : SessionRuntime) : Bool :=
  (num (executionActive s)).lt c.executionCapacity && (num (s.activeByRuntime runtime)).lt (c.runtimeLimits runtime)

theorem refusalReason_open (hc : GateLimits c) (hcls : cls ∉ CONTROL_CLASSES) :
    refusalReason c s runtime cls p = none ↔ Open s p ∧ SlotsFree c s runtime = true := by
  have hexecution : c.executionCapacity.le (num (executionActive s)) = !(num (executionActive s)).lt c.executionCapacity :=
    JsNumber.le_eq_not_lt hc.execution _
  have hruntime : (c.runtimeLimits runtime).le (num (s.activeByRuntime runtime)) =
      !(num (s.activeByRuntime runtime)).lt (c.runtimeLimits runtime) := JsNumber.le_eq_not_lt (hc.runtimes runtime) _
  rw [refusalReason, if_neg hcls]
  simp only [ite_some_eq_none, SlotsFree, hexecution, hruntime, Bool.not_eq_false', Bool.and_eq_true, and_true, isSome_eq_false_iff,
    isNone_iff_eq_none]
  constructor
  · rintro ⟨hd, hm, hh, hp, hheap, hlag, hslots⟩
    exact ⟨⟨hd, hm, hh, hp, hheap, hlag⟩, hslots⟩
  · rintro ⟨ho, hslots⟩
    exact ⟨ho.draining, ho.memory, ho.host, ho.pids, ho.heap, ho.lag, hslots⟩

/-- What each reason the attribution looks at says of the gates. -/
theorem refusalReason_some (hcls : cls ∉ CONTROL_CLASSES) {reason : AdmissionRefusalReason}
    (h : refusalReason c s runtime cls p = some reason) :
    (reason = .memoryPressure ∧ s.drainingState = none ∧ p.memoryPressure = true) ∨ (reason = .globalLimit ∧ Open s p) ∨
    (reason = .runtimeLimit ∧ Open s p ∧ c.executionCapacity.le (num (executionActive s)) = false ∧
      (c.runtimeLimits runtime).le (num (s.activeByRuntime runtime)) = true) ∨
    reason ∉ ([.globalLimit, .runtimeLimit, .memoryPressure] : List AdmissionRefusalReason) := by
  rw [refusalReason, if_neg hcls] at h
  split_ifs at h with hd hm hh hp hheap hlag he hr <;> cases h
  all_goals try (right; right; right; decide)
  · exact .inl ⟨rfl, by simpa using hd, hm⟩
  · refine .inr (.inl ⟨rfl, by simpa using hd, ?_, ?_, ?_, ?_, ?_⟩) <;> simp_all
  · refine .inr (.inr (.inl ⟨rfl, ⟨by simpa using hd, ?_, ?_, ?_, ?_, ?_⟩, ?_, hr⟩)) <;> simp_all

/-- The acquire is granted. -/
def Admits (c : Limits) (s : AdmissionController) (runtime : SessionRuntime) (cls : AdmissionClass) (t : Telemetry) : Prop :=
  ∃ i, (acquire c s runtime cls t).2 = .ok i

theorem draining_evaluatePressure (s : AdmissionController) (t : Telemetry) : (evaluatePressure c s t).1.drainingState = s.drainingState := by
  rw [evaluatePressure_fst, lagState_fst]
  split <;> rfl

theorem SlotsFree.congr (h : SameTurns s s') : SlotsFree c s' runtime = SlotsFree c s runtime := by
  rw [SlotsFree, SlotsFree, h.execution, h.runtimes]

/-- With the readers answering, an execution acquire is granted when every gate is open. -/
theorem admits_iff (hc : GateLimits c) (hcls : cls ∉ CONTROL_CLASSES) (hp : (evaluatePressure c s t).2 = some p) :
    Admits c s runtime cls t ↔ Open s p ∧ SlotsFree c s runtime = true := by
  have hadmits : Admits c s runtime cls t ↔ refusalReason c (evaluatePressure c s t).1 runtime cls p = none := by
    have hpair : evaluatePressure c s t = ((evaluatePressure c s t).1, some p) := Prod.ext rfl hp
    rw [Admits, acquire, hpair]
    cases hr : refusalReason c (evaluatePressure c s t).1 runtime cls p <;> simp [hr]
  rw [hadmits, refusalReason_open hc hcls, SlotsFree.congr (same_evaluatePressure c s t)]
  have hdraining := draining_evaluatePressure (c := c) s t
  constructor
  · rintro ⟨ho, hslots⟩
    exact ⟨⟨hdraining ▸ ho.draining, ho.memory, ho.host, ho.pids, ho.heap, ho.lag⟩, hslots⟩
  · rintro ⟨ho, hslots⟩
    exact ⟨⟨hdraining.trans ho.draining, ho.memory, ho.host, ho.pids, ho.heap, ho.lag⟩, hslots⟩

/-! ## The attribution is that of the state without the leases -/

theorem numZ_sub {a b : ℕ} (h : b + n = a) : numZ ((a : ℤ) - n) = num b := by
  rw [numZ, num, show (a : ℤ) - n = (b : ℤ) by omega, Int.cast_natCast]

theorem clears_eq (hq : Quarantined s ls source) (hw : Without s ls.length (ofRuntime s ls) s') (memory : Option MemoryCapacity)
    (reason : AdmissionRefusalReason) : clears c s source memory reason runtime = match reason with
      | .globalLimit => SlotsFree c s' runtime
      | .runtimeLimit => decide (0 < ofRuntime s ls runtime) && (num (s'.activeByRuntime runtime)).lt (c.runtimeLimits runtime)
      | .memoryPressure =>
        memory.any fun memory => !memory.highBytes.any (·.le memory.currentBytes) &&
          c.minimumHeadroomBytes.le (projectedHeadroom c memory s'.activeTurns) && SlotsFree c s' runtime
      | _ => false := by
  have hturns : numZ (max 0 ((s.activeTurns : ℤ) - ls.length) + 1) = num (s'.activeTurns + 1) := by
    have hsum := hw.turns
    rw [numZ, num, show max 0 ((s.activeTurns : ℤ) - ls.length) + 1 = ((s'.activeTurns + 1 : ℕ) : ℤ) by omega, Int.cast_natCast]
  cases reason <;>
    simp only [clears, hq.total_eq, hq.of_eq, numZ_sub hw.execution, numZ_sub (hw.runtimes runtime), hturns, SlotsFree, projectedHeadroom,
      Bool.and_assoc, Nat.cast_pos]

theorem attribution_iff (hq : Quarantined s ls source) (hcls : cls ∉ CONTROL_CLASSES) (memory : Option MemoryCapacity)
    (reason : AdmissionRefusalReason) : ((quarantineAttribution c s (some source) memory reason runtime cls).isSome = true ↔
      ls ≠ [] ∧ clears c s source memory reason runtime = true) ∧
    ∀ d, quarantineAttribution c s (some source) memory reason runtime cls = some d → d.runs = ls.length := by
  have hpos : source.total ≤ 0 ↔ ls = [] := by
    rw [hq.total_eq, ← length_eq_zero_iff]
    omega
  simp only [quarantineAttribution, hpos, hcls, or_false]
  by_cases hnil : ls = []
  · simp [hnil]
  · cases hclears : clears c s source memory reason runtime with
    | true => simpa [hnil] using hq.total_eq
    | false => simp [hnil]

theorem attribution_congr (h : SameTurns s s') (source : Option AdmissionQuarantineSource) (memory : Option MemoryCapacity)
    (reason : AdmissionRefusalReason) (runtime : SessionRuntime) (cls : AdmissionClass) :
    quarantineAttribution c s' source memory reason runtime cls = quarantineAttribution c s source memory reason runtime cls := by
  cases source with
  | none => rfl
  | some source =>
    have hclears : clears c s' source memory reason runtime = clears c s source memory reason runtime := by
      simp only [clears, h.execution, h.runtimes, h.turns]
    simp only [quarantineAttribution, hclears]

theorem refusedAcquire_reads {e : AdmissionCapacityError} {debt : Option AdmissionQuarantine}
    (h : refusedAcquire c s runtime cls t (some source) = some (e, debt)) : ∃ p, (evaluatePressure c s t).2 = some p ∧
      refusalReason c (evaluatePressure c s t).1 runtime cls p = some e.reason ∧
      debt = quarantineAttribution c s (some source) t.memory e.reason runtime cls := by
  have hsame := same_evaluatePressure c s t
  cases hp : (evaluatePressure c s t).2 with
  | none =>
    have hpair : evaluatePressure c s t = ((evaluatePressure c s t).1, none) := Prod.ext rfl hp
    rw [refusedAcquire, acquire, hpair] at h
    cases h
  | some p =>
    have hpair : evaluatePressure c s t = ((evaluatePressure c s t).1, some p) := Prod.ext rfl hp
    rw [refusedAcquire, acquire, hpair] at h
    cases hr : refusalReason c (evaluatePressure c s t).1 runtime cls p with
    | none => simp [hr] at h
    | some reason =>
      simp only [hr, some.injEq, Prod.mk.injEq] at h
      obtain ⟨rfl, rfl⟩ := h
      exact ⟨p, rfl, hr, attribution_congr hsame _ _ _ _ _⟩

/-- A headroom that is below the minimum is a number, and so is the one with fewer turns. -/
theorem projectedHeadroom_ne_nan (hc : GateLimits c)
    (h : (projectedHeadroom c memory n).lt c.minimumHeadroomBytes = true) (m : ℕ) : projectedHeadroom c memory m ≠ .nan := by
  obtain ⟨k, hk⟩ := hc.bytes
  obtain ⟨minimum, hminimum⟩ := hc.headroom
  have hreserved : ∀ i : ℕ, (num (i + 1)).mul (num k) ≠ .nan := fun i => JsNumber.roundBinary64_ne_nan _
  simp only [projectedHeadroom, hk, hminimum] at h ⊢
  generalize (num 0).max (memory.limitBytes.sub memory.currentBytes) = headroom at *
  refine JsNumber.max_ne_nan (by simp [num]) ?_
  cases headroom with
  | nan => simp [JsNumber.sub, num, JsNumber.max, JsNumber.lt] at h
  | posInf =>
    -- an unlimited headroom is not below a number
    exfalso
    generalize (num (n + 1)).mul (num k) = reserved at h
    cases reserved <;> simp [JsNumber.sub, num, JsNumber.max, JsNumber.lt] at h
  | negInf =>
    have hnonneg : (JsNumber.fin 0).le ((num (m + 1)).mul (num k)) = true := JsNumber.mul_nat_nonneg _ _
    cases hr : (num (m + 1)).mul (num k) with
    | nan => exact absurd hr (hreserved m)
    | negInf =>
      rw [hr] at hnonneg
      cases hnonneg
    | _ => simp [JsNumber.sub]
  | fin a => exact JsNumber.sub_ne_nan rfl (hreserved m)

/-- The host, PID, heap and lag gates are open when the acquire is evaluated. -/
def GatesOpen (c : Limits) (s : AdmissionController) (t : Telemetry) : Prop :=
  ∃ p, (evaluatePressure c s t).2 = some p ∧ p.hostPressure.getD false = false ∧ p.pidPressure = false ∧ p.heap.pressure = false ∧
    p.lagPressure = false

/-- A refused execution acquire is attributed to the quarantined leases exactly when it was
    refused for turn slots or memory, there is one, and without them the same acquire would be
    admitted; a memory refusal whose other gates stay shut without them is left out. -/
theorem quarantine_attribution (cpus : ℕ) {options : AdmissionControllerOptions} (hreserves : NumericReserves options) (es : List Event)
    (hq : Quarantined (es.foldl (step (limits cpus options)) init) ls source) (hcls : cls ∉ CONTROL_CLASSES) {t : Telemetry}
    (hcounted : Counted t) {e : AdmissionCapacityError} {debt : Option AdmissionQuarantine}
    (hrefused : refusedAcquire (limits cpus options) (es.foldl (step (limits cpus options)) init) runtime cls t (some source) = some (e, debt))
    (hgates : e.reason = .memoryPressure →
      GatesOpen (limits cpus options) (releaseAll (es.foldl (step (limits cpus options)) init) ls) t) :
    (debt.isSome = true ↔ e.reason ∈ ([.globalLimit, .runtimeLimit, .memoryPressure] : List AdmissionRefusalReason) ∧ ls ≠ [] ∧
      Admits (limits cpus options) (releaseAll (es.foldl (step (limits cpus options)) init) ls) runtime cls t) ∧
    ∀ d, debt = some d → d.runs = ls.length := by
  have hc := limits_gates cpus hreserves
  generalize limits cpus options = c at *
  have ha := accounted c es
  generalize es.foldl (step c) init = s at *
  have hw := hq.without ha
  generalize releaseAll s ls = s' at *
  obtain ⟨p, hp, hreason, rfl⟩ := refusedAcquire_reads hrefused
  obtain ⟨memory, pids, host, hm, hpids, hhost, hreads⟩ := evaluatePressure_reads hp
  obtain ⟨p', hp', hreads'⟩ := evaluatePressure_gates hm hpids hhost s'
  obtain ⟨hmemory, hhost', hpids', hheap, hlag⟩ := gates_mono hc hw (hcounted pids hpids) hreads hreads'
  have hdraining := draining_evaluatePressure (c := c) s t
  have hsame := same_evaluatePressure c s t
  refine ⟨?_, (attribution_iff hq hcls t.memory e.reason).2⟩
  rw [(attribution_iff hq hcls t.memory e.reason).1, clears_eq hq hw, admits_iff hc hcls hp']
  -- every gate that was open is open without the leases
  have hopen : Open (evaluatePressure c s t).1 p → Open s' p' := fun ho =>
    ⟨hw.latches.draining.trans (hdraining ▸ ho.draining), hmemory ho.memory, hhost' ho.host, hpids' ho.pids, hheap ho.heap, hlag.trans ho.lag⟩
  have hslots : ∀ {x : JsNumber} {n : ℕ}, x ≠ .nan → x.le (num n) = !(num n).lt x := fun hx => JsNumber.le_eq_not_lt hx _
  rcases refusalReason_some hcls hreason with ⟨hr, hd, hpressed⟩ | ⟨hr, ho⟩ | ⟨hr, ho, hcapacity, hlimit⟩ | hr
  · obtain ⟨p'', hp'', hgate⟩ := hgates hr
    rw [hp'] at hp''
    obtain rfl := some.inj hp''
    obtain ⟨minimum, hminimum⟩ := hc.headroom
    have hd' : s'.drainingState = none := hw.latches.draining.trans (hdraining ▸ hd)
    have hmemory' : Open s' p' ↔ (!memory.highBytes.any (·.le memory.currentBytes) &&
        c.minimumHeadroomBytes.le (projectedHeadroom c memory s'.activeTurns)) = true := by
      have hiff : Open s' p' ↔ p'.memoryPressure = false :=
        ⟨fun ho => ho.memory, fun h => ⟨hd', h, hgate.1, hgate.2.1, hgate.2.2.1, hgate.2.2.2⟩⟩
      rw [hiff, hreads'.memory, Bool.or_eq_false_iff, Bool.and_eq_true, Bool.not_eq_true']
      rw [hreads.memory] at hpressed
      cases hhigh : memory.highBytes.any (·.le memory.currentBytes) with
      | true => simp
      | false =>
        have hbelow : (projectedHeadroom c memory s.activeTurns).lt c.minimumHeadroomBytes = true := by simpa [hhigh] using hpressed
        have hnumber := projectedHeadroom_ne_nan hc hbelow s'.activeTurns
        rw [hminimum, num, JsNumber.fin_le_eq_not_lt hnumber]
        simp
    rw [hr, hm, hmemory']
    simp
  · rw [hr]
    simp [hopen ho]
  · have hle : (num (executionActive s')).le (num (executionActive s)) = true := by
      rw [le_num, decide_eq_true_iff, ← hw.execution]
      exact Nat.le_add_right _ _
    rw [hsame.execution, hslots hc.execution] at hcapacity
    have hfree := JsNumber.lt_of_le_of_lt hle (by simpa using hcapacity)
    rw [hsame.runtimes, hslots (hc.runtimes runtime)] at hlimit
    -- a runtime slot becomes free only by a lease of the runtime
    have hof : (num (s'.activeByRuntime runtime)).lt (c.runtimeLimits runtime) = true → 0 < ofRuntime s ls runtime := by
      intro hlt
      by_contra hzero
      have hsum := hw.runtimes runtime
      rw [Nat.eq_zero_of_not_pos hzero, Nat.add_zero] at hsum
      rw [← hsum, hlt] at hlimit
      cases hlimit
    rw [hr]
    simp only [SlotsFree, hfree, hopen ho, Bool.true_and, Bool.and_eq_true, decide_eq_true_eq]
    constructor
    · rintro ⟨hne, _, hlt⟩
      exact ⟨by decide, hne, trivial, hlt⟩
    · rintro ⟨_, hne, _, hlt⟩
      exact ⟨hne, hof hlt, hlt⟩
  · cases hreason' : e.reason <;> simp_all

/-! ## One quarantined lease -/

def twoTurnLimits : Limits := limits 4 { maxActiveTurns := some (num 2) }

/-- Telemetry at time zero with a headroom and a task count under a task limit of 200. -/
def telemetry (headroom tasks : ℕ) : Telemetry where
  now := num 0
  heap := none
  memory := some ⟨num 0, num headroom, none⟩
  pids := some { current := some (num tasks), max := some (num 200) }
  host := some {}

def gib : ℕ := 1024 * 1024 * 1024

def oneHeld : List Event := [.acquire .pi .P2 (telemetry (8 * gib) 0)]

def oneQuarantined : AdmissionQuarantineSource where
  byRuntime
    | .pi => some 1
    | _ => none

theorem quarantined_one : Quarantined (oneHeld.foldl (step twoTurnLimits) init) [0] oneQuarantined := by
  refine ⟨by simp, fun i hi => ?_, fun runtime => ?_⟩
  · have hheld : ((oneHeld.foldl (step twoTurnLimits) init).leases.held 0).any (fun l => decide (l.cls ∉ CONTROL_CLASSES)) = true := by
      decide +kernel
    rw [mem_singleton.mp hi]
    obtain ⟨l, hl, hcls⟩ := (any_eq_true _ _).mp hheld
    exact ⟨l, hl, by simpa using hcls⟩
  · cases runtime <;> decide +kernel

/-- What the attribution says of the next acquire, and whether it is granted without the lease. -/
def answer (t : Telemetry) : Option (AdmissionRefusalReason × Bool) × Bool :=
  ((refusedAcquire twoTurnLimits (oneHeld.foldl (step twoTurnLimits) init) .pi .P2 t (some oneQuarantined)).map fun r => (r.1.reason, r.2.isSome),
    (acquire twoTurnLimits (releaseAll (oneHeld.foldl (step twoTurnLimits) init) [0]) .pi .P2 t).2.isOk)

theorem admits_isOk : Admits c s runtime cls t ↔ (acquire c s runtime cls t).2.isOk = true := by
  rw [Admits]
  cases (acquire c s runtime cls t).2 <;> simp [Except.isOk, Except.toBool]

/-- The one execution slot is taken by the quarantined lease. -/
theorem slot_attributed : ∃ e debt,
    refusedAcquire twoTurnLimits (oneHeld.foldl (step twoTurnLimits) init) .pi .P2 (telemetry (8 * gib) 0) (some oneQuarantined) = some (e, debt) ∧
    (debt.isSome = true ↔ e.reason ∈ ([.globalLimit, .runtimeLimit, .memoryPressure] : List AdmissionRefusalReason) ∧ [0] ≠ [] ∧
      Admits twoTurnLimits (releaseAll (oneHeld.foldl (step twoTurnLimits) init) [0]) .pi .P2 (telemetry (8 * gib) 0)) := by
  have hanswer : (answer (telemetry (8 * gib) 0)).1.map Prod.fst = some .globalLimit := by decide +kernel
  simp only [answer, Option.map_map, map_eq_some_iff] at hanswer
  obtain ⟨⟨e, debt⟩, hrefused, hreason⟩ := hanswer
  have hreason : e.reason = .globalLimit := hreason
  refine ⟨e, debt, hrefused, ?_⟩
  have hcounted : Counted (telemetry (8 * gib) 0) := by
    rintro pids hpids
    obtain rfl := some.inj hpids
    simp [num]
  exact (quarantine_attribution 4 ⟨by simp, by simp⟩ oneHeld quarantined_one (by decide) hcounted hrefused
    fun h => absurd (hreason.symm.trans h) (by decide)).1

/-- The statement without the restriction to a reason and to the other gates. -/
def Exact (t : Telemetry) : Prop := ∀ e debt,
  refusedAcquire twoTurnLimits (oneHeld.foldl (step twoTurnLimits) init) .pi .P2 t (some oneQuarantined) = some (e, debt) →
    (debt.isSome = true ↔ Admits twoTurnLimits (releaseAll (oneHeld.foldl (step twoTurnLimits) init) [0]) .pi .P2 t)

theorem not_exact_of_answer {reason : AdmissionRefusalReason} {attributed : Bool}
    (h : answer t = (some (reason, attributed), !attributed)) : ¬ Exact t := by
  intro hexact
  obtain ⟨hfirst, hsecond⟩ := Prod.mk.inj h
  obtain ⟨⟨e, debt⟩, hrefused, hpair⟩ := map_eq_some_iff.mp hfirst
  have hdebt : debt.isSome = attributed := (Prod.mk.inj hpair).2
  have hiff := hexact e debt hrefused
  rw [admits_isOk, hsecond, hdebt] at hiff
  cases attributed <;> simp at hiff

/-- A PID refusal that clears with the quarantined lease returned is not attributed to it; a
    memory refusal is, though the PID gate would refuse the acquire instead. -/
theorem attribution_not_exact : Quarantined (oneHeld.foldl (step twoTurnLimits) init) [0] oneQuarantined ∧
    ¬ Exact (telemetry (8 * gib) 50) ∧ ¬ Exact (telemetry (gib + gib / 4) 150) := by
  have hpid : answer (telemetry (8 * gib) 50) = (some (.pidPressure, false), true) := by decide +kernel
  have hmemory : answer (telemetry (gib + gib / 4) 150) = (some (.memoryPressure, true), false) := by decide +kernel
  exact ⟨quarantined_one, not_exact_of_answer hpid, not_exact_of_answer hmemory⟩

end PiWebUi.Admission
