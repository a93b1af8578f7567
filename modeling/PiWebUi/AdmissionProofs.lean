/-
  PiWebUi.AdmissionProofs — what the admission counters say over whole runs.

  Over every run of acquires, releases, lag readings, drains and snapshots:
  - `accounted`: each counter is the number of leases of its kind still held, so the
    runtimes and the classes each add up to `activeTurns`.
  - `execution_bounded`: the execution classes stay within `executionCapacity`.
  - `turns_accounted`: `activeTurns` stays within `maxActiveTurns` as well, provided no
    execution acquire meets free execution and runtime slots with every turn taken.
    The control path checks that ceiling; the execution path does not, and
    `control_then_execution` passes it: two browser turns and one API turn under a
    ceiling of two.
-/

import PiWebUi.Admission
import PiWebUi.Lib.Run

namespace PiWebUi.Admission

open Lib

/-! ## Resolved numbers -/

theorem whole_positiveInteger (value : Option JsNumber) {fallback : JsNumber} (h : fallback.Whole) :
    (positiveInteger value fallback).Whole := by
  cases value with
  | none => exact h
  | some v => exact JsNumber.whole_ite _ (JsNumber.whole_floor v) h

theorem whole_clampReserve (value : JsNumber) {maxActiveTurns : JsNumber} (h : maxActiveTurns.Whole) :
    (clampReserve value maxActiveTurns).Whole :=
  JsNumber.whole_min (JsNumber.whole_max (JsNumber.whole_nat 0) (JsNumber.whole_floor value))
    (JsNumber.whole_max (JsNumber.whole_nat 0) (JsNumber.whole_sub h (JsNumber.whole_nat 1)))

theorem positiveInteger_nonneg (value : Option JsNumber) {fallback : JsNumber} (h : fallback.lt (num 0) = false) :
    (positiveInteger value fallback).lt (num 0) = false := by
  cases value with
  | none => exact h
  | some v =>
    simp only [positiveInteger]
    split
    · next hv =>
      rw [Bool.and_eq_true] at hv
      cases v with
      | fin q =>
        have hq : (0 : ℚ) < q := by simpa [num, JsNumber.lt] using hv.2
        have : (0 : ℤ) ≤ ⌊q⌋ := Int.floor_nonneg.mpr hq.le
        simpa [num, JsNumber.floor, JsNumber.lt] using this
      | _ => exact absurd hv.1 (by simp [JsNumber.isFinite])
    · exact h

/-- What the run lemmas need of a resolved configuration: both ceilings are whole, and
    neither is below zero. -/
structure Sound (c : Limits) : Prop where
  wholeTurns : c.maxActiveTurns.Whole
  wholeExecution : c.executionCapacity.Whole
  turnsNonneg : c.maxActiveTurns.lt (num 0) = false
  executionNonneg : c.executionCapacity.lt (num 0) = false

theorem limits_sound (cpus : ℕ) (options : AdmissionControllerOptions) : Sound (limits cpus options) := by
  have hmax : (limits cpus options).maxActiveTurns.Whole :=
    whole_positiveInteger _ (JsNumber.whole_nat (max 2 cpus))
  refine ⟨hmax, ?_, ?_, JsNumber.not_max_lt _ _⟩
  · exact JsNumber.whole_max (JsNumber.whole_nat 0) (JsNumber.whole_sub hmax (whole_clampReserve _ hmax))
  · exact positiveInteger_nonneg _ (by simp [num, JsNumber.lt])

/-! ## What a step does to the counters -/

/-- The counters and the leases are the same; the latches may differ. -/
structure SameTurns (s s' : AdmissionController) : Prop where
  turns : s'.activeTurns = s.activeTurns
  runtimes : s'.activeByRuntime = s.activeByRuntime
  classes : s'.activeByClass = s.activeByClass
  leases : s'.leases = s.leases

theorem SameTurns.refl (s : AdmissionController) : SameTurns s s := ⟨rfl, rfl, rfl, rfl⟩

variable {s s' : AdmissionController}

theorem SameTurns.trans {s'' : AdmissionController} (h : SameTurns s s') (h' : SameTurns s' s'') : SameTurns s s'' :=
  ⟨h'.turns.trans h.turns, h'.runtimes.trans h.runtimes, h'.classes.trans h.classes, h'.leases.trans h.leases⟩

theorem same_resetLag (b : Bool) (s : AdmissionController) : SameTurns s (if b then resetLag s else s) := by
  cases b <;> exact ⟨rfl, rfl, rfl, rfl⟩

variable (c : Limits)

theorem same_evaluatePressure (s : AdmissionController) (t : Telemetry) : SameTurns s (evaluatePressure c s t).1 := by
  have hheap : SameTurns s (evaluateHeap c s t).1 := ⟨rfl, rfl, rfl, rfl⟩
  exact hheap.trans (same_resetLag _ _)

theorem same_observeLagReading (s : AdmissionController) (reading : LagReading) (override : Option JsNumber) :
    SameTurns s (observeLagReading c s reading override) := by
  unfold observeLagReading
  split
  · exact .refl s
  dsimp only
  split
  · exact .refl s
  exact (same_resetLag (s.lastLag.any fun last => c.lagReadingStaleMs.lt (reading.atMs.sub last.2)) s).trans
    ⟨rfl, rfl, rfl, rfl⟩

theorem same_assertCreateAdmissible (s : AdmissionController) (runtime : SessionRuntime) (cls : AdmissionClass)
    (t : Telemetry) : SameTurns s (assertCreateAdmissible c s runtime cls t).1 := by
  have h := same_evaluatePressure c s t
  simp only [assertCreateAdmissible]
  split
  · exact h
  split <;> exact h

theorem ite_some_eq_none {α : Type} {b : Bool} {a : α} {x : Option α} :
    (if b then some a else x) = none ↔ b = false ∧ x = none := by
  cases b <;> simp

/-- A granted acquire passed the checks of its class on the counters it found. -/
theorem refusalReason_none {runtime : SessionRuntime} {cls : AdmissionClass} {p : Pressure}
    (h : refusalReason c s runtime cls p = none) : (cls ∈ CONTROL_CLASSES ∧ c.maxActiveTurns.le (num s.activeTurns) = false) ∨
      (cls ∉ CONTROL_CLASSES ∧ c.executionCapacity.le (num (executionActive s)) = false ∧
        (c.runtimeLimits runtime).le (num (s.activeByRuntime runtime)) = false) := by
  unfold refusalReason at h
  by_cases hc : cls ∈ CONTROL_CLASSES
  · rw [if_pos hc] at h
    simp only [ite_some_eq_none] at h
    exact .inl ⟨hc, h.2.1⟩
  · rw [if_neg hc] at h
    simp only [ite_some_eq_none] at h
    obtain ⟨-, -, -, -, -, -, hcap, hrt, -⟩ := h
    exact .inr ⟨hc, hcap, hrt⟩

theorem acquire_cases (s : AdmissionController) (runtime : SessionRuntime) (cls : AdmissionClass) (t : Telemetry) :
    SameTurns s (acquire c s runtime cls t).1 ∨ ∃ s' p, SameTurns s s' ∧ refusalReason c s' runtime cls p = none ∧
        (acquire c s runtime cls t).1 = grant s' runtime cls := by
  have h := same_evaluatePressure c s t
  simp only [acquire]
  split
  · exact .inl h
  · next p _ =>
    split
    · exact .inl h
    · next hr => exact .inr ⟨_, p, h, hr, rfl⟩

/-- A step leaves the counters alone, grants a lease that passed its checks, or takes
    back one that was held. -/
theorem step_cases (s : AdmissionController) (e : Event) : SameTurns s (step c s e) ∨
      (∃ runtime cls t s' p, e = .acquire runtime cls t ∧ SameTurns s s' ∧
        refusalReason c s' runtime cls p = none ∧ step c s e = grant s' runtime cls) ∨
      ∃ i l, s.leases.held i = some l ∧ step c s e = release s i := by
  cases e with
  | acquire runtime cls t =>
    rcases acquire_cases c s runtime cls t with h | ⟨s', p, hs, hp, hg⟩
    · exact .inl h
    · exact .inr (.inl ⟨runtime, cls, t, s', p, rfl, hs, hp, hg⟩)
  | release i =>
    cases hl : s.leases.held i with
    | none => left; simp [step, release, hl, SameTurns.refl]
    | some l => exact .inr (.inr ⟨i, l, hl, rfl⟩)
  | setDraining state => exact .inl ⟨rfl, rfl, rfl, rfl⟩
  | observeLagReading reading override => exact .inl (same_observeLagReading c s reading override)
  | assertCreateAdmissible runtime cls t => exact .inl (same_assertCreateAdmissible c s runtime cls t)
  | snapshot t => exact .inl (same_evaluatePressure c s t)

/-! ## Accounting -/

/-- Each counter is the number of leases of its kind still held. -/
structure Accounted (s : AdmissionController) : Prop where
  turns : s.activeTurns = s.leases.outstanding fun _ => true
  runtimes : ∀ r, s.activeByRuntime r = s.leases.outstanding fun l => l.runtime = r
  classes : ∀ k, s.activeByClass k = s.leases.outstanding fun l => l.cls = k

theorem Accounted.of_same (h : SameTurns s s') (ha : Accounted s) : Accounted s' := by
  refine ⟨?_, fun r => ?_, fun k => ?_⟩
  · rw [h.turns, h.leases]; exact ha.turns
  · rw [h.runtimes, h.leases]; exact ha.runtimes r
  · rw [h.classes, h.leases]; exact ha.classes k

theorem update_add_one {κ α : Type} [DecidableEq κ] {f : κ → ℕ} {l : Ledger α} (kind : α → κ) (a : α)
    (h : ∀ k, f k = l.outstanding fun b => kind b = k) (k : κ) :
    update f (kind a) (f (kind a) + 1) k = (l.grant a).outstanding fun b => kind b = k := by
  rw [Ledger.outstanding_grant, ← h k]
  by_cases hk : k = kind a
  · simp [update, hk]
  · simp [update, hk, Ne.symm hk]

theorem update_sub_one {κ α : Type} [DecidableEq κ] {f : κ → ℕ} {l : Ledger α} {kind : α → κ} {i : ℕ} {a : α}
    (hl : l.held i = some a) (h : ∀ k, f k = l.outstanding fun b => kind b = k) (k : κ) :
    update f (kind a) (f (kind a) - 1) k = (l.release i).outstanding fun b => kind b = k := by
  have hrel := Ledger.outstanding_release hl fun b => kind b = k
  rw [← h k] at hrel
  by_cases hk : k = kind a
  · subst hk
    simp only [update, decide_true, if_true] at hrel ⊢
    omega
  · simp only [update, hk, Ne.symm hk, decide_false, Bool.false_eq_true, if_false] at hrel ⊢
    omega

theorem grant_accounted (h : Accounted s) (runtime : SessionRuntime) (cls : AdmissionClass) : Accounted (grant s runtime cls) where
  turns := by
    show s.activeTurns + 1 = (s.leases.grant ⟨runtime, cls⟩).outstanding fun _ => true
    rw [Ledger.outstanding_grant, h.turns]
    rfl
  runtimes := update_add_one Lease.runtime ⟨runtime, cls⟩ h.runtimes
  classes := update_add_one Lease.cls ⟨runtime, cls⟩ h.classes

theorem release_accounted (h : Accounted s) {i : ℕ} {l : Lease} (hl : s.leases.held i = some l) : Accounted (release s i) := by
  simp only [release, hl]
  refine ⟨?_, update_sub_one hl h.runtimes, update_sub_one hl h.classes⟩
  have := Ledger.outstanding_release hl fun _ => true
  show s.activeTurns - 1 = (s.leases.release i).outstanding fun _ => true
  rw [h.turns]
  simp only [if_true] at this
  omega

theorem step_accounted (s : AdmissionController) (e : Event) (h : Accounted s) : Accounted (step c s e) := by
  rcases step_cases c s e with hs | ⟨runtime, cls, t, s', p, -, hs, -, hg⟩ | ⟨i, l, hl, hr⟩
  · exact h.of_same hs
  · rw [hg]; exact grant_accounted (h.of_same hs) runtime cls
  · rw [hr]; exact release_accounted h hl

theorem init_accounted : Accounted init := ⟨rfl, fun _ => rfl, fun _ => rfl⟩

theorem accounted (events : List Event) : Accounted (events.foldl (step c) init) :=
  Run.invariant_all (step_accounted c) init_accounted events

theorem Accounted.sum_runtimes (h : Accounted s) : s.activeTurns = (RUNTIMES.map s.activeByRuntime).sum := by
  have hks : ∀ l : Lease, l.runtime ∈ RUNTIMES := fun l => by cases l.runtime <;> decide
  rw [h.turns, funext h.runtimes, Ledger.sum_outstanding s.leases Lease.runtime (by decide) hks]

theorem Accounted.sum_classes (h : Accounted s) : s.activeTurns = (ADMISSION_CLASSES.map s.activeByClass).sum := by
  have hks : ∀ l : Lease, l.cls ∈ ADMISSION_CLASSES := fun l => by cases l.cls <;> decide
  rw [h.turns, funext h.classes, Ledger.sum_outstanding s.leases Lease.cls (by decide) hks]

/-! ## Ceilings -/

theorem SameTurns.execution (h : SameTurns s s') : executionActive s' = executionActive s := by
  simp only [executionActive, h.classes]

theorem grant_execution (s : AdmissionController) (runtime : SessionRuntime) (cls : AdmissionClass) :
    executionActive (grant s runtime cls) = executionActive s + if cls ∈ CONTROL_CLASSES then 0 else 1 := by
  cases cls with
  | P0 | P1 | P3 => rfl
  | P2 => exact Nat.add_right_comm _ 1 _

theorem release_execution (i : ℕ) : executionActive (release s i) ≤ executionActive s := by
  unfold release
  split
  · exact le_refl _
  · next l _ => cases l.cls <;> simp [executionActive, update]

theorem release_turns (i : ℕ) : (release s i).activeTurns ≤ s.activeTurns := by
  unfold release
  split
  · exact le_refl _
  · exact Nat.sub_le _ _

/-- `activeByClass.P2 + activeByClass.P3` does not exceed `executionCapacity`. -/
def ExecutionBounded (s : AdmissionController) : Prop := c.executionCapacity.lt (num (executionActive s)) = false

/-- `activeTurns` does not exceed `maxActiveTurns`. -/
def TurnsBounded (s : AdmissionController) : Prop := c.maxActiveTurns.lt (num s.activeTurns) = false

variable {c}

theorem step_execution_bounded (hc : Sound c) (s : AdmissionController) (e : Event) (h : ExecutionBounded c s) :
    ExecutionBounded c (step c s e) := by
  unfold ExecutionBounded at h ⊢
  rcases step_cases c s e with hs | ⟨runtime, cls, t, s', p, -, hs, hp, hg⟩ | ⟨i, l, -, hr⟩
  · rw [hs.execution]; exact h
  · rw [hg, grant_execution]
    rcases refusalReason_none c hp with ⟨hctl, -⟩ | ⟨hctl, hcap, -⟩
    · rw [if_pos hctl, add_zero, hs.execution]; exact h
    · rw [if_neg hctl]; exact JsNumber.not_lt_succ hc.wholeExecution hcap
  · rw [hr]; exact JsNumber.not_lt_of_le (release_execution i) h

theorem execution_bounded (hc : Sound c) (events : List Event) : ExecutionBounded c (events.foldl (step c) init) := by
  have h0 : ExecutionBounded c init := hc.executionNonneg
  exact Run.invariant_all (step_execution_bounded hc) h0 events

variable (c) in
/-- An execution acquire that meets a free execution slot and a free slot of its runtime
    meets a free turn too. The execution path checks the first two only. -/
def FindsFreeTurn (s : AdmissionController) : Event → Prop
  | .acquire runtime cls _ =>
    cls ∉ CONTROL_CLASSES → c.executionCapacity.le (num (executionActive s)) = false →
      (c.runtimeLimits runtime).le (num (s.activeByRuntime runtime)) = false →
      c.maxActiveTurns.le (num s.activeTurns) = false
  | _ => True

/-- A grant is made below the ceiling: the control path checks it, and the condition
    gives it to the execution path. -/
theorem grant_below_ceiling {runtime : SessionRuntime} {cls : AdmissionClass}
    {t : Telemetry} {p : Pressure} (hs : SameTurns s s') (hp : refusalReason c s' runtime cls p = none)
    (hfree : FindsFreeTurn c s (.acquire runtime cls t)) : c.maxActiveTurns.le (num s.activeTurns) = false := by
  rcases refusalReason_none c hp with ⟨-, hmax⟩ | ⟨hctl, hcap, hrt⟩
  · rw [← hs.turns]; exact hmax
  · rw [hs.execution] at hcap
    rw [hs.runtimes] at hrt
    exact hfree hctl hcap hrt

theorem step_turns_bounded (hc : Sound c) (s : AdmissionController) (e : Event) (h : TurnsBounded c s)
    (hfree : FindsFreeTurn c s e) : TurnsBounded c (step c s e) := by
  unfold TurnsBounded at h ⊢
  rcases step_cases c s e with hs | ⟨runtime, cls, t, s', p, rfl, hs, hp, hg⟩ | ⟨i, l, -, hr⟩
  · rw [hs.turns]; exact h
  · rw [hg]
    show c.maxActiveTurns.lt (num (s'.activeTurns + 1)) = false
    rw [hs.turns]
    exact JsNumber.not_lt_succ hc.wholeTurns (grant_below_ceiling hs hp hfree)
  · rw [hr]; exact JsNumber.not_lt_of_le (release_turns i) h

variable (c) in
/-- The accounting of the controller, all of it. -/
structure WellAccounted (s : AdmissionController) : Prop where
  runtimes : s.activeTurns = (RUNTIMES.map s.activeByRuntime).sum
  classes : s.activeTurns = (ADMISSION_CLASSES.map s.activeByClass).sum
  leases : s.activeTurns = s.leases.outstanding fun _ => true
  execution : ExecutionBounded c s
  turns : TurnsBounded c s

theorem turns_accounted (cpus : ℕ) (options : AdmissionControllerOptions) (events : List Event)
    (hfree : Run.Along (step (limits cpus options)) (FindsFreeTurn (limits cpus options)) init events) :
    WellAccounted (limits cpus options) (events.foldl (step (limits cpus options)) init) := by
  have hc := limits_sound cpus options
  have ha := accounted (limits cpus options) events
  have h0 : TurnsBounded (limits cpus options) init := hc.turnsNonneg
  exact ⟨ha.sum_runtimes, ha.sum_classes, ha.turns, execution_bounded hc events,
    Run.invariant (step_turns_bounded hc) h0 hfree⟩

/-! ## The ceiling, met and passed -/

/-- No pressure of any kind. -/
def calm : Telemetry where
  now := num 0
  heap := some ⟨num 0, num 0⟩
  memory := some ⟨num 0, num (2 ^ 40), none⟩
  pids := some {}
  host := some {}

def twoTurns : AdmissionControllerOptions := { maxActiveTurns := some (num 2) }

/-- One control turn and one execution turn, the second given back twice. -/
def withinCeiling : List Event :=
  [.acquire .pi .P0 calm, .acquire .claude .P2 calm, .release 1, .release 1, .acquire .pi .P1 calm]

theorem within_ceiling : Run.Along (step (limits 4 twoTurns)) (FindsFreeTurn (limits 4 twoTurns)) init withinCeiling ∧
      WellAccounted (limits 4 twoTurns) (withinCeiling.foldl (step (limits 4 twoTurns)) init) := by
  have h : Run.Along (step (limits 4 twoTurns)) (FindsFreeTurn (limits 4 twoTurns)) init withinCeiling := by
    refine ⟨?_, ?_, trivial, trivial, ?_, trivial⟩
    · intro hctl; exact absurd (by decide) hctl
    · intro _ _ _; decide +kernel
    · intro hctl; exact absurd (by decide) hctl
  exact ⟨h, turns_accounted 4 twoTurns withinCeiling h⟩

/-- Two browser turns fill the ceiling of two; an API turn of another runtime is granted
    as a third. -/
theorem control_then_execution : ¬ WellAccounted (limits 4 twoTurns)
      ([.acquire .claude .P0 calm, .acquire .claude .P0 calm, .acquire .pi .P2 calm].foldl
        (step (limits 4 twoTurns)) init) := by
  intro h
  have : (limits 4 twoTurns).maxActiveTurns.lt (num (([.acquire .claude .P0 calm, .acquire .claude .P0 calm,
      .acquire .pi .P2 calm].foldl (step (limits 4 twoTurns)) init).activeTurns)) = true := by
    decide +kernel
  exact Bool.false_ne_true (h.turns.symm.trans this)

end PiWebUi.Admission
