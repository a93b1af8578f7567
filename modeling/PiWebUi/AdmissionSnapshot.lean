/-
  PiWebUi.AdmissionSnapshot — what the capacity snapshot says of the next acquire.

  Evaluating the pressure a second time under the same readings finds what the first time
  found (`evaluatePressure_again`): a latch that was taken is above its recovery mark, and
  one that was released is below its pressure mark. So a snapshot and the acquire after it
  decide alike: `available` and `reason` are those of a P2 acquire, the runtime's own limit
  apart (`snapshot_tells_acquire`). `controlAvailable` is the critical memory floor only: a
  control acquire also meets the turn ceiling, and `control_at_ceiling` is one that does.
-/

import PiWebUi.AdmissionProofs
import PiWebUi.Lib.JsNumberOrder

namespace PiWebUi.Admission

open Lib Option

/-! ## Once more, under the same readings -/

/-- The recovery mark of the heap latch is not above its pressure mark. -/
def MarksInOrder (c : Limits) : Prop := ∀ limit : JsNumber, (num 0).lt limit = true →
  (limit.mul c.heapRecoveryFraction).floor.le (limit.mul c.heapPressureFraction).floor = true

theorem fraction_positive (value : Option JsNumber) (fallback : JsNumber) (h : fallback.isFinite = true ∧ (num 0).lt fallback = true) :
    (fraction value fallback).isFinite = true ∧ (num 0).lt (fraction value fallback) = true := by
  cases value with
  | none => exact h
  | some v =>
    simp only [fraction]
    split
    · next hv =>
      simp only [Bool.and_eq_true] at hv
      exact hv.1
    · exact h

theorem limits_marks (cpus : ℕ) (options : AdmissionControllerOptions) : MarksInOrder (limits cpus options) := by
  intro limit hlimit
  obtain ⟨hpf, hp⟩ := fraction_positive options.heapPressureFraction DEFAULT_HEAP_PRESSURE_FRACTION (by decide +kernel)
  obtain ⟨hrf, hr⟩ := fraction_positive options.heapRecoveryFraction DEFAULT_HEAP_RECOVERY_FRACTION (by decide +kernel)
  show (limit.mul ((fraction options.heapPressureFraction _).min (fraction options.heapRecoveryFraction _))).floor.le
    (limit.mul (fraction options.heapPressureFraction _)).floor = true
  generalize fraction options.heapPressureFraction DEFAULT_HEAP_PRESSURE_FRACTION = p at *
  generalize fraction options.heapRecoveryFraction DEFAULT_HEAP_RECOVERY_FRACTION = r at *
  cases p with
  | fin p =>
    cases r with
    | fin r =>
      have hp0 : (0 : ℚ) < p := by simpa [num, JsNumber.lt] using hp
      have hr0 : (0 : ℚ) < r := by simpa [num, JsNumber.lt] using hr
      have hlimit0 : (JsNumber.fin 0).lt limit = true := by simpa [num] using hlimit
      show (limit.mul (if decide (r < p) = true then .fin r else .fin p)).floor.le _ = true
      split
      · next h => exact JsNumber.floor_mul_mono hlimit0 hr0 (of_decide_eq_true h).le
      · exact JsNumber.floor_mul_mono hlimit0 hp0 (le_refl p)
    | _ => cases hrf
  | _ => cases hpf

variable {c : Limits}

/-- The heap latch does not move twice. -/
theorem evaluateHeap_again (hc : MarksInOrder c) {s s' : AdmissionController} {t : Telemetry}
    (hlatch : s'.heapLatched = (evaluateHeap c s t).1.heapLatched) (hactive : executionActive s' = executionActive s) :
    (evaluateHeap c s' t).2 = (evaluateHeap c s t).2 := by
  simp only [evaluateHeap] at hlatch ⊢
  rw [hactive, hlatch]
  generalize hlimit : (if (num 0).lt (t.heap.getD ⟨num 0, num 0⟩).limitBytes then (t.heap.getD ⟨num 0, num 0⟩).limitBytes else num 0) = limit
  by_cases h0 : limit = num 0
  · simp only [h0, if_true]
  have hpos : (num 0).lt limit = true := by
    split at hlimit
    · next h => exact hlimit ▸ h
    · exact absurd hlimit.symm h0
  have horder := hc limit hpos
  simp only [h0, if_false]
  generalize (limit.mul c.heapRecoveryFraction).floor = recovery at *
  generalize (limit.mul c.heapPressureFraction).floor = pressure at *
  generalize (t.overrideHeapUsedBytes.getD (t.heap.getD ⟨num 0, num 0⟩).usedBytes).add
    ((num (executionActive s + 1)).mul c.reservedHeapBytesPerTurn) = projected
  -- above the pressure mark is not below the recovery mark
  have hmarks : pressure.le projected = true → projected.lt recovery = false := JsNumber.not_lt_of_le_of_le horder
  cases hl : s.heapLatched <;> cases hp : pressure.le projected <;> cases hr : projected.lt recovery <;> simp_all

theorem lagState_again (c : Limits) {s : AdmissionController} {now : JsNumber} :
    lagState c (lagState c s now).1 now = lagState c s now := by
  simp only [lagState]
  by_cases hstale : (s.lastLag.any fun last => c.lagReadingStaleMs.lt (now.sub last.2)) = true
  · simp only [resetLag, hstale, if_true]
  · simp only [hstale, Bool.false_eq_true, if_false]

theorem latched_lagState (s : AdmissionController) (now : JsNumber) : (lagState c s now).1.heapLatched = s.heapLatched := by
  simp only [lagState]
  split <;> rfl

/-- Nor does anything else. -/
theorem evaluatePressure_again (hc : MarksInOrder c) (s : AdmissionController) (t : Telemetry) :
    evaluatePressure c (evaluatePressure c s t).1 t = evaluatePressure c s t := by
  set s₁ := (evaluateHeap c s t).1 with hs₁
  set s₂ := (lagState c s₁ t.now).1 with hs₂
  have hstate : (evaluatePressure c s t).1 = s₂ := rfl
  have hactive : executionActive s₂ = executionActive s := (same_evaluatePressure c s t).execution
  have hlatch : s₂.heapLatched = s₁.heapLatched := latched_lagState s₁ t.now
  have hheap : (evaluateHeap c s₂ t).2 = (evaluateHeap c s t).2 := evaluateHeap_again hc hlatch hactive
  have hkept : (evaluateHeap c s₂ t).1 = s₂ := by
    have hpressure : (evaluateHeap c s₂ t).2.pressure = s₂.heapLatched := by
      rw [hheap, hlatch]
      rfl
    show { s₂ with heapLatched := (evaluateHeap c s₂ t).2.pressure } = s₂
    rw [hpressure]
  have heval : evaluateHeap c s₂ t = (s₂, (evaluateHeap c s t).2) := Prod.ext hkept hheap
  have hlag : lagState c s₂ t.now = lagState c s₁ t.now := lagState_again c
  rw [hstate]
  unfold evaluatePressure
  rw [heval]
  dsimp only
  rw [hlag]

/-! ## The snapshot and the next acquire -/

/-- What an acquire was refused with. -/
def refusedWith : Except Thrown ℕ → Option AdmissionRefusalReason
  | .error (.refused e) => some e.reason
  | _ => none

def succeeds : Except Thrown ℕ → Bool
  | .ok _ => true
  | .error _ => false

def snapshots (c : Limits) (t : Telemetry) (n : ℕ) (s : AdmissionController) : AdmissionController := (fun s => (snapshot c s t).1)^[n] s

/-- A snapshot and what is acquired next under the same readings. -/
structure TellsTheTruth (c : Limits) (s : AdmissionController) (t : Telemetry) (control : AdmissionSnapshot → Prop) : Prop where
  available : ∀ snap, (snapshot c s t).2 = some snap → ∀ runtime, (snap.available = true ↔
    ∀ reason, refusedWith (acquire c (snapshot c s t).1 runtime .P2 t).2 = some reason → reason = .runtimeLimit)
  reason : ∀ snap, (snapshot c s t).2 = some snap → ∀ runtime reason, (snap.reason = some reason ↔
    refusedWith (acquire c (snapshot c s t).1 runtime .P2 t).2 = some reason ∧ reason ≠ .runtimeLimit)
  control : ∀ snap, (snapshot c s t).2 = some snap → ∀ runtime, (control snap ↔
    succeeds (acquire c (snapshot c s t).1 runtime .P0 t).2 = true ∧ succeeds (acquire c (snapshot c s t).1 runtime .P1 t).2 = true)
  unmoved : ∀ n runtime cls, succeeds (acquire c (snapshots c t n s) runtime cls t).2 = succeeds (acquire c s runtime cls t).2

theorem evaluatePressure_snapshots (hc : MarksInOrder c) (s : AdmissionController) (t : Telemetry) (n : ℕ) :
    evaluatePressure c (snapshots c t n s) t = evaluatePressure c s t := by
  induction n with
  | zero => rfl
  | succ n ih =>
    rw [snapshots, Function.iterate_succ_apply']
    exact (evaluatePressure_again hc _ t).trans ih

/-- An acquire sees the state through the pressure. -/
theorem acquire_congr {s s' : AdmissionController} {t : Telemetry} (h : evaluatePressure c s' t = evaluatePressure c s t)
    (runtime : SessionRuntime) (cls : AdmissionClass) : acquire c s' runtime cls t = acquire c s runtime cls t := by
  unfold acquire
  rw [h]

/-- The acquire after the pressure was evaluated is decided by it. -/
theorem acquire_after (hc : MarksInOrder c) {s : AdmissionController} {t : Telemetry} {p : Pressure}
    (hp : (evaluatePressure c s t).2 = some p) (runtime : SessionRuntime) (cls : AdmissionClass) :
    refusedWith (acquire c (evaluatePressure c s t).1 runtime cls t).2 = refusalReason c (evaluatePressure c s t).1 runtime cls p ∧
      succeeds (acquire c (evaluatePressure c s t).1 runtime cls t).2 =
        (refusalReason c (evaluatePressure c s t).1 runtime cls p).isNone := by
  rw [acquire_congr (evaluatePressure_again hc s t)]
  unfold acquire
  generalize evaluatePressure c s t = pressure at hp ⊢
  obtain ⟨s', q⟩ := pressure
  dsimp only at hp ⊢
  subst hp
  dsimp only
  split
  · next reason hr => exact ⟨hr.symm, by rw [hr]; rfl⟩
  · next hr => exact ⟨hr.symm, by rw [hr]; rfl⟩

/-- Only the last check of an execution acquire is about its runtime. -/
theorem refusalReason_runtime (s : AdmissionController) (p : Pressure) (runtime : SessionRuntime) :
    (if refusalReason c s .pi .P2 p = some .runtimeLimit then none else refusalReason c s .pi .P2 p) =
      if refusalReason c s runtime .P2 p = some .runtimeLimit then none else refusalReason c s runtime .P2 p := by
  have hexecution : AdmissionClass.P2 ∉ CONTROL_CLASSES := by decide
  simp only [refusalReason, hexecution, if_false]
  split_ifs <;> simp_all

theorem refusalReason_control (s : AdmissionController) (p : Pressure) (runtime : SessionRuntime) {cls : AdmissionClass}
    (h : cls ∈ CONTROL_CLASSES) :
    (refusalReason c s runtime cls p).isNone = (!p.memoryCritical && !(c.maxActiveTurns.le (num s.activeTurns))) := by
  simp only [refusalReason, h, if_true]
  cases p.memoryCritical <;> cases c.maxActiveTurns.le (num s.activeTurns) <;> rfl

/-- In every state and under every reading. -/
theorem snapshot_tells_acquire (cpus : ℕ) (options : AdmissionControllerOptions) (events : List Event) (t : Telemetry) :
    TellsTheTruth (limits cpus options) (events.foldl (step (limits cpus options)) init) t
      fun snap => snap.controlAvailable = true ∧ snap.maxActiveTurns.le (num snap.activeTurns) = false := by
  have hc := limits_marks cpus options
  generalize limits cpus options = c at hc ⊢
  generalize events.foldl (step c) init = s
  have hsnap : ∀ snap, (snapshot c s t).2 = some snap → ∃ p, (evaluatePressure c s t).2 = some p ∧
      snap.reason = (if refusalReason c (evaluatePressure c s t).1 .pi .P2 p = some .runtimeLimit then none
        else refusalReason c (evaluatePressure c s t).1 .pi .P2 p) ∧
      snap.available = snap.reason.isNone ∧ snap.controlAvailable = !p.memoryCritical ∧ snap.maxActiveTurns = c.maxActiveTurns ∧
      snap.activeTurns = (evaluatePressure c s t).1.activeTurns := by
    intro snap h
    obtain ⟨p, hp, rfl⟩ := map_eq_some_iff.mp h
    exact ⟨p, hp, rfl, rfl, rfl, rfl, rfl⟩
  have hstate : (snapshot c s t).1 = (evaluatePressure c s t).1 := rfl
  have hreason : ∀ snap, (snapshot c s t).2 = some snap → ∀ runtime reason, (snap.reason = some reason ↔
      refusedWith (acquire c (snapshot c s t).1 runtime .P2 t).2 = some reason ∧ reason ≠ .runtimeLimit) := by
    intro snap h runtime reason
    obtain ⟨p, hp, hr, -⟩ := hsnap snap h
    rw [hstate, (acquire_after hc hp runtime .P2).1, hr, refusalReason_runtime _ p runtime]
    split
    · next hl =>
      rw [hl]
      constructor
      · intro hn
        cases hn
      · rintro ⟨he, hne⟩
        exact absurd (some.inj he).symm hne
    · next hl =>
      refine ⟨fun he => ⟨he, ?_⟩, And.left⟩
      rintro rfl
      exact hl he
  refine ⟨fun snap h runtime => ?_, hreason, fun snap h runtime => ?_, fun n runtime cls => ?_⟩
  · obtain ⟨-, -, -, ha, -⟩ := hsnap snap h
    rw [ha, isNone_iff_eq_none, eq_none_iff_forall_ne_some]
    constructor
    · intro hnone reason he
      by_contra hne
      exact hnone reason ((hreason snap h runtime reason).mpr ⟨he, hne⟩)
    · intro hall reason he
      obtain ⟨hrefused, hne⟩ := (hreason snap h runtime reason).mp he
      exact hne (hall reason hrefused)
  · obtain ⟨p, hp, -, -, hcontrol, hmax, hactive⟩ := hsnap snap h
    rw [hstate, (acquire_after hc hp runtime .P0).2, (acquire_after hc hp runtime .P1).2, refusalReason_control _ p runtime (by decide),
      refusalReason_control _ p runtime (by decide), hcontrol, hmax, hactive, and_self_iff, Bool.and_eq_true, Bool.not_eq_true', Bool.not_eq_true']
  · rw [acquire_congr (evaluatePressure_snapshots hc s t n)]

/-- Two control turns are the ceiling of two: control is published as available, and the third is refused. -/
theorem control_at_ceiling :
    ¬ TellsTheTruth (limits 4 twoTurns) ([.acquire .claude .P0 calm, .acquire .claude .P0 calm].foldl (step (limits 4 twoTurns)) init) calm
      fun snap => snap.controlAvailable = true := by
  intro h
  have hcontrol := h.control _ rfl .claude
  revert hcontrol
  decide +kernel

end PiWebUi.Admission
