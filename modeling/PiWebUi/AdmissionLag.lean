/-
  PiWebUi.AdmissionLag — the event-loop-lag latch against the rule it implements.

  `observeLagReading` moves the latch with a reading and `lagState` clears it when an
  evaluation finds the last reading too old. `LagPressure` is the rule, said of the
  readings alone: the last one is not stale and, since the last gap, there were enough
  consecutive high readings and none since that was low. `lag_hysteresis`: an evaluation
  sees the lag pressure of the rule, in every run and whatever was evaluated in between,
  exactly under the limits that need a reading and whose recovery mark is not above the
  threshold. A knob given as a fraction below one is floored to zero and breaks that
  (`unlatched_by_half`); whole knobs keep it (`marks_in_order`).
-/

import PiWebUi.AdmissionProofs
import PiWebUi.Lib.Hysteresis
import PiWebUi.Lib.JsNumberOrder

namespace PiWebUi.Admission

open Lib Hysteresis List Option

variable (c : Limits)

/-! ## The rule -/

/-- The `p99Ms` (an override before the reading's own) and the `atMs` of a reading that
    says anything: it has samples, and the value is finite. -/
def taken (reading : LagReading) (override : Option JsNumber) : Option (JsNumber × JsNumber) :=
  if reading.sampleCount.any (·.le (num 0)) then none
  else if (override.getD reading.p99Ms).isFinite then some (override.getD reading.p99Ms, reading.atMs)
  else none

def Event.reading : Event → Option (JsNumber × JsNumber)
  | .observeLagReading reading override => taken reading override
  | _ => none

/-- The clock an event reads; a reading carries its own. -/
def Event.clock : Event → Option JsNumber
  | .acquire _ _ t | .assertCreateAdmissible _ _ t | .snapshot t => some t.now
  | .observeLagReading reading _ => some reading.atMs
  | .release _ | .setDraining _ => none

def readings (es : List Event) : List (JsNumber × JsNumber) := es.filterMap Event.reading

def clocks (es : List Event) : List JsNumber := es.filterMap Event.clock

def Clocked (times : List JsNumber) : Prop := times.Pairwise fun a b => a.le b = true

def highLag (r : JsNumber × JsNumber) : Bool := c.lagThresholdMs.le r.1

def lowLag (r : JsNumber × JsNumber) : Bool := r.1.lt c.lagRecoveryMs

def staleAt (now : JsNumber) (r : JsNumber × JsNumber) : Bool := c.lagReadingStaleMs.lt (now.sub r.2)

def lagGap (r r' : JsNumber × JsNumber) : Bool := staleAt c r'.2 r

/-- The lag pressure at a time, from the readings alone. -/
def LagPressure (rs : List (JsNumber × JsNumber)) (now : JsNumber) : Prop :=
  (∃ last, rs.getLast? = some last ∧ staleAt c now last = false) ∧
    ∃ n : ℕ, c.lagSustainedReadings = num n ∧ Sustained (highLag c) (lowLag c) n (sinceGap (lagGap c) rs)

/-! ## The limits -/

theorem le_num (m n : ℕ) : (num m).le (num n) = decide (m ≤ n) := by
  rw [Bool.eq_iff_iff, num, num, JsNumber.le_fin, Nat.cast_le, decide_eq_true_iff]

theorem positiveInteger_natural (value : Option JsNumber) (m : ℕ) : ∃ n, positiveInteger value (num m) = num n := by
  cases value with
  | none => exact ⟨m, rfl⟩
  | some v =>
    simp only [positiveInteger]
    split
    · next hv =>
      rw [Bool.and_eq_true] at hv
      cases v with
      | fin q =>
        have hq : (0 : ℚ) < q := by simpa [num, JsNumber.lt] using hv.2
        obtain ⟨n, hn⟩ := Int.eq_ofNat_of_zero_le (Int.floor_nonneg.mpr hq.le)
        refine ⟨n, ?_⟩
        simp only [JsNumber.floor, hn, num]
        rfl
      | _ => exact absurd hv.1 (by simp [JsNumber.isFinite])
    · exact ⟨m, rfl⟩

theorem fst_resolveLagThreshold (value : Option JsNumber) :
    (resolveLagThreshold value).1 = positiveInteger value (num DEFAULT_LAG_THRESHOLD_MS) := by
  cases value <;> rfl

theorem fst_resolveLagSustained (value : Option JsNumber) :
    (resolveLagSustained value).1 = positiveInteger value (num DEFAULT_LAG_SUSTAINED_READINGS) := by
  cases value <;> rfl

theorem lt_num (m n : ℕ) : (num m).lt (num n) = decide (m < n) := by
  simp [num, JsNumber.lt]

/-- The recovery mark is what was asked for, positive and below the threshold, or derived. -/
theorem resolveLagRecovery_cases (value : Option JsNumber) (threshold : JsNumber) :
    (num 0).lt (resolveLagRecovery value threshold).1 = true ∧ (resolveLagRecovery value threshold).1.lt threshold = true ∨
      (resolveLagRecovery value threshold).1 = (num 1).max (threshold.divNat 2).floor := by
  cases value with
  | none => exact .inr rfl
  | some v =>
    simp only [resolveLagRecovery]
    split
    · next h =>
      simp only [Bool.and_eq_true] at h
      exact .inl ⟨h.1.1, h.2⟩
    · exact .inr rfl

theorem one_max_cases {x : JsNumber} (h : x ≠ .nan) : (num 1).max x = num 1 ∨ (num 1).max x = x ∧ (num 1).lt x = true := by
  have hmax : (num 1).max x = if (num 1).lt x then x else num 1 := by
    cases x with
    | nan => exact absurd rfl h
    | _ => rfl
  rw [hmax]
  cases hlt : (num 1).lt x with
  | true => exact .inr ⟨rfl, rfl⟩
  | false => exact .inl rfl

theorem half_ne_nan (n : ℕ) : ((num n).divNat 2).floor ≠ .nan := by
  have hround : (JsNumber.roundBinary64 ((n : ℚ) / (2 : ℕ))) ≠ .nan := JsNumber.roundBinary64_ne_nan _
  show (JsNumber.roundBinary64 ((n : ℚ) / (2 : ℕ))).floor ≠ .nan
  cases h : JsNumber.roundBinary64 ((n : ℚ) / (2 : ℕ)) with
  | nan => exact absurd h hround
  | _ => simp [JsNumber.floor]

theorem recovery_pos (cpus : ℕ) (options : AdmissionControllerOptions) : (num 0).lt (limits cpus options).lagRecoveryMs = true := by
  obtain ⟨n, hn⟩ := positiveInteger_natural options.lagThresholdMs DEFAULT_LAG_THRESHOLD_MS
  show (num 0).lt (resolveLagRecovery options.lagRecoveryMs (resolveLagThreshold options.lagThresholdMs).1).1 = true
  rw [fst_resolveLagThreshold, hn]
  have hone : (num 0).lt (num 1) = true := lt_num 0 1
  rcases resolveLagRecovery_cases options.lagRecoveryMs (num n) with h | h
  · exact h.1
  · rw [h]
    rcases one_max_cases (half_ne_nan n) with hmax | ⟨hmax, hlt⟩
    · rw [hmax]
      exact hone
    · rw [hmax]
      exact JsNumber.lt_trans hone hlt

/-- The resolved lag knobs are natural numbers, and the staleness is not negative. -/
structure LagLimits : Prop where
  sustained : ∃ n, c.lagSustainedReadings = num n
  threshold : ∃ n, c.lagThresholdMs = num n
  stale : c.lagReadingStaleMs.lt (num 0) = false

theorem limits_lag (cpus : ℕ) (options : AdmissionControllerOptions) : LagLimits (limits cpus options) where
  sustained := by
    obtain ⟨n, hn⟩ := positiveInteger_natural options.lagSustainedReadings DEFAULT_LAG_SUSTAINED_READINGS
    exact ⟨n, (fst_resolveLagSustained options.lagSustainedReadings).trans hn⟩
  threshold := by
    obtain ⟨n, hn⟩ := positiveInteger_natural options.lagThresholdMs DEFAULT_LAG_THRESHOLD_MS
    exact ⟨n, (fst_resolveLagThreshold options.lagThresholdMs).trans hn⟩
  stale := by
    have hdefault : (num DEFAULT_LAG_READING_STALE_MS).lt (num 0) = false := by simp [num, JsNumber.lt, DEFAULT_LAG_READING_STALE_MS]
    exact positiveInteger_nonneg options.lagReadingStaleMs hdefault

/-- What the rule needs of the knobs: at least one reading sets the latch, and the mark
    that clears it is not above the one that sets it. -/
structure MarksApart : Prop where
  sustained : c.lagSustainedReadings ≠ num 0
  recovery : c.lagThresholdMs.lt c.lagRecoveryMs = false

/-- A knob given as a positive fraction below one. -/
def BelowOne (value : Option JsNumber) : Prop := ∃ q : ℚ, value = some (.fin q) ∧ 0 < q ∧ q < 1

theorem positiveInteger_zero (value : Option JsNumber) {m : ℕ} (hm : m ≠ 0) : positiveInteger value (num m) = num 0 ↔ BelowOne value := by
  have hne : num m ≠ num 0 := by simpa [num] using hm
  constructor
  · intro h
    cases value with
    | none => exact absurd h hne
    | some v =>
      simp only [positiveInteger] at h
      split at h
      · next hv =>
        rw [Bool.and_eq_true] at hv
        cases v with
        | fin q =>
          have hfloor : ⌊q⌋ = 0 := by simpa [JsNumber.floor, num] using h
          exact ⟨q, rfl, by simpa [num, JsNumber.lt] using hv.2, (Int.floor_eq_zero_iff.mp hfloor).2⟩
        | _ => cases hv.1
      · exact absurd h hne
  · rintro ⟨q, rfl, hpos, hlt⟩
    have hfloor : ⌊q⌋ = 0 := Int.floor_eq_zero_iff.mpr ⟨hpos.le, hlt⟩
    simp [positiveInteger, JsNumber.isFinite, num, JsNumber.lt, hpos, JsNumber.floor, hfloor]

/-- With a threshold below 2^53 the marks are apart exactly when neither knob is such a fraction. -/
theorem marksApart_iff (cpus : ℕ) (options : AdmissionControllerOptions) {n : ℕ}
    (hn : positiveInteger options.lagThresholdMs (num DEFAULT_LAG_THRESHOLD_MS) = num n) (hexact : n < 2 ^ 53) :
    MarksApart (limits cpus options) ↔ ¬ BelowOne options.lagSustainedReadings ∧ ¬ BelowOne options.lagThresholdMs := by
  have hsustained : (limits cpus options).lagSustainedReadings = num 0 ↔ BelowOne options.lagSustainedReadings := by
    rw [← positiveInteger_zero options.lagSustainedReadings (m := DEFAULT_LAG_SUSTAINED_READINGS) two_ne_zero]
    exact Eq.congr_left (fst_resolveLagSustained _)
  have hthreshold : (limits cpus options).lagThresholdMs = num n := (fst_resolveLagThreshold _).trans hn
  have hzero : n = 0 ↔ BelowOne options.lagThresholdMs := by
    rw [← positiveInteger_zero options.lagThresholdMs (m := DEFAULT_LAG_THRESHOLD_MS) (by decide), hn]
    simp [num]
  have hrecovery : (num n).lt (limits cpus options).lagRecoveryMs = false ↔ n ≠ 0 := by
    constructor
    · rintro h rfl
      rw [recovery_pos] at h
      cases h
    · intro hne
      show (num n).lt (resolveLagRecovery options.lagRecoveryMs (resolveLagThreshold options.lagThresholdMs).1).1 = false
      rw [fst_resolveLagThreshold, hn]
      rcases resolveLagRecovery_cases options.lagRecoveryMs (num n) with h | h
      · exact JsNumber.lt_asymm h.2
      · rw [h]
        rcases one_max_cases (half_ne_nan n) with hmax | ⟨hmax, _⟩
        · rw [hmax, lt_num, decide_eq_false_iff_not]
          omega
        · rw [hmax]
          have hpos : (0 : ℚ) < n / (2 : ℕ) := div_pos (by exact_mod_cast Nat.pos_of_ne_zero hne) (by norm_num)
          have hhalf : (n : ℚ) / (2 : ℕ) ≤ n := div_le_self (Nat.cast_nonneg n) (by norm_num)
          have hround := JsNumber.roundBinary64_mono hpos hhalf
          rw [JsNumber.roundBinary64_nat hexact] at hround
          have hfloor := JsNumber.floor_mono hround
          rw [show (JsNumber.fin n).floor = num n by simp [JsNumber.floor, num]] at hfloor
          exact JsNumber.not_lt_of_le_of_le hfloor ((le_num n n).trans (by simp))
  rw [← hsustained, ← hzero, ← ne_eq n 0, ← hrecovery, ← hthreshold]
  exact ⟨fun h => ⟨h.sustained, h.recovery⟩, fun h => ⟨h.1, h.2⟩⟩

theorem MarksApart.not_low {c : Limits} (h : MarksApart c) (r : JsNumber × JsNumber) (hhigh : highLag c r = true) : lowLag c r = false :=
  JsNumber.not_lt_of_not_lt_of_le h.recovery hhigh

/-! ## What a step does to the latch -/

def latchOf (s : AdmissionController) : Latch := ⟨s.lagLatched, s.lagConsecutiveHigh⟩

/-- The state tracks the readings: the latch is that of the readings since the last gap, or
    the last reading was found stale since and the latch is off. -/
structure Tracks (times : List JsNumber) (rs : List (JsNumber × JsNumber)) (n : ℕ) (s : AdmissionController) : Prop where
  last : s.lastLag = rs.getLast?
  latch : latchOf s = run (highLag c) (lowLag c) n (sinceGap (lagGap c) rs) ∨
    latchOf s = .off ∧ ∃ τ ∈ times, s.lastLag.any (staleAt c τ) = true

structure SameLag (s s' : AdmissionController) : Prop where
  last : s'.lastLag = s.lastLag
  latch : latchOf s' = latchOf s

variable {c}
variable {times : List JsNumber} {rs : List (JsNumber × JsNumber)} {n : ℕ} {s s' : AdmissionController}

theorem Tracks.of_same (h : Tracks c times rs n s) (hs : SameLag s s') : Tracks c times rs n s' := by
  refine ⟨hs.last.trans h.last, ?_⟩
  rw [hs.latch, hs.last]
  exact h.latch

theorem Tracks.later (h : Tracks c times rs n s) (more : List JsNumber) : Tracks c (times ++ more) rs n s := by
  refine ⟨h.last, h.latch.imp_right fun hoff => ⟨hoff.1, ?_⟩⟩
  obtain ⟨τ, hτ, hstale⟩ := hoff.2
  exact ⟨τ, mem_append_left more hτ, hstale⟩

theorem stale_mono (hc : LagLimits c) {x y : JsNumber} (hle : x.le y = true) {last : Option (JsNumber × JsNumber)}
    (h : last.any (staleAt c x) = true) : last.any (staleAt c y) = true := by
  cases last with
  | none => cases h
  | some r => exact JsNumber.lt_sub_mono (by simpa [num] using hc.stale) hle h

theorem lagState_fst (s : AdmissionController) (now : JsNumber) :
    (lagState c s now).1 = if s.lastLag.any (staleAt c now) then resetLag s else s := rfl

theorem Tracks.lagState (h : Tracks c times rs n s) (now : JsNumber) : Tracks c (times ++ [now]) rs n (lagState c s now).1 := by
  rw [lagState_fst]
  split
  · next hstale => exact ⟨h.last, .inr ⟨rfl, now, by simp, hstale⟩⟩
  · exact h.later [now]

theorem sameLag_evaluateHeap (s : AdmissionController) (t : Telemetry) : SameLag s (evaluateHeap c s t).1 := ⟨rfl, rfl⟩

theorem evaluatePressure_fst (s : AdmissionController) (t : Telemetry) :
    (evaluatePressure c s t).1 = (lagState c (evaluateHeap c s t).1 t.now).1 := rfl

theorem Tracks.evaluatePressure (h : Tracks c times rs n s) (t : Telemetry) :
    Tracks c (times ++ [t.now]) rs n (evaluatePressure c s t).1 := by
  rw [evaluatePressure_fst]
  exact (h.of_same (sameLag_evaluateHeap s t)).lagState t.now

/-- A reading moves the latch as `observe` does, after a gap from the start. -/
theorem Tracks.reading (hc : LagLimits c) (hn : c.lagSustainedReadings = num n) (h : Tracks c times rs n s) {r : JsNumber × JsNumber}
    (hτ : ∀ τ ∈ times, τ.le r.2 = true) :
    Tracks c (times ++ [r.2]) (rs ++ [r]) n (latchLag c (if s.lastLag.any (staleAt c r.2) then resetLag s else s) r.1 r.2) := by
  have hobserve : ∀ s', latchOf (latchLag c s' r.1 r.2) = observe (highLag c) (lowLag c) n (latchOf s') r := by
    intro s'
    simp only [latchOf, latchLag, observe, streakAfter, highLag, lowLag, hn, le_num]
    rfl
  refine ⟨by simp [latchLag], .inl ?_⟩
  rw [hobserve, sinceGap_concat, joinGap, getLast_sinceGap, ← h.last]
  show _ = run _ _ n (if s.lastLag.any (staleAt c r.2) = true then [r] else _)
  by_cases hstale : s.lastLag.any (staleAt c r.2) = true
  · rw [if_pos hstale, if_pos hstale]
    rfl
  · rw [if_neg hstale, if_neg hstale, run_concat]
    rcases h.latch with hlatch | ⟨_, τ, hmem, hsince⟩
    · rw [hlatch]
    · exact absurd (stale_mono hc (hτ τ hmem) hsince) hstale

theorem observeLagReading_eq (s : AdmissionController) (reading : LagReading) (override : Option JsNumber) :
    observeLagReading c s reading override = match taken reading override with
      | none => s
      | some r => latchLag c (if s.lastLag.any (staleAt c r.2) then resetLag s else s) r.1 r.2 := by
  simp only [observeLagReading, taken]
  split
  · rfl
  · cases hfinite : (override.getD reading.p99Ms).isFinite <;> rfl

/-- Step lemma. -/
theorem Tracks.step (hc : LagLimits c) (hn : c.lagSustainedReadings = num n) (h : Tracks c times rs n s) (e : Event)
    (hτ : ∀ τ ∈ times, ∀ now ∈ e.clock, τ.le now = true) :
    Tracks c (times ++ e.clock.toList) (rs ++ e.reading.toList) n (step c s e) := by
  cases e with
  | acquire runtime cls t =>
    rw [show (Event.acquire runtime cls t).reading = none from rfl, toList_none, append_nil]
    have hsame : SameLag (Admission.evaluatePressure c s t).1 (acquire c s runtime cls t).1 := by
      simp only [acquire]
      split
      · exact ⟨rfl, rfl⟩
      · split <;> exact ⟨rfl, rfl⟩
    exact (h.evaluatePressure t).of_same hsame
  | release i =>
    have hsame : SameLag s (release s i) := by
      simp only [release]
      split <;> exact ⟨rfl, rfl⟩
    show Tracks c (times ++ []) (rs ++ []) n (release s i)
    simpa only [append_nil] using h.of_same hsame
  | setDraining state =>
    have hsame : SameLag s { s with drainingState := state } := ⟨rfl, rfl⟩
    show Tracks c (times ++ []) (rs ++ []) n { s with drainingState := state }
    simpa only [append_nil] using h.of_same hsame
  | assertCreateAdmissible runtime cls t =>
    rw [show (Event.assertCreateAdmissible runtime cls t).reading = none from rfl, toList_none, append_nil]
    have hsame : SameLag (Admission.evaluatePressure c s t).1 (assertCreateAdmissible c s runtime cls t).1 := by
      simp only [assertCreateAdmissible]
      split
      · exact ⟨rfl, rfl⟩
      · split <;> exact ⟨rfl, rfl⟩
    exact (h.evaluatePressure t).of_same hsame
  | snapshot t =>
    rw [show (Event.snapshot t).reading = none from rfl, toList_none, append_nil]
    exact h.evaluatePressure t
  | observeLagReading reading override =>
    show Tracks c (times ++ [reading.atMs]) (rs ++ (taken reading override).toList) n (Admission.observeLagReading c s reading override)
    rw [observeLagReading_eq]
    cases htaken : taken reading override with
    | none => simpa using h.later [reading.atMs]
    | some r =>
      have hat : r.2 = reading.atMs := by
        simp only [taken] at htaken
        split at htaken
        · cases htaken
        · split at htaken
          · rw [← some.inj htaken]
          · cases htaken
      rw [← hat]
      exact h.reading hc hn fun τ hmem => hτ τ hmem r.2 (by simp [Event.clock, hat])

/-- Run lemma. -/
theorem tracks_run (hc : LagLimits c) (hn : c.lagSustainedReadings = num n) (es : List Event) (h : Clocked (clocks es)) :
    Tracks c (clocks es) (readings es) n (es.foldl (Admission.step c) init) := by
  induction es using List.reverseRecOn with
  | nil => exact ⟨rfl, .inl rfl⟩
  | append_singleton es e ih =>
    have hclocks : clocks (es ++ [e]) = clocks es ++ e.clock.toList := by
      cases he : e.clock <;> simp [clocks, he]
    have hreadings : readings (es ++ [e]) = readings es ++ e.reading.toList := by
      cases he : e.reading <;> simp [readings, he]
    rw [hclocks, Clocked, pairwise_append] at h
    rw [hclocks, hreadings, foldl_append]
    exact (ih h.1).step hc hn e fun τ hmem now hnow => h.2.2 τ hmem now (by simpa using hnow)

/-! ## What an evaluation sees -/

theorem evaluatePressure_lag {t : Telemetry} {p : Pressure} (h : (evaluatePressure c s t).2 = some p) :
    p.lagPressure = (!s.lastLag.any (staleAt c t.now) && s.lagLatched) := by
  have hlag : p.lagPressure = (lagState c (evaluateHeap c s t).1 t.now).1.lagLatched := by
    simp only [evaluatePressure, bind_eq_bind, bind_eq_some_iff] at h
    obtain ⟨_, _, _, _, _, _, hp⟩ := h
    rw [← some.inj hp]
    rfl
  rw [hlag, lagState_fst]
  show (if s.lastLag.any (staleAt c t.now) = true then _ else _ : AdmissionController).lagLatched = _
  split
  · next hstale => simp [hstale, resetLag]
  · next hstale => simp [hstale, evaluateHeap]

theorem Tracks.pressure (hc : LagLimits c) (hm : MarksApart c) (hn : c.lagSustainedReadings = num n) (h : Tracks c times rs n s)
    {now : JsNumber} (hτ : ∀ τ ∈ times, τ.le now = true) :
    (!s.lastLag.any (staleAt c now) && s.lagLatched) = true ↔ LagPressure c rs now := by
  have hne : n ≠ 0 := fun h0 => hm.sustained (h0 ▸ hn)
  have hcount : ∀ m : ℕ, c.lagSustainedReadings = num m → m = n := by
    intro m hm'
    have hmn : num m = num n := hm'.symm.trans hn
    simpa [num] using hmn
  rw [Bool.and_eq_true, Bool.not_eq_true']
  constructor
  · rintro ⟨hfresh, hlatched⟩
    rcases h.latch with hlatch | ⟨hoff, _⟩
    · have hrun : (run (highLag c) (lowLag c) n (sinceGap (lagGap c) rs)).latched = true := hlatch ▸ hlatched
      have hsustained := (latched_iff hne hm.not_low _).mp hrun
      refine ⟨?_, n, hn, hsustained⟩
      rw [h.last] at hfresh
      cases hlast : rs.getLast? with
      | none =>
        rw [getLast?_eq_none_iff.mp hlast] at hsustained
        exact absurd hsustained (not_sustained_nil hne)
      | some last => exact ⟨last, rfl, by simpa [hlast] using hfresh⟩
    · have hunlatched : s.lagLatched = false := congrArg Latch.latched hoff
      rw [hunlatched] at hlatched
      cases hlatched
  · rintro ⟨⟨last, hlast, hfresh⟩, m, hm', hsustained⟩
    have hnotstale : s.lastLag.any (staleAt c now) = false := by
      rw [h.last, hlast]
      exact hfresh
    refine ⟨hnotstale, ?_⟩
    rcases h.latch with hlatch | ⟨_, τ, hmem, hsince⟩
    · rw [hcount m hm'] at hsustained
      have hrun := (latched_iff hne hm.not_low _).mpr hsustained
      rw [← hlatch] at hrun
      exact hrun
    · rw [stale_mono hc (hτ τ hmem) hsince] at hnotstale
      cases hnotstale

/-! ## Where it fails -/

/-- Readings of one value, all at time zero. -/
def repeated (p99 : JsNumber) (m : ℕ) : List Event := List.replicate m (.observeLagReading ⟨p99, num 0, none⟩ none)

/-- Every reader answers, at time zero. -/
def answered : Telemetry where
  now := num 0
  heap := none
  memory := some ⟨num 0, num 0, none⟩
  pids := some {}
  host := some {}

theorem readings_repeated {p99 : JsNumber} (hfinite : p99.isFinite = true) (m : ℕ) :
    readings (repeated p99 m) = List.replicate m (p99, num 0) := by
  simp [readings, repeated, Event.reading, taken, hfinite]

theorem clocks_repeated (p99 : JsNumber) (m : ℕ) : clocks (repeated p99 m) = List.replicate m (num 0) := by
  simp [clocks, repeated, filterMap_replicate, Event.clock]

theorem clocked_repeated (p99 : JsNumber) (m : ℕ) : Clocked (clocks (repeated p99 m) ++ [answered.now]) := by
  rw [clocks_repeated, show answered.now = num 0 from rfl, ← replicate_succ', Clocked, pairwise_replicate]
  exact .inr (by decide)

theorem fresh_now (hc : LagLimits c) (r : JsNumber) : staleAt c (num 0) (r, num 0) = false := by
  have hzero : (num 0).sub (num 0) = num 0 := by simp [num, JsNumber.sub, JsNumber.roundBinary64]
  show c.lagReadingStaleMs.lt ((num 0).sub (num 0)) = false
  rw [hzero]
  exact hc.stale

/-- A value whose repeated readings leave the latch off though the rule holds of them. -/
theorem repeated_breaks (hc : LagLimits c) (hn : c.lagSustainedReadings = num n) {p99 : JsNumber} (hfinite : p99.isFinite = true) {m : ℕ}
    (hm : m ≠ 0) (hbreaks : (run (highLag c) (lowLag c) n (List.replicate m (p99, num 0))).latched = false ∧
      Sustained (highLag c) (lowLag c) n (List.replicate m (p99, num 0))) :
    ∃ p, (evaluatePressure c ((repeated p99 m).foldl (Admission.step c) init) answered).2 = some p ∧ p.lagPressure = false ∧
      LagPressure c (readings (repeated p99 m)) answered.now := by
  have hclocked := clocked_repeated p99 m
  have htracks := tracks_run hc hn (repeated p99 m) (pairwise_append.mp hclocked).1
  have hsegment : sinceGap (lagGap c) (readings (repeated p99 m)) = List.replicate m (p99, num 0) := by
    rw [readings_repeated hfinite]
    exact sinceGap_replicate (fresh_now hc p99) m
  have hlast : (readings (repeated p99 m)).getLast? = some (p99, num 0) := by
    simp [readings_repeated hfinite, getLast?_replicate, hm]
  have hunlatched : ((repeated p99 m).foldl (Admission.step c) init).lagLatched = false := by
    rcases htracks.latch with hlatch | ⟨hoff, _⟩
    · rw [hsegment] at hlatch
      exact (congrArg Latch.latched hlatch).trans hbreaks.1
    · exact congrArg Latch.latched hoff
  obtain ⟨p, hp⟩ : ∃ p, (evaluatePressure c ((repeated p99 m).foldl (Admission.step c) init) answered).2 = some p := ⟨_, rfl⟩
  refine ⟨p, hp, ?_, ⟨(p99, num 0), hlast, fresh_now hc p99⟩, n, hn, hsegment ▸ hbreaks.2⟩
  rw [evaluatePressure_lag hp, hunlatched, Bool.and_false]

/-- An evaluation sees the lag pressure that the rule gives to the readings, in every run and
    whatever was evaluated in between, exactly when the marks are apart. -/
theorem lag_hysteresis (cpus : ℕ) (options : AdmissionControllerOptions) :
    (∀ (es : List Event) (t : Telemetry) (p : Pressure), Clocked (clocks es ++ [t.now]) →
      (evaluatePressure (limits cpus options) (es.foldl (step (limits cpus options)) init) t).2 = some p →
      (p.lagPressure = true ↔ LagPressure (limits cpus options) (readings es) t.now)) ↔
    MarksApart (limits cpus options) := by
  have hc := limits_lag cpus options
  obtain ⟨n, hn⟩ := hc.sustained
  obtain ⟨m, hm⟩ := hc.threshold
  constructor
  · intro hrule
    have hfollows : ∀ {p99 : JsNumber} {m : ℕ}, p99.isFinite = true → m ≠ 0 →
        ¬ ((run (highLag (limits cpus options)) (lowLag (limits cpus options)) n (List.replicate m (p99, num 0))).latched = false ∧
          Sustained (highLag (limits cpus options)) (lowLag (limits cpus options)) n (List.replicate m (p99, num 0))) := by
      intro p99 m hfinite hpos hbreaks
      obtain ⟨p, hp, hoff, hpressure⟩ := repeated_breaks hc hn hfinite hpos hbreaks
      rw [(hrule _ _ p (clocked_repeated p99 m) hp).mpr hpressure] at hoff
      cases hoff
    -- with equal marks one reading above both sets the latch and clears it
    have hrecovery : n ≠ 0 → (limits cpus options).lagThresholdMs.lt (limits cpus options).lagRecoveryMs = false := by
      intro hne
      by_contra hlow
      rw [Bool.not_eq_false, hm] at hlow
      refine @hfollows (num m) (n + 1) rfl n.succ_ne_zero (not_latched_both hne ?_ hlow)
      simp [highLag, hm, le_num]
    by_cases hzero : n = 0
    · subst hzero
      have hlow : lowLag (limits cpus options) (num 0, num 0) = true := recovery_pos cpus options
      exact absurd (not_latched_zero hlow) (hfollows (m := 2) rfl two_ne_zero)
    · refine ⟨fun h0 => hzero ?_, hrecovery hzero⟩
      rw [hn] at h0
      simpa [num] using h0
  · intro hmarks es t p hclocked hp
    rw [Clocked, pairwise_append] at hclocked
    rw [evaluatePressure_lag hp]
    exact (tracks_run hc hn es hclocked.1).pressure hc hmarks hn fun τ hmem => hclocked.2.2 τ hmem t.now (by simp)

/-- Half a sustained reading is floored to none: two readings of zero leave the latch off,
    though no reading was needed and none was since. -/
theorem unlatched_by_half : ¬ ∀ (es : List Event) (t : Telemetry) (p : Pressure), Clocked (clocks es ++ [t.now]) →
    (evaluatePressure (limits 4 { lagSustainedReadings := some (.fin (1 / 2)) })
      (es.foldl (step (limits 4 { lagSustainedReadings := some (.fin (1 / 2)) })) init) t).2 = some p →
    (p.lagPressure = true ↔ LagPressure (limits 4 { lagSustainedReadings := some (.fin (1 / 2)) }) (readings es) t.now) := by
  intro h
  have hlimits := limits_lag 4 { lagSustainedReadings := some (.fin (1 / 2)) }
  have hnone : (limits 4 { lagSustainedReadings := some (.fin (1 / 2)) }).lagSustainedReadings = num 0 :=
    (fst_resolveLagSustained _).trans ((positiveInteger_zero _ two_ne_zero).mpr ⟨1 / 2, rfl, by norm_num, by norm_num⟩)
  have hlow := recovery_pos 4 { lagSustainedReadings := some (.fin (1 / 2)) }
  obtain ⟨p, hp, hoff, hpressure⟩ := repeated_breaks hlimits hnone rfl two_ne_zero (not_latched_zero hlow)
  rw [(h _ _ p (clocked_repeated _ _) hp).mpr hpressure] at hoff
  cases hoff

end PiWebUi.Admission
