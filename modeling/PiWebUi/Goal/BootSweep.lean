/-
  PiWebUi.Goal.BootSweep — what the boot sweep does with each candidate, and the probes that
  wait for it.

  The sweep's contract is `handling` with the boot time and the boot flag. The wiring hands on
  neither: `handling_eq_iff` says for which candidates that makes no difference (`Same`). The
  gate is resolved at the end of a sweep only, so a first call whose listing throws leaves every
  probe waiting (`Cond` at `.listed`). Under `Cond`, and only then, each step agrees.
-/

import PiWebUi.Goal.InterruptionWiring
import PiWebUi.Lib.Run
import Mathlib.Tactic.SplitIfs

namespace PiWebUi.Goal.Wiring

open Lib List

/-- In scope of the sweep at this time as at boot; and when in scope and not busy, a Pi session. -/
def Same (c : SweepCandidate) (a : CandidateAnswers) (time bootTimeMs : JsNumber) : Prop :=
  isApiOriginChild c = true → inScope wiredDeps c time = inScope wiredDeps c bootTimeMs ∧
    (inScope wiredDeps c bootTimeMs = true → a.isSessionBusy = .ok false → c.runtime = js "pi")

instance (c : SweepCandidate) (a : CandidateAnswers) (time bootTimeMs : JsNumber) : Decidable (Same c a time bootTimeMs) :=
  inferInstanceAs (Decidable (_ → _ ∧ (_ → _ → _)))

section Handling

variable {c : SweepCandidate} {a : CandidateAnswers} {time bootTimeMs : JsNumber}

theorem handling_of_out (ho : isApiOriginChild c = true) (hs : inScope wiredDeps c time = false) (boot : Bool) :
    handling wiredDeps c a time boot = .skipped (.lastActivity c.lastActivityMs) := by
  simp [handling, handleCandidate, ho, hs]

/-- What the Pi branch comes to. -/
theorem classified_cases : (∃ message, classifyAndContinue c a = .error message) ∨
    (∃ status, classifyAndContinue c a = .ok (.skipped (.goalState status))) ∨
    ∃ stop p, classifyAndContinue c a = .ok (.handedOn stop p) := by
  unfold classifyAndContinue
  cases a.rawProjection with
  | error message => exact .inl ⟨message, rfl⟩
  | ok p =>
    simp only [bind, Except.bind]
    cases classifyCandidate c p with
    | none => exact .inr (.inl ⟨p.status, rfl⟩)
    | some stop =>
      cases a.continueOnce with
      | error message => exact .inl ⟨message, rfl⟩
      | ok _ => exact .inr (.inr ⟨stop, p, rfl⟩)

/-- A candidate in scope is not reported as out of it. -/
theorem handling_of_in (hs : inScope wiredDeps c time = true) (boot : Bool) (ms : Option JsNumber) :
    handling wiredDeps c a time boot ≠ .skipped (.lastActivity ms) := by
  have ho : isApiOriginChild c = true := by
    unfold inScope at hs
    exact (Bool.and_eq_true_iff.mp hs).1
  unfold handling handleCandidate
  simp only [ho, hs, Bool.not_true, Bool.false_eq_true, if_false]
  cases a.isSessionBusy with
  | error message => simp [bind, Except.bind]
  | ok busy =>
    simp only [bind, Except.bind]
    split_ifs
    · simp
    · unfold showSilentStop
      simp only [wiredDeps, Bool.false_eq_true, if_false, bind, Except.bind, silentStop]
      simp
    · simp
    · have classified := @classified_cases c a
      obtain ⟨_, h⟩ | ⟨_, h⟩ | ⟨_, _, h⟩ := classified <;> simp [h]

/-- The boot time and the boot flag make no difference to the candidate. -/
theorem handling_eq_iff : handling wiredDeps c a time false = handling wiredDeps c a bootTimeMs true ↔
    Same c a time bootTimeMs := by
  unfold Same
  cases ho : isApiOriginChild c with
  | false => simp [handling, handleCandidate, ho]
  | true =>
    cases hb : inScope wiredDeps c bootTimeMs with
    | false =>
      rw [handling_of_out ho hb]
      cases ht : inScope wiredDeps c time with
      | false => simp [handling_of_out ho ht]
      | true => simp [handling_of_in ht]
    | true =>
      cases ht : inScope wiredDeps c time with
      | false =>
        have differs := handling_of_in (a := a) hb true c.lastActivityMs
        rw [handling_of_out ho ht]
        simp [differs.symm]
      | true =>
        unfold handling handleCandidate
        simp only [ho, hb, ht, Bool.not_true, Bool.false_eq_true, if_false]
        cases a.isSessionBusy with
        | error message => simp [bind, Except.bind]
        | ok busy =>
          cases busy with
          | true => simp [bind, Except.bind]
          | false =>
            by_cases hr : c.runtime = js "pi"
            · simp [hr]
            · -- another runtime: without the flag, the skip of a sweep that is not the boot's
              simp [hr, bind, Except.bind, showSilentStop, wiredDeps, silentStop]

/-- Without the boot flag nothing of another runtime is shown. -/
theorem handling_not_shown (p : SessionGoalProjection) : handling wiredDeps c a time false ≠ .interruptedVisible p := by
  unfold handling handleCandidate
  cases ho : isApiOriginChild c with
  | false => simp
  | true =>
    cases hs : inScope wiredDeps c time with
    | false => simp
    | true =>
      simp only [Bool.not_true, Bool.false_eq_true, if_false]
      cases a.isSessionBusy with
      | error message => simp [bind, Except.bind]
      | ok busy =>
        simp only [bind, Except.bind]
        split_ifs
        · simp
        · simp
        · have classified := @classified_cases c a
          obtain ⟨_, h⟩ | ⟨_, h⟩ | ⟨_, _, h⟩ := classified <;> simp [h]

end Handling

/-! ## The contract -/

/-- The call whose candidate a step handles, with the candidate and the time of its sweep. -/
def State.handles (s : State) : Step → Option (Call × SweepCandidate × JsNumber × CandidateAnswers)
  | .handle i a =>
    match s.calls[i]? with
    | some call =>
      match call.phase with
      | .sweeping (c :: _) time => some (call, c, time, a)
      | _ => none
    | none => none
  | _ => none

/-- The first call of `runSweep` has fulfilled or rejected. -/
def FirstSettled (s : State) : Prop := ∃ call, s.calls.head? = some call ∧ call.phase.isSettled = true

instance (s : State) : Decidable (FirstSettled s) :=
  decidable_of_iff (s.calls.head?.any fun call => call.phase.isSettled) (by
    unfold FirstSettled
    cases s.calls.head? <;> simp)

/-- Each probe that waits goes on to an answer. -/
def ProbesAnswer (s : State) : Prop := ∀ j sessionId a, s.probes[j]? = some (.waiting sessionId) →
  ∃ b, (step s (.answer j a)).probes[j]? = some (.answered b)

/-- The step does what the sweep's contract says. -/
structure Agrees (s : State) (e : Step) : Prop where
  boot : ∀ call c time a, s.handles e = some (call, c, time, a) → call.boot = true →
    (step s e).handled = s.handled ++ [⟨true, c, handling wiredDeps c a s.bootTimeMs true⟩]
  shown : ∀ call c time a, s.handles e = some (call, c, time, a) → call.boot = true →
    inScope wiredDeps c s.bootTimeMs = true → a.isSessionBusy = .ok false → c.runtime ≠ js "pi" → ∀ p q,
    a.runtimeProjection = .ok (some p) → silentStop c (some p) a.now = some q → a.publish = .ok () →
    (step s e).handled = s.handled ++ [⟨true, c, .interruptedVisible q⟩]
  later : ∀ call c time a, s.handles e = some (call, c, time, a) → call.boot = false → ∀ h, (step s e).handled = s.handled ++ [h] →
    ∀ q, h.handling ≠ .interruptedVisible q
  gate : FirstSettled (step s e) → (step s e).classificationSettled = true ∧ ProbesAnswer (step s e)

/-- Each candidate of a boot call is handled the same at the time of its sweep without the flag; and the
    listing of the first call does not throw before a sweep has ended. -/
def Cond (s : State) (e : Step) : Prop :=
  (∀ x ∈ s.handles e, x.1.boot = true → Same x.2.1 x.2.2.2 x.2.2.1 s.bootTimeMs) ∧
  match e with
  | .listed 0 (.error _) => ∀ call ∈ s.calls.head?, call.phase = .listing → s.classificationSettled = true
  | _ => True

instance (s : State) (e : Step) : Decidable (Cond s e) := by
  unfold Cond
  split <;> infer_instance

/-! ## Steps -/

variable {call : Call} {s : State}

theorem handles_cases {e : Step} {c : SweepCandidate} {time : JsNumber} {a : CandidateAnswers}
    (h : s.handles e = some (call, c, time, a)) :
    (step s e).handled = s.handled ++ [⟨call.boot, c, handling wiredDeps c a time false⟩] := by
  cases e with
  | handle i a' =>
    simp only [State.handles] at h
    split at h
    · rename_i call' hcall
      split at h
      · rename_i c' rest time' hphase
        cases h
        simp only [step, hcall, resume, hphase]
        rfl
      · cases h
    · cases h
  | _ => cases h

/-- The gate stays resolved, and a first call that settles resolves it unless its listing has thrown. -/
structure GateInv (s : State) : Prop where
  once : s.classifiedOnce = s.classificationSettled
  gate : FirstSettled s → s.classificationSettled = true

theorem gateInv_start (bootTimeMs : JsNumber) : GateInv { bootTimeMs } where
  once := rfl
  gate h := by
    obtain ⟨call, hc, -⟩ := h
    cases hc

theorem firstSettled_goto {i : ℕ} {phase : CallPhase} (hn : i ≠ 0 ∨ phase.isSettled = false)
    (h : FirstSettled (s.goto i call phase)) : FirstSettled s := by
  obtain ⟨x, hx, hs⟩ := h
  cases i with
  | zero =>
    cases hc : s.calls with
    | nil =>
      simp only [State.goto, hc] at hx
      cases hx
    | cons first rest =>
      simp only [State.goto, hc, set_cons_zero, head?_cons, Option.some.injEq] at hx
      subst hx
      obtain hn | hn := hn
      · exact absurd rfl hn
      · rw [show phase.isSettled = true from hs] at hn
        cases hn
  | succ i =>
    refine ⟨x, ?_, hs⟩
    cases hc : s.calls with
    | nil =>
      simp only [State.goto, hc] at hx
      cases hx
    | cons first rest =>
      simp only [State.goto, hc, set_cons_succ, head?_cons] at hx
      simpa using hx

theorem firstSettled_append (hn : call.phase.isSettled = false)
    (h : FirstSettled { s with calls := s.calls ++ [call] }) : FirstSettled s := by
  obtain ⟨x, hx, hs⟩ := h
  cases hc : s.calls with
  | nil =>
    simp only [hc, nil_append, head?_cons, Option.some.injEq] at hx
    subst hx
    rw [hn] at hs
    cases hs
  | cons first rest =>
    refine ⟨x, ?_, hs⟩
    simpa [hc] using hx

/-- A phase that goes on without settling. -/
theorem gateInv_goto {i : ℕ} {phase : CallPhase} (hi : GateInv s)
    (hn : i ≠ 0 ∨ phase.isSettled = false) : GateInv (s.goto i call phase) where
  once := hi.once
  gate h := hi.gate (firstSettled_goto hn h)

theorem gateInv_settle (hi : s.classifiedOnce = s.classificationSettled) : GateInv s.settle := by
  unfold State.settle
  split_ifs with h
  · exact ⟨hi, fun _ => hi ▸ h⟩
  · exact ⟨rfl, fun _ => rfl⟩

theorem gateInv_resume {i : ℕ} {e : Step} (hi : GateInv s) (hcall : s.calls[i]? = some call)
    (he : e.call = some i) (hc : Cond s e) : GateInv (resume s i call e) := by
  cases e with
  | listed j entries =>
    cases he
    simp only [resume]
    split
    · exact gateInv_goto hi (.inr rfl)
    · rename_i message hp
      by_cases h0 : i = 0
      · subst h0
        have settled : s.classificationSettled = true := by
          refine hc.2 call ?_ hp
          rw [head?_eq_getElem?]
          exact hcall
        exact ⟨hi.once, fun _ => settled⟩
      · exact gateInv_goto hi (.inl h0)
    · exact hi
  | stat j mtime | handle j a =>
    simp only [resume]
    split
    · exact ⟨hi.once, fun h => hi.gate (firstSettled_goto (.inr rfl) h)⟩
    · exact hi
  | run j now =>
    simp only [resume]
    split
    · exact gateInv_goto hi (.inr rfl)
    · exact hi
  | ends j =>
    simp only [resume]
    split
    · exact gateInv_settle hi.once
    · exact hi
  | runSweep | probe | answer => exact hi

theorem gateInv_step (s : State) (e : Step) (hi : GateInv s) (hc : Cond s e) : GateInv (step s e) := by
  cases e with
  | runSweep announced boot => exact ⟨hi.once, fun h => hi.gate (firstSettled_append rfl h)⟩
  | probe sessionId => exact ⟨hi.once, hi.gate⟩
  | answer j a =>
    simp only [step]
    split
    · split_ifs
      · exact ⟨hi.once, hi.gate⟩
      · exact hi
    · exact hi
  | listed i entries | stat i mtime | run i now | handle i a | ends i =>
    simp only [step]
    split
    · rename_i call hcall
      exact gateInv_resume hi hcall rfl hc
    · exact hi

theorem probesAnswer (h : s.classificationSettled = true) : ProbesAnswer s := by
  intro j sessionId a hj
  refine ⟨hasGoalContinueMarker s sessionId a, ?_⟩
  simp only [step, hj, if_pos h]
  rw [List.getElem?_set_self', hj]
  rfl

/-! ## Agreement -/

theorem agrees_of_cond {e : Step} (hi : GateInv s) (hc : Cond s e) : Agrees s e where
  boot call c time a h hb := by
    have same := hc.1 _ h hb
    rw [handles_cases h, hb, handling_eq_iff.mpr same]
  shown call c time a h hb hs hidle hr := by
    have hin : isApiOriginChild c = true := by
      unfold inScope at hs
      exact (Bool.and_eq_true_iff.mp hs).1
    exact absurd ((hc.1 _ h hb hin).2 hs hidle) hr
  later call c time a h _ r hr q := by
    rw [handles_cases h] at hr
    have hr := append_cancel_left hr
    cases hr
    exact handling_not_shown q
  gate h := by
    have settled := (gateInv_step s e hi hc).gate h
    exact ⟨settled, probesAnswer settled⟩

theorem cond_of_agrees {e : Step} (h : Agrees s e) : Cond s e := by
  constructor
  · rintro ⟨call, c, time, a⟩ hx hb
    have hh := h.boot call c time a hx hb
    rw [handles_cases hx, hb] at hh
    have hh := append_cancel_left hh
    simp only [List.cons.injEq, Handled.mk.injEq, true_and, and_true] at hh
    exact handling_eq_iff.mp hh
  · split
    · rename_i message
      intro call hcall hp
      rw [Option.mem_def, head?_eq_getElem?] at hcall
      have after : step s (.listed 0 (.error message)) = s.goto 0 call (.rejected message) := by
        simp only [step, hcall, resume, hp]
      have settled := h.gate
      rw [after] at settled
      apply (settled _).1
      refine ⟨{ call with phase := .rejected message }, ?_, rfl⟩
      simp only [State.goto, head?_eq_getElem?]
      rw [List.getElem?_set_self', hcall]
      rfl
    · trivial

/-- In every run of sweep calls and probes, every step does what the contract says exactly if every
    step meets the condition. -/
theorem boot_sweep_agrees_iff (bootTimeMs : JsNumber) (es : List Step) :
    Run.Along step Agrees { bootTimeMs } es ↔ Run.Along step Cond { bootTimeMs } es :=
  Run.along_iff_of_invariant gateInv_step (fun _ _ hi => ⟨cond_of_agrees, agrees_of_cond hi⟩) (gateInv_start bootTimeMs)

/-- A session of another runtime with a running goal. -/
def claudeEntry : WiringRegistryEntry :=
  { id := js "c1", path := js "/s/c1", sdkType := js "claude", origin := some .internal_api }

def runningAnswers : CandidateAnswers := { runtimeProjection := .ok (some { status := .running }) }

/-- The boot sweep over it. -/
def bootSweep : List Step :=
  [.runSweep .empty true, .listed 0 (.ok [claudeEntry]), .stat 0 (some (.fin 5)), .run 0 (.fin 20), .handle 0 runningAnswers]

/-- A boot sweep whose listing throws, and a probe. -/
def listingThrows : List Step := [.probe (js "c1"), .runSweep .empty true, .listed 0 (.error (js "EIO"))]

/-- The goal is not shown; and after a listing that threw, the probe waits. -/
theorem boot_sweep_hides : (∀ q, ((bootSweep.foldl step { bootTimeMs := .fin 10 }).handled.map (·.handling)) ≠ [.interruptedVisible q]) ∧
    ¬ Run.Along step Agrees { bootTimeMs := .fin 10 } bootSweep ∧ ¬ Run.Along step Agrees { bootTimeMs := .fin 10 } listingThrows := by
  have skipped : (bootSweep.foldl step { bootTimeMs := .fin 10 }).handled.map (·.handling) = [.skipped .notBoot] := by
    decide +kernel
  refine ⟨?_, ?_, ?_⟩
  · intro q h
    rw [skipped] at h
    cases h
  · intro h
    obtain ⟨agrees, -⟩ := (Run.along_append.mp (show Run.Along step Agrees _ (bootSweep.take 4 ++ bootSweep.drop 4) from h)).2
    have shown := agrees.shown _ _ _ _ rfl rfl (by decide +kernel) rfl (by decide) _ _ rfl rfl rfl
    have differs := skipped.symm.trans (congrArg (List.map (·.handling)) shown)
    cases differs
  · intro h
    obtain ⟨agrees, -⟩ := (Run.along_append.mp (show Run.Along step Agrees _ (listingThrows.take 2 ++ listingThrows.drop 2) from h)).2
    have open_gate := (agrees.gate (by decide +kernel)).1
    cases open_gate

end PiWebUi.Goal.Wiring
