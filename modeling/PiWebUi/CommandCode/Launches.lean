/-
  PiWebUi.CommandCode.Launches — a placement launch is cleaned up by its own run.

  `activeLaunch` is one field for every run of the runner, so a run that finishes cleans up
  whatever was launched last. Along a run of the runner every launch is cleaned up once, by
  its own run and after its child, exactly when every finish is `Apart` (`cleaned_iff_apart`).
  Where two placed turns overlap, the first to finish removes the placement of the other's
  live child, and its own is left behind (`a_live_child_loses_its_placement`).
-/

import PiWebUi.CommandCode.ProcessRunner
import PiWebUi.Lib.InFlight
import PiWebUi.Lib.Run

namespace PiWebUi.CommandCode

open PiWebUi.Lib List Option

variable {P : Type}

namespace CommandCodeProcessRunner

/-! ## What a step says about launches -/

/-- What the cleanup of a run's launch depends on. -/
def launchState (c : ProcessRun P) : Bool × Bool × Bool := (c.placed, c.settled, decide (c.child = .none))

/-- A step that launches nothing, finishes nothing and cleans up nothing. -/
structure Quiet (r s : CommandCodeProcessRunner P) : Prop where
  cleanups : s.cleanups = r.cleanups
  activeLaunch : s.activeLaunch = r.activeLaunch
  runs : s.runs.map launchState = r.runs.map launchState

namespace Quiet

variable {r s t : CommandCodeProcessRunner P}

theorem refl (r : CommandCodeProcessRunner P) : Quiet r r := ⟨rfl, rfl, rfl⟩

theorem trans (h : Quiet r s) (h' : Quiet s t) : Quiet r t :=
  ⟨h'.cleanups.trans h.cleanups, h'.activeLaunch.trans h.activeLaunch, h'.runs.trans h.runs⟩

theorem symm (h : Quiet r s) : Quiet s r := ⟨h.cleanups.symm, h.activeLaunch.symm, h.runs.symm⟩

theorem length (h : Quiet r s) : s.runs.length = r.runs.length := by
  have := congrArg List.length h.runs
  simpa using this

theorem run (h : Quiet r s) {i : ℕ} {c : ProcessRun P} (hc : s.runs[i]? = some c) :
    ∃ d, r.runs[i]? = some d ∧ launchState d = launchState c := by
  have hi : (s.runs.map launchState)[i]? = some (launchState c) := by simp [hc]
  rw [h.runs, getElem?_map, map_eq_some_iff] at hi
  exact hi

end Quiet

variable {c d : ProcessRun P} {r s : CommandCodeProcessRunner P} {i : ℕ}

theorem placed_eq (h : launchState d = launchState c) : d.placed = c.placed := congrArg (·.1) h

theorem settled_eq (h : launchState d = launchState c) : d.settled = c.settled := congrArg (·.2.1) h

theorem isOver_eq (h : launchState d = launchState c) : d.isOver = c.isOver := by
  have hs := settled_eq h
  have hn : decide (d.child = .none) = decide (c.child = .none) := congrArg (·.2.2) h
  simp only [ProcessRun.isOver, hs, hn]

theorem Quiet.lastPending (h : Quiet r s) : s.lastPending = r.lastPending := by
  have hl := congrArg List.getLast? h.runs
  rw [getLast?_map, getLast?_map] at hl
  simp only [CommandCodeProcessRunner.lastPending]
  cases hs : s.runs.getLast? with
  | none => cases hr : r.runs.getLast? with
    | none => rfl
    | some d => simp [hs, hr] at hl
  | some c => cases hr : r.runs.getLast? with
    | none => simp [hs, hr] at hl
    | some d =>
      simp only [hs, hr, map_some, some.injEq] at hl
      simp only [any_some, isOver_eq hl.symm, placed_eq hl.symm]

theorem Quiet.finishesAlone (h : Quiet r s) (i : ℕ) : s.finishesAlone i = r.finishesAlone i := by
  simp only [CommandCodeProcessRunner.finishesAlone, h.lastPending, h.length]
  cases hs : s.runs[i]? with
  | some c =>
    obtain ⟨d, hd, hcd⟩ := h.run hs
    simp only [hd, all_some, isOver_eq hcd, placed_eq hcd]
  | none =>
    cases hr : r.runs[i]? with
    | none => rfl
    | some d =>
      obtain ⟨c, hc, -⟩ := h.symm.run hr
      rw [hs] at hc
      cases hc

theorem Quiet.cleaned (h : Quiet r s) (hr : r.CleanedByOwnRun) : s.CleanedByOwnRun := by
  intro i c hc hp
  obtain ⟨d, hd, hcd⟩ := h.run hc
  rw [← isOver_eq hcd, ← hr i d hd ((placed_eq hcd).trans hp)]
  simp only [cleanupsOf, h.cleanups]

theorem quiet_modifyRun (r : CommandCodeProcessRunner P) (i : ℕ) {f : ProcessRun P → ProcessRun P}
    (hf : ∀ c, r.runs[i]? = some c → launchState (f c) = launchState c) : Quiet r (r.modifyRun i f) := by
  exact ⟨rfl, rfl, InFlight.map_modify hf⟩

theorem quiet_killGroup (r : CommandCodeProcessRunner P) (i : ℕ) (signalToSend : Signal) : Quiet r (r.killGroup i signalToSend) := by
  unfold killGroup
  split <;> exact ⟨rfl, rfl, rfl⟩

theorem quiet_terminate (r : CommandCodeProcessRunner P) (i : ℕ) (cause : TerminationCause) : Quiet r (r.terminate i cause) := by
  unfold terminate
  split
  · exact .refl r
  · split
    · exact .refl r
    · exact (quiet_modifyRun r i (f := fun c => { c with terminationCause := some cause }) fun _ _ => rfl).trans
        (quiet_killGroup _ i _)

theorem quiet_stdinFailed (r : CommandCodeProcessRunner P) (i : ℕ) (message : JsString) : Quiet r (r.stdinFailed i message) :=
  (quiet_modifyRun r i (f := fun c => { c with spawnError := some message }) fun _ _ => rfl).trans (quiet_terminate _ i _)

theorem quiet_attach (r : CommandCodeProcessRunner P) (sessionId : JsString) (i : ℕ) (stdin : Option JsString) :
    Quiet r (r.attach sessionId i stdin) := by
  have hs : Quiet r { r with active := r.active.set sessionId i } := ⟨rfl, rfl, rfl⟩
  unfold attach
  cases stdin with
  | none => exact hs
  | some message => exact hs.trans (quiet_stdinFailed _ i message)

theorem quiet_stdout (r : CommandCodeProcessRunner P) (i : ℕ) (rejected : Option JsString) : Quiet r (r.stdout i rejected) := by
  unfold stdout
  split
  · next message _ =>
    split
    · exact .refl r
    · exact (quiet_modifyRun r i (f := fun c => { c with protocolError := some message }) fun _ _ => rfl).trans
        (quiet_terminate _ i _)
  · exact .refl r

theorem quiet_graceTimer (r : CommandCodeProcessRunner P) (i : ℕ) : Quiet r (r.graceTimer i) := by
  unfold graceTimer
  split
  · exact quiet_killGroup r i _
  · exact .refl r

theorem quiet_abort (r : CommandCodeProcessRunner P) (sessionId : JsString) : Quiet r (r.abort sessionId) := by
  unfold abort
  split
  · exact .refl r
  · exact quiet_terminate r _ _

theorem quiet_shutdown (r : CommandCodeProcessRunner P) : Quiet r r.shutdown := by
  unfold shutdown
  induction r.active.values generalizing r with
  | nil => exact .refl r
  | cons i is ih => exact (quiet_terminate r i _).trans (ih _)

/-! ## The invariant -/

/-- The launches are cleaned up by their own runs, and a placed launch is the active one
    while its run is the last and in flight, and no longer. -/
structure Inv (r : CommandCodeProcessRunner P) : Prop where
  cleaned : r.CleanedByOwnRun
  launch : ∀ i c, r.runs[i]? = some c → c.placed = true →
    (r.activeLaunch = some i ↔ i + 1 = r.runs.length ∧ c.isOver = false)
  known : ∀ c ∈ r.cleanups, c.launch < r.runs.length
  active : ∀ i, r.activeLaunch = some i → i < r.runs.length

theorem Quiet.inv (h : Quiet r s) (hr : r.Inv) : s.Inv := by
  refine ⟨h.cleaned hr.cleaned, ?_, ?_, ?_⟩
  · intro i c hc hp
    obtain ⟨d, hd, hcd⟩ := h.run hc
    rw [h.activeLaunch, h.length, ← isOver_eq hcd]
    exact hr.launch i d hd ((placed_eq hcd).trans hp)
  · rw [h.cleanups, h.length]
    exact hr.known
  · rw [h.activeLaunch, h.length]
    exact hr.active

theorem inv_new (maxPromptBytes : ℕ) : (new maxPromptBytes : CommandCodeProcessRunner P).Inv := by
  refine ⟨?_, ?_, ?_, nofun⟩
  · intro i c hc
    cases hc
  · intro i c hc
    cases hc
  · intro c hc
    cases hc

/-! ## A launch -/

theorem run_launched {sessionId : JsString} {placed : Bool} {child : Child}
    (hc : (r.launched sessionId placed child).runs[i]? = some c) :
    r.runs[i]? = some c ∨ i = r.runs.length ∧ c = newRun sessionId placed child :=
  InFlight.get_append hc

/-- No launch has been cleaned up at an index that no run has. -/
theorem filter_new (hr : r.Inv) : r.cleanups.filter (·.launch = r.runs.length) = [] := by
  rw [filter_eq_nil_iff]
  intro c hc heq
  have := hr.known c hc
  have := of_decide_eq_true heq
  omega

theorem inv_launched (hr : r.Inv) (sessionId : JsString) {placed : Bool} {child : Child}
    (h : placed = false ∨ child ≠ .none) : (r.launched sessionId placed child).Inv := by
  have hover : placed = true → (newRun (P := P) sessionId placed child).isOver = false := by
    intro hp
    have hc := h.resolve_left fun h => by cases h.symm.trans hp
    simp [ProcessRun.isOver, ProcessRun.settled, newRun, hc]
  refine ⟨?_, ?_, ?_, ?_⟩
  · intro i c hc hp
    rcases run_launched hc with hc | ⟨rfl, rfl⟩
    · exact hr.cleaned i c hc hp
    · rw [hover hp]
      exact filter_new hr
  · intro i c hc hp
    show some r.runs.length = some i ↔ i + 1 = (r.runs ++ [_]).length ∧ _
    rw [length_append, length_singleton, some.injEq]
    rcases run_launched hc with hc | ⟨rfl, rfl⟩
    · obtain ⟨hlt, -⟩ := List.getElem?_eq_some_iff.mp hc
      constructor
      · intro h
        omega
      · rintro ⟨h, -⟩
        omega
    · simp [hover hp]
  · intro c hc
    have := hr.known c hc
    simp only [launched, length_append, length_singleton]
    omega
  · intro i hi
    cases hi
    simp [launched]

/-- A placed launch whose spawn throws is never cleaned up. -/
theorem not_cleaned_thrown (hr : r.Inv) (sessionId : JsString) : ¬ (r.launched sessionId true .none).CleanedByOwnRun := by
  intro h
  have honce := h r.runs.length (newRun sessionId true .none) (by simp [launched]) rfl
  rw [show (r.launched sessionId true Child.none).cleanupsOf r.runs.length = [] from filter_new hr] at honce
  cases honce

theorem inv_launch (hr : r.Inv) (sessionId : JsString) {placed : Bool} {spawned : SpawnAnswer}
    (stdin : Option JsString) (h : placed = false ∨ ∀ message, spawned ≠ .threw message) :
    (r.launch sessionId placed spawned stdin).Inv := by
  have hl : (r.launched sessionId placed spawned.child).Inv := by
    refine inv_launched hr sessionId (h.imp_right fun hs => ?_)
    cases spawned with
    | threw message => exact absurd rfl (hs message)
    | failed | started => exact nofun
  cases spawned with
  | threw message => exact hl
  | failed | started => exact (quiet_attach _ sessionId _ stdin).inv hl

/-! ## A finish -/

theorem finish_unsettled (hc : r.runs[i]? = some c) (hs : c.settled = false) (finished : Except JsString P) : r.finish i finished =
      { r with
        cleanups := r.cleanup i
        activeLaunch := none
        runs := r.runs.modify i fun c => { c with result := some (resultOf c finished) }
        active := r.active.delete c.sessionId } := by
  simp [finish, hc, hs]

theorem run_finish {j : ℕ} {finished : Except JsString P}
    (hc : r.runs[i]? = some c) (hs : c.settled = false) (hd : (r.finish i finished).runs[j]? = some d) :
    j ≠ i ∧ r.runs[j]? = some d ∨ j = i ∧ d = { c with result := some (resultOf c finished) } := by
  rw [finish_unsettled hc hs] at hd
  rcases InFlight.get_modify hd with ⟨rfl, c', hc', rfl⟩ | hother
  · cases hc.symm.trans hc'
    exact .inr ⟨rfl, rfl⟩
  · exact .inl hother

theorem childLive_of (hc : r.runs[i]? = some c) : r.childLive i = decide (c.child = .live) := by
  simp [childLive, hc]

/-- What the finish of `i` adds to the cleanups of a placed launch. -/
theorem cleanupsOf_finish (hr : r.Inv) {j : ℕ}
    (hc : r.runs[i]? = some c) (hs : c.settled = false) (hd : r.runs[j]? = some d) (hp : d.placed = true)
    (finished : Except JsString P) : (r.finish i finished).cleanupsOf j =
      r.cleanupsOf j ++ if j + 1 = r.runs.length ∧ d.isOver = false then [⟨i, j, decide (d.child = .live)⟩] else [] := by
  rw [finish_unsettled hc hs]
  show (r.cleanup i).filter _ = _
  have hiff := hr.launch j d hd hp
  cases hl : r.activeLaunch with
  | none =>
    have hn : ¬ (j + 1 = r.runs.length ∧ d.isOver = false) := fun h => by
      rw [hiff.mpr h] at hl
      cases hl
    simp [cleanup, hl, hn, cleanupsOf]
  | some l =>
    by_cases hjl : l = j
    · subst hjl
      have hy := hiff.mp hl
      simp only [cleanup, hl, filter_append, if_pos hy, childLive_of hd]
      simp [cleanupsOf]
    · have hn : ¬ (j + 1 = r.runs.length ∧ d.isOver = false) := fun h => by
        rw [hiff.mpr h] at hl
        exact hjl (some.inj hl).symm
      simp [cleanup, hl, hn, cleanupsOf, hjl]

/-- The placed run in flight that was launched last. -/
theorem pending_of_lastPending (h : r.lastPending = true) :
    ∃ j d, r.runs[j]? = some d ∧ j + 1 = r.runs.length ∧ d.placed = true ∧ d.isOver = false := by
  simp only [lastPending, getLast?_eq_getElem?, Option.any_eq_true] at h
  obtain ⟨d, hd, hcond⟩ := h
  obtain ⟨hlt, -⟩ := List.getElem?_eq_some_iff.mp hd
  simp only [Bool.and_eq_true, Bool.not_eq_true'] at hcond
  exact ⟨_, d, hd, by omega, hcond.1, hcond.2⟩

theorem lastPending_of {j : ℕ} (hd : r.runs[j]? = some d)
    (hj : j + 1 = r.runs.length) (hp : d.placed = true) (ho : d.isOver = false) : r.lastPending = true := by
  have hl : r.runs.getLast? = some d := by
    rw [getLast?_eq_getElem?, ← hj]
    exact hd
  simp [lastPending, hl, hp, ho]

theorem finishesAlone_iff (hc : r.runs[i]? = some c) (hs : c.isOver = false) :
    r.finishesAlone i = true ↔ (c.placed = true → i + 1 = r.runs.length) ∧ (c.placed = false → r.lastPending = false) := by
  cases hp : c.placed <;> simp [finishesAlone, hc, hs, hp]

section

variable (hr : r.Inv) (hc : r.runs[i]? = some c) (hs : c.isOver = false) (halone : r.finishesAlone i = true)
  (hlive : c.placed = false ∨ c.child ≠ .live) (finished : Except JsString P)
include hr hc hs halone hlive finished

theorem cleaned_finish : (r.finish i finished).CleanedByOwnRun := by
  have hset : c.settled = false := (Bool.or_eq_false_iff.mp hs).1
  obtain ⟨hplaced, hunplaced⟩ := (finishesAlone_iff hc hs).mp halone
  intro j d hd hp
  rcases run_finish hc hset hd with ⟨hne, hd⟩ | ⟨rfl, rfl⟩
  · -- another run's launch: the finish does not touch it
    have hn : ¬ (j + 1 = r.runs.length ∧ d.isOver = false) := by
      intro ⟨hj, ho⟩
      cases hpc : c.placed with
      | true =>
        have := hplaced hpc
        omega
      | false =>
        rw [lastPending_of hd hj hp ho] at hunplaced
        cases hunplaced hpc
    rw [cleanupsOf_finish hr hc hset hd hp, if_neg hn, append_nil]
    exact hr.cleaned j d hd hp
  · have hp : c.placed = true := hp
    have hdead : c.child ≠ .live := hlive.resolve_left fun h => by cases h.symm.trans hp
    have hy : j + 1 = r.runs.length ∧ c.isOver = false := ⟨hplaced hp, hs⟩
    rw [cleanupsOf_finish hr hc hset hc hp, if_pos hy, hr.cleaned j c hc hp, hs]
    simp [ProcessRun.isOver, ProcessRun.settled, hdead]

theorem inv_finish : (r.finish i finished).Inv := by
  have hset : c.settled = false := (Bool.or_eq_false_iff.mp hs).1
  obtain ⟨hplaced, hunplaced⟩ := (finishesAlone_iff hc hs).mp halone
  obtain ⟨hlt, -⟩ := List.getElem?_eq_some_iff.mp hc
  refine ⟨cleaned_finish hr hc hs halone hlive finished, ?_, ?_, ?_⟩
  · -- no launch is active after it, and no placed run in flight was launched last
    intro j d hd hp
    have hactive : (r.finish i finished).activeLaunch = none := by rw [finish_unsettled hc hset]
    have hlength : (r.finish i finished).runs.length = r.runs.length := by
      rw [finish_unsettled hc hset]
      exact length_modify ..
    rw [hactive, hlength]
    refine ⟨nofun, fun ⟨hj, ho⟩ => ?_⟩
    rcases run_finish hc hset hd with ⟨hne, hd⟩ | ⟨rfl, rfl⟩
    · cases hpc : c.placed with
      | true =>
        have := hplaced hpc
        omega
      | false =>
        rw [lastPending_of hd hj hp ho] at hunplaced
        cases hunplaced hpc
    · cases ho
  · intro cl hcl
    rw [finish_unsettled hc hset] at hcl ⊢
    simp only [length_modify]
    have hcl : cl ∈ r.cleanup i := hcl
    unfold cleanup at hcl
    split at hcl
    · next l hl =>
      rcases mem_append.mp hcl with h | h
      · exact hr.known cl h
      · cases mem_singleton.mp h
        exact hr.active l hl
    · exact hr.known cl hcl
  · rw [finish_unsettled hc hset]
    exact nofun

end

/-- A finish that leaves the launches cleaned up by their own runs was alone, and its child
    was not alive. -/
theorem alone_of_cleaned (hr : r.Inv) (hc : r.runs[i]? = some c)
    (hs : c.isOver = false) {finished : Except JsString P} (h : (r.finish i finished).CleanedByOwnRun) :
    r.finishesAlone i = true ∧ (c.placed = false ∨ c.child ≠ .live) := by
  have hset : c.settled = false := (Bool.or_eq_false_iff.mp hs).1
  rw [finishesAlone_iff hc hs]
  cases hp : c.placed with
  | true =>
    have hrun : (r.finish i finished).runs[i]? = some { c with result := some (resultOf c finished) } := by
      rw [finish_unsettled hc hset]
      simp [hc]
    have hone := h i _ hrun hp
    rw [cleanupsOf_finish hr hc hset hc hp, hr.cleaned i c hc hp, hs] at hone
    by_cases hi : i + 1 = r.runs.length
    · refine ⟨⟨fun _ => hi, nofun⟩, .inr ?_⟩
      simpa [hi, ProcessRun.isOver, ProcessRun.settled] using hone
    · simp [hi, ProcessRun.isOver, ProcessRun.settled] at hone
  | false =>
    refine ⟨⟨nofun, fun _ => ?_⟩, .inl rfl⟩
    by_contra hl
    -- the placed launch still in flight would be cleaned up by this run
    obtain ⟨j, d, hd, hj, hpd, hod⟩ := pending_of_lastPending (by simpa using hl)
    have hne : i ≠ j := by
      rintro rfl
      cases hc.symm.trans hd
      cases hp.symm.trans hpd
    have hrun : (r.finish i finished).runs[j]? = some d := by
      rw [finish_unsettled hc hset]
      simp [hne, hd]
    have hnone := h j d hrun hpd
    have hy : j + 1 = r.runs.length ∧ d.isOver = false := ⟨hj, hod⟩
    rw [cleanupsOf_finish hr hc hset hd hpd, if_pos hy, hr.cleaned j d hd hpd, hod] at hnone
    simp at hnone

theorem finish_over (hc : r.runs[i]? = some c)
    (hs : c.settled = true) (finished : Except JsString P) : r.finish i finished = r := by
  simp [finish, hc, hs]

theorem listens_iff (hc : r.runs[i]? = some c) : r.listens i = true ↔ c.child ≠ .none := by
  simp [listens, hc]

theorem finishesAlone_over (h : ∀ c, r.runs[i]? = some c → c.isOver = true) : r.finishesAlone i = true := by
  simp only [finishesAlone, Option.all_eq_true]
  intro c hc
  simp [h c hc]

/-- What a child reports (`f`) before its run finishes: when the launches stay with their runs. -/
theorem cleaned_report (hr : r.Inv) {f : ProcessRun P → ProcessRun P}
    (hl : r.listens i = true) (hf : ∀ c, r.runs[i]? = some c → launchState (f c) = launchState c) (finished : Except JsString P) :
    (((r.modifyRun i f).finish i finished).CleanedByOwnRun ↔ r.finishesAlone i = true ∧
      ∀ c, r.runs[i]? = some c → c.isOver = true ∨ c.placed = false ∨ (f c).child ≠ .live) ∧
    (((r.modifyRun i f).finish i finished).CleanedByOwnRun → ((r.modifyRun i f).finish i finished).Inv) := by
  have hq : Quiet r (r.modifyRun i f) := quiet_modifyRun r i hf
  have hq' := hq.inv hr
  obtain ⟨c, hc⟩ : ∃ c, r.runs[i]? = some c := by
    cases hc : r.runs[i]? with
    | none => simp [listens, hc] at hl
    | some c => exact ⟨c, rfl⟩
  have hfc := hf c hc
  have hc' : (r.modifyRun i f).runs[i]? = some (f c) := by simp [modifyRun, hc]
  cases hs : c.settled with
  | true =>
    have hover : c.isOver = true := by simp [ProcessRun.isOver, hs]
    rw [finish_over hc' ((settled_eq hfc).trans hs)]
    refine ⟨⟨fun _ => ⟨?_, ?_⟩, fun _ => hq'.cleaned⟩, fun _ => hq'⟩
    · refine finishesAlone_over fun d hd => ?_
      cases hc.symm.trans hd
      exact hover
    · intro d hd
      cases hc.symm.trans hd
      exact .inl hover
  | false =>
    have hover : c.isOver = false := by
      have hn := (listens_iff hc).mp hl
      simp [ProcessRun.isOver, hs, hn]
    have hover' : (f c).isOver = false := (isOver_eq hfc).trans hover
    rw [← hq.finishesAlone i]
    have hiff : ((r.modifyRun i f).finish i finished).CleanedByOwnRun ↔
        (r.modifyRun i f).finishesAlone i = true ∧ ((f c).placed = false ∨ (f c).child ≠ .live) :=
      ⟨alone_of_cleaned hq' hc' hover', fun h => (inv_finish hq' hc' hover' h.1 h.2 finished).cleaned⟩
    constructor
    · rw [hiff, placed_eq hfc]
      refine and_congr_right fun _ => ⟨fun h d hd => ?_, fun h => ?_⟩
      · cases hc.symm.trans hd
        exact .inr h
      · exact (h c hc).resolve_left (by simp [hover])
    · intro h
      have halone := hiff.mp h
      exact inv_finish hq' hc' hover' halone.1 halone.2 finished

/-- A run that listens to no child has nothing to finish. -/
theorem over_of_not_listens (h : r.listens i = false) (hc : r.runs[i]? = some c) : c.isOver = true := by
  have hn : ¬ c.child ≠ .none := fun hn => by
    rw [(listens_iff hc).mpr hn] at h
    cases h
  simp [ProcessRun.isOver, not_ne_iff.mp hn]

/-! ## Every step -/

theorem close_spec (hr : r.Inv) (i : ℕ) (code : Option ℤ) (signal : Option JsString) (finished : Except JsString P) :
    ((r.close i code signal finished).CleanedByOwnRun ↔ r.finishesAlone i = true) ∧
    ((r.close i code signal finished).CleanedByOwnRun → (r.close i code signal finished).Inv) := by
  unfold close
  cases hl : r.listens i with
  | false => exact ⟨⟨fun _ => finishesAlone_over fun _ => over_of_not_listens hl, fun _ => hr.cleaned⟩, fun _ => hr⟩
  | true =>
    obtain ⟨hiff, hinv⟩ := cleaned_report hr (f := fun c => { c with child := .ended, exitCode := code, signal := signal }) hl
      (by
        intro c hc
        have hn := (listens_iff hc).mp hl
        simp [launchState, ProcessRun.settled, hn]) finished
    refine ⟨hiff.trans ⟨And.left, fun h => ⟨h, fun _ _ => .inr (.inr nofun)⟩⟩, hinv⟩

theorem childError_spec (hr : r.Inv) (i : ℕ) (message : JsString) (finished : Except JsString P) :
    ((r.childError i message finished).CleanedByOwnRun ↔ r.finishesAlone i = true ∧
      ∀ c, r.runs[i]? = some c → c.isOver = true ∨ c.placed = false ∨ c.child ≠ .live) ∧
    ((r.childError i message finished).CleanedByOwnRun → (r.childError i message finished).Inv) := by
  unfold childError
  cases hl : r.listens i with
  | false =>
    have hover : ∀ c, r.runs[i]? = some c → c.isOver = true := fun _ => over_of_not_listens hl
    exact ⟨⟨fun _ => ⟨finishesAlone_over hover, fun c hc => .inl (hover c hc)⟩, fun _ => hr.cleaned⟩, fun _ => hr⟩
  | true => exact cleaned_report hr (f := fun c => { c with spawnError := some message }) hl (fun _ _ => rfl) finished

theorem launch_spec (hr : r.Inv) (sessionId : JsString) (placed : Bool) (spawned : SpawnAnswer) (stdin : Option JsString) :
    ((r.launch sessionId placed spawned stdin).CleanedByOwnRun ↔ placed = false ∨ ∀ message, spawned ≠ .threw message) ∧
    ((r.launch sessionId placed spawned stdin).CleanedByOwnRun → (r.launch sessionId placed spawned stdin).Inv) := by
  have hiff : (r.launch sessionId placed spawned stdin).CleanedByOwnRun ↔ placed = false ∨ ∀ message, spawned ≠ .threw message := by
    refine ⟨fun h => ?_, fun h => (inv_launch hr sessionId stdin h).cleaned⟩
    cases spawned with
    | failed | started => exact .inr nofun
    | threw message =>
      cases placed with
      | false => exact .inl rfl
      | true => exact absurd h (not_cleaned_thrown hr sessionId)
  exact ⟨hiff, fun h => inv_launch hr sessionId stdin (hiff.mp h)⟩

theorem run_spec (hr : r.Inv) (input : CommandCodeProcessRunInput)
    (args : Except JsString (List JsString)) (plan : PlanAnswer) (spawned : SpawnAnswer) (stdin : Option JsString) :
    ((r.run input args plan spawned stdin).CleanedByOwnRun ↔
      (r.refusal input args).isSome ∨ plan ≠ .placed ∨ ∀ message, spawned ≠ .threw message) ∧
    ((r.run input args plan spawned stdin).CleanedByOwnRun → (r.run input args plan spawned stdin).Inv) := by
  unfold run
  by_cases href : (r.refusal input args).isSome = true
  · rw [if_pos href]
    exact ⟨⟨fun _ => .inl href, fun _ => hr.cleaned⟩, fun _ => hr⟩
  · rw [if_neg href]
    cases plan with
    | threw message => exact ⟨⟨fun _ => .inr (.inl nofun), fun _ => hr.cleaned⟩, fun _ => hr⟩
    | unplaced =>
      obtain ⟨hiff, hinv⟩ := launch_spec hr input.sessionId false spawned stdin
      exact ⟨⟨fun _ => .inr (.inl nofun), fun _ => hiff.mpr (.inl rfl)⟩, hinv⟩
    | placed =>
      obtain ⟨hiff, hinv⟩ := launch_spec hr input.sessionId true spawned stdin
      refine ⟨hiff.trans ⟨fun h => .inr (.inr (h.resolve_left nofun)), fun h => .inr ?_⟩, hinv⟩
      exact (h.resolve_left href).resolve_left fun hp => hp rfl

theorem quiet_spec (hr : r.Inv) (h : Quiet r s) : (s.CleanedByOwnRun ↔ True) ∧ (s.CleanedByOwnRun → s.Inv) :=
  ⟨⟨fun _ => trivial, fun _ => h.cleaned hr.cleaned⟩, fun _ => h.inv hr⟩

/-- One step: the launches stay with their runs exactly when it keeps them apart. -/
theorem step_spec (hr : r.Inv) (e : RunnerEvent P) :
    ((r.step e).CleanedByOwnRun ↔ r.Apart e) ∧ ((r.step e).CleanedByOwnRun → (r.step e).Inv) := by
  cases e with
  | run input args plan spawned stdin => exact run_spec hr input args plan spawned stdin
  | stdout i rejected => exact quiet_spec hr (quiet_stdout r i rejected)
  | stdinError i message => exact quiet_spec hr (quiet_stdinFailed r i message)
  | childError i message finished => exact childError_spec hr i message finished
  | close i code signal finished => exact close_spec hr i code signal finished
  | wallTimer i => exact quiet_spec hr (quiet_terminate r i .timeout)
  | graceTimer i => exact quiet_spec hr (quiet_graceTimer r i)
  | abort sessionId => exact quiet_spec hr (quiet_abort r sessionId)
  | shutdown => exact quiet_spec hr (quiet_shutdown r)

/-- Along a run of the runner, each placed launch is cleaned up once, after its child and by
    its own run, exactly when every finish is alone, no placed spawn throws and no error
    event finds a placed child alive. -/
theorem cleaned_iff_apart (maxPromptBytes : ℕ) (es : List (RunnerEvent P)) :
    (∀ fs, fs <+: es → (fs.foldl step (new maxPromptBytes)).CleanedByOwnRun) ↔ Run.Along step Apart (new maxPromptBytes) es := by
  rw [← Run.along_after_iff (inv_new maxPromptBytes).cleaned]
  refine Run.along_iff_of_invariant (I := Inv) ?_ ?_ (inv_new maxPromptBytes)
  · intro r e hr hc
    exact (step_spec hr e).2 ((step_spec hr e).1.mpr hc)
  · intro r e hr
    exact (step_spec hr e).1

/-! ## Two turns at once -/

def placedRun (sessionId : String) : RunnerEvent Unit := .run ⟨js sessionId, js "go"⟩ (.ok []) .placed .started none

/-- Two sessions run at once; the first to end removes the placement of the second, whose
    child is alive, and leaves its own behind. -/
theorem a_live_child_loses_its_placement :
    (([placedRun "a", placedRun "b", .close 0 (some 0) none (.ok ())].foldl step (new 100)).cleanups = [⟨0, 1, true⟩]) ∧
    ¬ ∀ (maxPromptBytes : ℕ) (es : List (RunnerEvent Unit)) (fs : List (RunnerEvent Unit)), fs <+: es →
      (fs.foldl step (new maxPromptBytes)).CleanedByOwnRun := by
  have hcl : ([placedRun "a", placedRun "b", .close 0 (some 0) none (.ok ())].foldl step (new 100)).cleanups = [⟨0, 1, true⟩] := by
    decide
  refine ⟨hcl, fun h => ?_⟩
  have hone := h 100 _ _ (prefix_refl [placedRun "a", placedRun "b", .close 0 (some 0) none (.ok ())]) 1
    (newRun (js "b") true .live) (by decide) rfl
  rw [cleanupsOf, hcl] at hone
  cases hone

end CommandCodeProcessRunner

end PiWebUi.CommandCode
