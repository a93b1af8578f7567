/-
  PiWebUi.Pi.BudgetOnce — budgets are enforced once per run.

  Of an event both guards do the same: the counters of the run are those after it, and
  where one of them is above its cap the run is breached (`observeBy`). What there is of
  one run (`RunView`) changes by its own events and the settlements of its own aborts
  (`view_own`), so every run is as if the guard had seen no other; of a run alone `Sound`
  says at each moment what was emitted and what was issued.
-/

import PiWebUi.Pi.BudgetGuard

namespace PiWebUi.Pi.Budget

open PiWebUi.Lib BudgetGuard List

variable {κ β : Type}

/-! ## Steps -/

inductive Step where
  | observe (event : Json)
  | settle (run attempt : ℕ) (resolves : Bool)

def step (observe : BudgetGuard κ β → Json → BudgetGuard κ β) (g : BudgetGuard κ β) : Step → BudgetGuard κ β
  | .observe event => observe g event
  | .settle run attempt resolves => g.settle run attempt resolves

/-- A guard whose run is the `n`-th, and that has seen nothing. -/
def startAt (zero : κ) (n : ℕ) : BudgetGuard κ β := { runs := fun _ => freshRun zero, current := n }

/-- The events of run `n` and the settlements of its aborts, where the run under way is `current`. -/
def own (n : ℕ) : ℕ → List Step → List Step
  | _, [] => []
  | current, .observe event :: rest =>
    if isAgentStart event then own n (current + 1) rest
    else if current = n then .observe event :: own n current rest
    else own n current rest
  | current, .settle run attempt resolves :: rest =>
    if run = n then .settle run attempt resolves :: own n current rest else own n current rest

def Step.event : Step → Option Json
  | .observe event => some event
  | .settle _ _ _ => none

/-- The events between two `agent_start`. -/
def eventsOf (n : ℕ) (steps : List Step) : List Json := (own n 0 steps).filterMap Step.event

/-! ## What there is of one run -/

def ofRun {α : Type} (n : ℕ) (xs : List (ℕ × α)) : List α := (xs.filter (·.1 = n)).map (·.2)

theorem ofRun_append_same {α : Type} (n : ℕ) (xs : List (ℕ × α)) (x : α) : ofRun n (xs ++ [(n, x)]) = ofRun n xs ++ [x] := by
  simp [ofRun]

theorem ofRun_append_ne {α : Type} {n m : ℕ} (hne : m ≠ n) (xs : List (ℕ × α)) (x : α) : ofRun n (xs ++ [(m, x)]) = ofRun n xs := by
  simp [ofRun, hne]

theorem mem_ofRun {α : Type} {n : ℕ} {xs : List (ℕ × α)} {x : α} : x ∈ ofRun n xs ↔ (n, x) ∈ xs := by
  simp [ofRun]

theorem ofRun_erase_ne {n m a : ℕ} (hne : m ≠ n) (xs : List (ℕ × ℕ)) : ofRun n (xs.erase (m, a)) = ofRun n xs := by
  unfold ofRun
  rw [← erase_filter, erase_of_not_mem]
  intro hmem
  exact hne (of_decide_eq_true (mem_filter.mp hmem).2)

theorem ofRun_erase_same (n a : ℕ) (xs : List (ℕ × ℕ)) : ofRun n (xs.erase (n, a)) = (ofRun n xs).erase a := by
  induction xs with
  | nil => rfl
  | cons x xs ih =>
    obtain ⟨m, b⟩ := x
    by_cases hm : m = n
    · subst hm
      by_cases hb : b = a
      · subst hb
        simp [ofRun]
      · simp only [ofRun] at ih ⊢
        simp [hb, ih]
    · simp only [ofRun] at ih ⊢
      simp [hm, ih]

structure RunView (κ β : Type) where
  run : BudgetRunState κ
  emitted : List β
  aborts : List ℕ
  pending : List ℕ
  resolved : ℕ

namespace RunView

def count (v : RunView κ β) (counters : κ) : RunView κ β := { v with run := { v.run with counters } }

def emitOnce (v : RunView κ β) (reason : β) : RunView κ β :=
  if v.run.syntheticEmitted then v
  else { v with run := { v.run with syntheticEmitted := true }, emitted := v.emitted ++ [reason] }

def abort (v : RunView κ β) : RunView κ β :=
  if v.run.abortInFlight then v
  else
    { v with
      run := { v.run with abortAttempts := v.run.abortAttempts + 1, abortInFlight := true }
      aborts := v.aborts ++ [v.run.abortAttempts + 1]
      pending := v.pending ++ [v.run.abortAttempts + 1] }

def settle (v : RunView κ β) (attempt : ℕ) (resolves : Bool) : RunView κ β :=
  if attempt ∈ v.pending then
    { v with
      run := { v.run with abortInFlight := false, breached := v.run.breached || resolves || decide (MAX_ABORT_ATTEMPTS ≤ attempt) }
      pending := v.pending.erase attempt
      resolved := v.resolved + resolves.toNat }
  else v

end RunView

namespace BudgetGuard

variable {g g' : BudgetGuard κ β} {n m : ℕ}

def view (g : BudgetGuard κ β) (n : ℕ) : RunView κ β where
  run := g.runs n
  emitted := ofRun n g.emitted
  aborts := ofRun n g.aborts
  pending := ofRun n g.pending
  resolved := g.resolved.count n

theorem view_count_same (counters : κ) : (g.count counters).view g.current = (g.view g.current).count counters := by
  simp [view, count, setRun, run, RunView.count]

theorem view_count_ne (hne : g.current ≠ n) (counters : κ) : (g.count counters).view n = g.view n := by
  simp [view, count, setRun, Function.update_of_ne hne.symm]

theorem view_emitOnce_same (reason : β) : (g.emitOnce reason).view g.current = (g.view g.current).emitOnce reason := by
  unfold emitOnce RunView.emitOnce
  cases hemitted : g.run.syntheticEmitted with
  | true => simp [view, run] at hemitted ⊢; simp [hemitted]
  | false => simp [view, run, setRun, ofRun_append_same] at hemitted ⊢; simp [hemitted]

theorem view_emitOnce_ne (hne : g.current ≠ n) (reason : β) : (g.emitOnce reason).view n = g.view n := by
  unfold emitOnce
  split
  · rfl
  · simp [view, setRun, Function.update_of_ne hne.symm, ofRun_append_ne hne]

theorem view_abort_same : g.abort.view g.current = (g.view g.current).abort := by
  unfold abort RunView.abort
  cases hflight : g.run.abortInFlight with
  | true => simp [view, run] at hflight ⊢; simp [hflight]
  | false => simp [view, run, setRun, ofRun_append_same] at hflight ⊢; simp [hflight]

theorem view_abort_ne (hne : g.current ≠ n) : g.abort.view n = g.view n := by
  unfold abort
  split
  · rfl
  · simp [view, setRun, Function.update_of_ne hne.symm, ofRun_append_ne hne]

theorem emitOnce_current (reason : β) : (g.emitOnce reason).current = g.current := by
  unfold emitOnce
  split <;> rfl

theorem abort_current : g.abort.current = g.current := by
  unfold abort
  split <;> rfl

theorem settle_current (attempt : ℕ) (resolves : Bool) : (g.settle m attempt resolves).current = g.current := by
  unfold settle
  split
  · split
    · rfl
    · split <;> rfl
  · rfl

theorem view_settle_ne (hne : m ≠ n) (attempt : ℕ) (resolves : Bool) : (g.settle m attempt resolves).view n = g.view n := by
  unfold settle
  split
  · split
    · simp [view, setRun, ofRun_erase_ne hne, hne.symm, hne]
    · split <;> simp [view, setRun, Function.update_of_ne hne.symm, ofRun_erase_ne hne]
  · rfl

theorem view_settle_same (attempt : ℕ) (resolves : Bool) : (g.settle n attempt resolves).view n = (g.view n).settle attempt resolves := by
  unfold settle RunView.settle
  simp only [view, mem_ofRun]
  by_cases hpending : (n, attempt) ∈ g.pending
  · rw [if_pos hpending, if_pos hpending]
    cases resolves with
    | true => simp [setRun, ofRun_erase_same]
    | false =>
      by_cases hmax : MAX_ABORT_ATTEMPTS ≤ attempt <;> simp [setRun, ofRun_erase_same, hmax]
  · rw [if_neg hpending, if_neg hpending]

theorem breach_current (reason : β) : (g.breach reason).current = g.current := by
  rw [breach, abort_current, emitOnce_current]

theorem view_breach_same (reason : β) : (g.breach reason).view g.current = ((g.view g.current).emitOnce reason).abort := by
  have h := (g.emitOnce reason).view_abort_same
  rw [emitOnce_current, view_emitOnce_same] at h
  exact h

theorem view_breach_ne (hne : g.current ≠ n) (reason : β) : (g.breach reason).view n = g.view n := by
  rw [breach, view_abort_ne (by rw [emitOnce_current]; exact hne), view_emitOnce_ne hne]

theorem count_run : g.count g.run.counters = g := by
  simp [count, setRun, run]

end BudgetGuard

/-! ## What a guard does of an event -/

/-- Of an event of a run: the counters after it, and why the run is breached. -/
structure BudgetRule (κ β : Type) where
  zero : κ
  tally : κ → Json → κ × Option β

namespace BudgetGuard

variable {g : BudgetGuard κ β} {n : ℕ}

def tell (g : BudgetGuard κ β) (t : κ × Option β) : BudgetGuard κ β :=
  match t.2 with
  | none => g.count t.1
  | some reason => (g.count t.1).breach reason

theorem tell_current (t : κ × Option β) : (g.tell t).current = g.current := by
  unfold tell
  cases t.2 with
  | none => rfl
  | some reason => exact breach_current reason

theorem tell_nothing (g : BudgetGuard κ β) : g.tell (g.run.counters, none) = g := count_run

theorem tell_ite (g : BudgetGuard κ β) (k : κ) (c : Prop) [Decidable c] (reason : β) :
    g.tell (k, if c then some reason else none) = if c then (g.count k).breach reason else g.count k := by
  by_cases h : c
  · rw [if_pos h, if_pos h]
    rfl
  · rw [if_neg h, if_neg h]
    rfl

theorem view_tell_ne (hne : g.current ≠ n) (t : κ × Option β) : (g.tell t).view n = g.view n := by
  unfold tell
  cases t.2 with
  | none => exact view_count_ne hne t.1
  | some reason => exact (view_breach_ne (g := g.count t.1) hne reason).trans (view_count_ne hne t.1)

end BudgetGuard

def RunView.tell (v : RunView κ β) (t : κ × Option β) : RunView κ β :=
  match t.2 with
  | none => v.count t.1
  | some reason => ((v.count t.1).emitOnce reason).abort

theorem BudgetGuard.view_tell_same {g : BudgetGuard κ β} (t : κ × Option β) : (g.tell t).view g.current = (g.view g.current).tell t := by
  unfold tell RunView.tell
  cases t.2 with
  | none => exact view_count_same t.1
  | some reason =>
    have h := (g.count t.1).view_breach_same reason
    rw [show (g.count t.1).current = g.current from rfl, view_count_same] at h
    exact h

section

variable (R : BudgetRule κ β)

def observeBy (g : BudgetGuard κ β) (event : Json) : BudgetGuard κ β :=
  if isAgentStart event then g.startRun R.zero
  else if g.run.breached then g
  else g.tell (R.tally g.run.counters event)

def RunView.observe (v : RunView κ β) (event : Json) : RunView κ β :=
  if v.run.breached then v else v.tell (R.tally v.run.counters event)

end

section

variable {R : BudgetRule κ β} {g g' : BudgetGuard κ β} {n : ℕ} {event : Json}

theorem observe_start (hstart : isAgentStart event = true) : observeBy R g event = g.startRun R.zero := by
  rw [observeBy, if_pos hstart]

theorem observe_current (hstart : isAgentStart event = false) : (observeBy R g event).current = g.current := by
  rw [observeBy, if_neg (by simp [hstart])]
  split
  · rfl
  · exact tell_current _

theorem view_observe_same (hstart : isAgentStart event = false) :
    (observeBy R g event).view g.current = (g.view g.current).observe R event := by
  rw [observeBy, if_neg (by simp [hstart]), RunView.observe]
  by_cases hbreached : g.run.breached = true
  · rw [if_pos hbreached]
    exact (if_pos hbreached).symm
  · rw [if_neg hbreached]
    exact (view_tell_same _).trans (if_neg hbreached).symm

theorem view_observe_ne (hstart : isAgentStart event = false) (hne : g.current ≠ n) : (observeBy R g event).view n = g.view n := by
  rw [observeBy, if_neg (by simp [hstart])]
  split
  · rfl
  · exact view_tell_ne hne _

theorem view_startRun_ne (hne : g.current + 1 ≠ n) (zero : κ) : (g.startRun zero).view n = g.view n := by
  simp [BudgetGuard.view, startRun, Function.update_of_ne hne.symm]

theorem view_startRun_fresh {zero : κ} (hfresh : (g.view n).run = freshRun zero) : (g.startRun zero).view n = g.view n := by
  by_cases hn : g.current + 1 = n
  · subst hn
    have hrun : g.runs (g.current + 1) = freshRun zero := hfresh
    simp [BudgetGuard.view, startRun, hrun]
  · exact view_startRun_ne hn zero

/-- What there is of a run is what its own events and settlements make of it. -/
theorem view_own (n : ℕ) (steps : List Step) (hview : g.view n = g'.view n) (hcurrent : g'.current = n)
    (hahead : g.current < n → (g.view n).run = freshRun R.zero ∧ (g.view n).pending = []) :
    (steps.foldl (step (observeBy R)) g).view n = ((own n g.current steps).foldl (step (observeBy R)) g').view n := by
  induction steps generalizing g g' with
  | nil => exact hview
  | cons s steps ih =>
    rw [foldl_cons]
    cases s with
    | observe event =>
      simp only [step]
      by_cases hstart : isAgentStart event = true
      · rw [own, if_pos hstart, observe_start hstart]
        -- a run that is yet to come is fresh, so that starting it changes nothing
        have hsame : (g.startRun R.zero).view n = g.view n := by
          by_cases hn : g.current + 1 = n
          · exact view_startRun_fresh (hahead (by omega)).1
          · exact view_startRun_ne hn R.zero
        refine ih (g := g.startRun R.zero) (hsame.trans hview) hcurrent ?_
        intro hlt
        rw [hsame]
        have hlt' : g.current + 1 < n := hlt
        exact hahead (by omega)
      · have hstart' : isAgentStart event = false := Bool.not_eq_true _ |>.mp hstart
        rw [own, if_neg hstart, ← observe_current (R := R) (g := g) hstart']
        by_cases hn : g.current = n
        · rw [if_pos ((observe_current hstart').trans hn), foldl_cons]
          apply ih
          · subst hn
            simp only [step]
            rw [view_observe_same hstart', hview, ← hcurrent, view_observe_same hstart']
          · exact (observe_current hstart').trans hcurrent
          · intro hlt
            rw [observe_current hstart'] at hlt
            omega
        · rw [if_neg (by rw [observe_current hstart']; exact hn)]
          apply ih
          · rw [view_observe_ne hstart' hn]
            exact hview
          · exact hcurrent
          · intro hlt
            rw [observe_current hstart'] at hlt
            rw [view_observe_ne hstart' hn]
            exact hahead hlt
    | settle m attempt resolves =>
      simp only [step]
      rw [own, ← settle_current (g := g) (m := m) attempt resolves]
      by_cases hm : m = n
      · subst hm
        rw [if_pos rfl, foldl_cons]
        apply ih
        · simp only [step]
          rw [view_settle_same, view_settle_same, hview]
        · exact (settle_current _ _).trans hcurrent
        · intro hlt
          rw [settle_current] at hlt
          obtain ⟨hfresh, hpending⟩ := hahead hlt
          rw [view_settle_same, RunView.settle, hpending, if_neg (not_mem_nil)]
          exact ⟨hfresh, hpending⟩
      · rw [if_neg hm]
        apply ih
        · rw [view_settle_ne hm]
          exact hview
        · exact hcurrent
        · intro hlt
          rw [settle_current] at hlt
          rw [view_settle_ne hm]
          exact hahead hlt

end

/-! ## A run alone -/

/-- What the counters of a run are to be, and when one of them is above its cap. -/
structure Meter (κ : Type) where
  zero : κ
  count : κ → Json → κ
  Exceeds : κ → Prop

def Meter.after (m : Meter κ) (done : List Json) : κ := done.foldl m.count m.zero

/-- A counter was above its cap at one of the events. -/
def Meter.Exceeded (m : Meter κ) (done : List Json) : Prop := ∃ first, first <+: done ∧ m.Exceeds (m.after first)

theorem Meter.exceeded_concat {m : Meter κ} {done : List Json} {e : Json} :
    m.Exceeded (done ++ [e]) ↔ m.Exceeded done ∨ m.Exceeds (m.after (done ++ [e])) := by
  constructor
  · intro h
    obtain ⟨first, hfirst, hexceeds⟩ := h
    rcases prefix_concat_iff.mp hfirst with rfl | hfirst
    · exact .inr hexceeds
    · exact .inl ⟨first, hfirst, hexceeds⟩
  · intro h
    rcases h with ⟨first, hfirst, hexceeds⟩ | hexceeds
    · exact ⟨first, hfirst.trans (prefix_append _ _), hexceeds⟩
    · exact ⟨_, prefix_rfl, hexceeds⟩

theorem Meter.after_concat (m : Meter κ) (done : List Json) (e : Json) : m.after (done ++ [e]) = m.count (m.after done) e := by
  unfold Meter.after
  rw [foldl_append]
  rfl

/-- A rule breaches a run where a counter comes to be above its cap. -/
structure Meters (R : BudgetRule κ β) (m : Meter κ) (Agrees : κ → κ → Prop) : Prop where
  zero : Agrees R.zero m.zero
  nothing : ¬ m.Exceeds m.zero
  agrees : ∀ k c e, Agrees k c → Agrees (R.tally k e).1 (m.count c e)
  breaches : ∀ k c e, Agrees k c → ¬ m.Exceeds c → ((R.tally k e).2.isSome = true ↔ m.Exceeds (m.count c e))

structure Sound (m : Meter κ) (Agrees : κ → κ → Prop) (v : RunView κ β) (done : List Json) : Prop where
  emitted : v.emitted.length = if v.run.syntheticEmitted then 1 else 0
  exceeded : v.run.syntheticEmitted = true ↔ m.Exceeded done
  counted : v.run.syntheticEmitted = false → Agrees v.run.counters (m.after done)
  quiet : v.run.syntheticEmitted = false →
    v.run.breached = false ∧ v.run.abortInFlight = false ∧ v.run.abortAttempts = 0
  attempted : v.run.syntheticEmitted = true → v.run.abortAttempts ≠ 0
  aborts : v.aborts.length = v.run.abortAttempts
  pending : v.pending = if v.run.abortInFlight then [v.run.abortAttempts] else []
  bounded : v.run.abortAttempts ≤ MAX_ABORT_ATTEMPTS
  again : v.run.abortInFlight = false → v.run.breached = false → v.run.abortAttempts < MAX_ABORT_ATTEMPTS
  resolved : v.resolved ≠ 0 → v.run.breached = true

section

variable {R : BudgetRule κ β} {m : Meter κ} {Agrees : κ → κ → Prop} {v : RunView κ β} {done : List Json} {e : Json}

/-- Another event of a run whose reason was emitted. -/
theorem Sound.later (h : Sound m Agrees v done) (hemitted : v.run.syntheticEmitted = true) (e : Json) (k : κ) :
    Sound m Agrees (v.count k) (done ++ [e]) where
  emitted := h.emitted
  exceeded := iff_of_true hemitted (Meter.exceeded_concat.mpr (.inl (h.exceeded.mp hemitted)))
  counted hnot := absurd (hemitted.symm.trans hnot) (by decide)
  quiet := h.quiet
  attempted := h.attempted
  aborts := h.aborts
  pending := h.pending
  bounded := h.bounded
  again := h.again
  resolved := h.resolved

/-- It is aborted again where no attempt is in flight. -/
theorem Sound.abort (h : Sound m Agrees v done) (hemitted : v.run.syntheticEmitted = true) (hlive : v.run.breached = false) :
    Sound m Agrees v.abort done := by
  unfold RunView.abort
  split
  · exact h
  next hflight =>
    have hattempts := h.again (Bool.not_eq_true _ |>.mp hflight) hlive
    exact {
      emitted := h.emitted
      exceeded := h.exceeded
      counted := h.counted
      quiet := fun hnot => absurd (hemitted.symm.trans hnot) (by decide)
      attempted := fun _ => Nat.succ_ne_zero _
      aborts := by rw [length_append, h.aborts]; rfl
      pending := by rw [h.pending, if_neg hflight]; rfl
      bounded := hattempts
      again := fun hnot => absurd hnot (by simp)
      resolved := h.resolved }

/-- The first event at which a counter is above its cap. -/
theorem Sound.first (h : Sound m Agrees v done) (hnot : v.run.syntheticEmitted = false)
    (hexceeds : m.Exceeds (m.after (done ++ [e]))) (k : κ) (reason : β) :
    Sound m Agrees (((v.count k).emitOnce reason).abort) (done ++ [e]) := by
  obtain ⟨hbreached, hflight, hattempts⟩ := h.quiet hnot
  have haborts : v.aborts = [] := length_eq_zero_iff.mp (h.aborts.trans hattempts)
  have hemitted : v.emitted = [] := length_eq_zero_iff.mp (by rw [h.emitted, hnot]; rfl)
  have hpending : v.pending = [] := by rw [h.pending, hflight]; rfl
  have hview : ((v.count k).emitOnce reason).abort =
      { run := { counters := k, breached := false, syntheticEmitted := true, abortAttempts := 1, abortInFlight := true }
        emitted := [reason]
        aborts := [1]
        pending := [1]
        resolved := v.resolved } := by
    simp [RunView.count, RunView.emitOnce, RunView.abort, hnot, hflight, hattempts, haborts, hemitted, hpending, hbreached]
  have hresolved : v.resolved = 0 := by
    by_contra hr
    exact absurd ((h.resolved hr).symm.trans hbreached) (by decide)
  rw [hview]
  exact {
    emitted := rfl
    exceeded := iff_of_true rfl (Meter.exceeded_concat.mpr (.inr hexceeds))
    counted := fun hfalse => absurd hfalse (by simp)
    quiet := fun hfalse => absurd hfalse (by simp)
    attempted := fun _ => Nat.one_ne_zero
    aborts := rfl
    pending := rfl
    bounded := by
      show 1 ≤ MAX_ABORT_ATTEMPTS
      decide
    again := fun hfalse => absurd hfalse (by simp)
    resolved := fun hr => absurd hresolved hr }

theorem Sound.observe (hm : Meters R m Agrees) (h : Sound m Agrees v done) (e : Json) :
    Sound m Agrees (v.observe R e) (done ++ [e]) := by
  unfold RunView.observe
  cases hemitted : v.run.syntheticEmitted with
  | true =>
    split
    · exact h.later hemitted e v.run.counters
    next hbreached =>
      have hlater := h.later hemitted e (R.tally v.run.counters e).1
      unfold RunView.tell
      cases (R.tally v.run.counters e).2 with
      | none => exact hlater
      | some reason =>
        have honce : ((v.count (R.tally v.run.counters e).1).emitOnce reason) = v.count (R.tally v.run.counters e).1 := if_pos hemitted
        simp only [honce]
        exact hlater.abort hemitted (Bool.not_eq_true _ |>.mp hbreached)
  | false =>
    obtain ⟨hbreached, hflight, hattempts⟩ := h.quiet hemitted
    have hnot : ¬ m.Exceeded done := fun hexceeded => absurd (hemitted.symm.trans (h.exceeded.mpr hexceeded)) (by decide)
    have hnow : ¬ m.Exceeds (m.after done) := fun hexceeds => hnot ⟨done, prefix_rfl, hexceeds⟩
    have hbreaches := hm.breaches v.run.counters (m.after done) e (h.counted hemitted) hnow
    have hagrees := hm.agrees v.run.counters (m.after done) e (h.counted hemitted)
    rw [← m.after_concat] at hbreaches hagrees
    rw [if_neg (by rw [hbreached]; decide)]
    unfold RunView.tell
    cases hreason : (R.tally v.run.counters e).2 with
    | some reason =>
      rw [hreason] at hbreaches
      exact h.first hemitted (hbreaches.mp rfl) _ reason
    | none =>
      rw [hreason] at hbreaches
      have hstill : ¬ m.Exceeded (done ++ [e]) := by
        intro hexceeded
        rcases Meter.exceeded_concat.mp hexceeded with hbefore | hexceeds
        · exact hnot hbefore
        · exact absurd (hbreaches.mpr hexceeds) (by simp)
      exact {
        emitted := h.emitted
        exceeded := iff_of_false (by simp [RunView.count, hemitted]) hstill
        counted := fun _ => hagrees
        quiet := h.quiet
        attempted := h.attempted
        aborts := h.aborts
        pending := h.pending
        bounded := h.bounded
        again := h.again
        resolved := h.resolved }

theorem Sound.settle (h : Sound m Agrees v done) (attempt : ℕ) (resolves : Bool) :
    Sound m Agrees (v.settle attempt resolves) done := by
  unfold RunView.settle
  split
  next hpending =>
    -- the one attempt in flight is the last one issued
    rw [h.pending] at hpending
    by_cases hflight : v.run.abortInFlight = true
    · rw [if_pos hflight, mem_singleton] at hpending
      subst hpending
      have hemitted : v.run.syntheticEmitted = true := by
        cases hs : v.run.syntheticEmitted with
        | true => rfl
        | false => exact absurd ((h.quiet hs).2.1.symm.trans hflight) (by decide)
      exact {
        emitted := h.emitted
        exceeded := h.exceeded
        counted := h.counted
        quiet := fun hnot => absurd (hemitted.symm.trans hnot) (by decide)
        attempted := h.attempted
        aborts := h.aborts
        pending := by
          rw [h.pending, if_pos hflight]
          simp
        bounded := h.bounded
        again := by
          intro _ hlive
          simp only [Bool.or_eq_false_iff, decide_eq_false_iff_not] at hlive
          exact Nat.lt_of_not_le hlive.2
        resolved := by
          intro hresolved
          cases resolves with
          | true => simp
          | false => simp [h.resolved hresolved] }
    · rw [if_neg hflight] at hpending
      exact (not_mem_nil hpending).elim
  next => exact h

theorem sound_start (hm : Meters R m Agrees) (n : ℕ) : Sound m Agrees ((startAt (β := β) R.zero n).view n) [] where
  emitted := rfl
  exceeded := by
    refine iff_of_false (by simp [BudgetGuard.view, startAt, freshRun]) ?_
    intro hexceeded
    obtain ⟨first, hfirst, hexceeds⟩ := hexceeded
    rw [prefix_nil.mp hfirst] at hexceeds
    exact hm.nothing hexceeds
  counted _ := hm.zero
  quiet _ := ⟨rfl, rfl, rfl⟩
  attempted h := absurd h (by simp [BudgetGuard.view, startAt, freshRun])
  aborts := rfl
  pending := rfl
  bounded := Nat.zero_le _
  again _ _ := by
    show 0 < MAX_ABORT_ATTEMPTS
    decide
  resolved h := absurd h (by simp [BudgetGuard.view, startAt])

/-- The step is an event of the run under way, or settles an abort of it. -/
def Step.Of (n : ℕ) : Step → Prop
  | .observe event => isAgentStart event = false
  | .settle run _ _ => run = n

def Within (n : ℕ) (ss : List Step) : Prop := ∀ s ∈ ss, s.Of n

theorem within_cons {s : Step} {ss : List Step} {n : ℕ} (h : Within n (s :: ss)) : s.Of n ∧ Within n ss :=
  ⟨h s mem_cons_self, fun s hs => h s (mem_cons_of_mem _ hs)⟩

theorem own_within (n : ℕ) (steps : List Step) (current : ℕ) : Within n (own n current steps) := by
  induction steps generalizing current with
  | nil => exact fun s hs => (not_mem_nil hs).elim
  | cons s steps ih =>
    cases s with
    | observe event =>
      rw [own]
      by_cases hstart : isAgentStart event = true
      · rw [if_pos hstart]
        exact ih _
      · rw [if_neg hstart]
        split
        · intro s hs
          rcases mem_cons.mp hs with rfl | hs
          · exact Bool.not_eq_true _ |>.mp hstart
          · exact ih _ s hs
        · exact ih _
    | settle run attempt resolves =>
      rw [own]
      split
      next hrun =>
        intro s hs
        rcases mem_cons.mp hs with rfl | hs
        · exact hrun
        · exact ih _ s hs
      next => exact ih _

theorem own_append (n : ℕ) (xs ys : List Step) (g : BudgetGuard κ β) :
    own n g.current (xs ++ ys) = own n g.current xs ++ own n (xs.foldl (step (observeBy R)) g).current ys := by
  induction xs generalizing g with
  | nil => rfl
  | cons s xs ih =>
    rw [foldl_cons]
    cases s with
    | observe event =>
      simp only [step]
      by_cases hstart : isAgentStart event = true
      · have hih := ih (g.startRun R.zero)
        rw [show (g.startRun R.zero).current = g.current + 1 from rfl] at hih
        rw [List.cons_append, own, own, if_pos hstart, if_pos hstart, observe_start hstart, hih]
      · have hih := ih (observeBy R g event)
        rw [observe_current (Bool.not_eq_true _ |>.mp hstart)] at hih
        rw [List.cons_append, own, own, if_neg hstart, if_neg hstart, hih]
        split <;> rfl
    | settle run attempt resolves =>
      have hih := ih (g.settle run attempt resolves)
      rw [settle_current] at hih
      simp only [step]
      rw [List.cons_append, own, own, hih]
      split <;> rfl

/-- The run under way stays so. -/
theorem within_current {g : BudgetGuard κ β} {ss : List Step} {n : ℕ} (hss : Within n ss) :
    (ss.foldl (step (observeBy R)) g).current = g.current := by
  induction ss generalizing g with
  | nil => rfl
  | cons s ss ih =>
    obtain ⟨hs, hss⟩ := within_cons hss
    rw [foldl_cons, ih hss]
    cases s with
    | observe event => exact observe_current hs
    | settle run attempt resolves => exact settle_current _ _

theorem sound_within (hm : Meters R m Agrees) {n : ℕ} {ss : List Step} (hss : Within n ss) :
    Sound m Agrees ((ss.foldl (step (observeBy R)) (startAt R.zero n)).view n) (ss.filterMap Step.event) := by
  induction ss using List.reverseRecOn with
  | nil => exact sound_start hm n
  | append_singleton ss s ih =>
    have hbefore : Within n ss := fun s hs => hss s (mem_append_left _ hs)
    have hs : s.Of n := hss s (mem_append_right _ mem_cons_self)
    have hn : (ss.foldl (step (observeBy R)) (startAt R.zero n)).current = n := within_current hbefore
    have h := ih hbefore
    rw [foldl_append, filterMap_append]
    cases s with
    | observe event =>
      have hview := view_observe_same (R := R) (g := ss.foldl (step (observeBy R)) (startAt R.zero n)) hs
      rw [hn] at hview
      exact hview ▸ h.observe hm event
    | settle run attempt resolves =>
      have hrun : run = n := hs
      subst hrun
      rw [filterMap_cons_none rfl, filterMap_nil, append_nil]
      exact view_settle_same (g := ss.foldl (step (observeBy R)) (startAt R.zero run)) attempt resolves ▸ h.settle attempt resolves

/-- A run that is breached for good is not aborted again. -/
theorem aborts_stay {g : BudgetGuard κ β} {n : ℕ} {ss : List Step} (hss : Within n ss) (hn : g.current = n)
    (hbreached : (g.view n).run.breached = true) : ((ss.foldl (step (observeBy R)) g).view n).aborts = (g.view n).aborts := by
  induction ss generalizing g with
  | nil => rfl
  | cons s ss ih =>
    obtain ⟨hs, hrest⟩ := within_cons hss
    rw [foldl_cons]
    cases s with
    | observe event =>
      have hsame : (observeBy R g event).view n = g.view n := by
        subst hn
        rw [view_observe_same hs, RunView.observe, if_pos hbreached]
      have hafter := ih (g := observeBy R g event) hrest ((observe_current hs).trans hn) (hsame ▸ hbreached)
      exact hafter.trans (congrArg RunView.aborts hsame)
    | settle m attempt resolves =>
      have hm : m = n := hs
      subst hm
      have hstill : ((g.settle m attempt resolves).view m).run.breached = true ∧
          ((g.settle m attempt resolves).view m).aborts = (g.view m).aborts := by
        rw [view_settle_same, RunView.settle]
        split
        · exact ⟨by simp [hbreached], rfl⟩
        · exact ⟨hbreached, rfl⟩
      exact (ih (g := g.settle m attempt resolves) hrest ((settle_current _ _).trans hn) hstill.1).trans hstill.2

end

/-! ## Every session -/

section

variable (observe : BudgetGuard κ β → Json → BudgetGuard κ β) (m : Meter κ)

/-- The guard after the steps. -/
def after (steps : List Step) : BudgetGuard κ β := steps.foldl (step observe) (startAt m.zero 0)

/-- Of run `n`, after the steps. -/
structure EnforcedOnce (steps : List Step) (n : ℕ) : Prop where
  once : ((after observe m steps).view n).emitted.length ≤ 1
  exactly : ((after observe m steps).view n).emitted ≠ [] ↔ m.Exceeded (eventsOf n steps)
  first : ∀ e, isAgentStart e = false → (after observe m steps).current = n →
    (((after observe m (steps ++ [.observe e])).view n).emitted.length = ((after observe m steps).view n).emitted.length + 1 ↔
      ¬ m.Exceeded (eventsOf n steps) ∧ m.Exceeds (m.after (eventsOf n steps ++ [e])))
  atOnce : ((after observe m steps).view n).aborts ≠ [] ↔ ((after observe m steps).view n).emitted ≠ []
  oneInFlight : ((after observe m steps).view n).pending.length ≤ 1
  three : ((after observe m steps).view n).aborts.length ≤ 3
  settled : ((after observe m steps).view n).resolved ≠ 0 →
    ∀ more, ((after observe m (steps ++ more)).view n).aborts = ((after observe m steps).view n).aborts
  alone : (after observe m steps).view n = ((own n 0 steps).foldl (step observe) (startAt m.zero n)).view n

end

section

variable {R : BudgetRule κ β} {m : Meter κ} {Agrees : κ → κ → Prop}

theorem after_view (hzero : R.zero = m.zero) (steps : List Step) (n : ℕ) :
    (after (observeBy R) m steps).view n = ((own n 0 steps).foldl (step (observeBy R)) (startAt R.zero n)).view n := by
  unfold after
  rw [← hzero]
  exact view_own n steps rfl rfl fun _ => ⟨rfl, rfl⟩

theorem sound_after (hm : Meters R m Agrees) (hzero : R.zero = m.zero) (steps : List Step) (n : ℕ) :
    Sound m Agrees ((after (observeBy R) m steps).view n) (eventsOf n steps) := by
  rw [after_view hzero]
  exact sound_within hm (own_within n steps 0)

theorem own_after (steps more : List Step) (n : ℕ) :
    own n 0 (steps ++ more) = own n 0 steps ++ own n (after (observeBy R) m steps).current more :=
  own_append n steps more (startAt m.zero 0)

theorem eventsOf_concat {steps : List Step} {e : Json} {n : ℕ} (hstart : isAgentStart e = false)
    (hn : (after (observeBy R) m steps).current = n) : eventsOf n (steps ++ [.observe e]) = eventsOf n steps ++ [e] := by
  unfold eventsOf
  rw [own_after (R := R) (m := m), filterMap_append, hn, own, if_neg (by simp [hstart]), if_pos rfl]
  rfl

theorem Sound.emitted_one {v : RunView κ β} {done : List Json} (h : Sound m Agrees v done) :
    (m.Exceeded done → v.emitted.length = 1) ∧ (¬ m.Exceeded done → v.emitted.length = 0) := by
  have hlength := h.emitted
  constructor
  · intro hexceeded
    rw [hlength, if_pos (h.exceeded.mpr hexceeded)]
  · intro hexceeded
    rw [hlength, if_neg fun hemitted => hexceeded (h.exceeded.mp hemitted)]

theorem enforced (hm : Meters R m Agrees) (hzero : R.zero = m.zero) (steps : List Step) (n : ℕ) :
    EnforcedOnce (observeBy R) m steps n := by
  have h := sound_after hm hzero steps n
  have hemitted := h.emitted_one
  constructor
  · by_cases hexceeded : m.Exceeded (eventsOf n steps)
    · exact (hemitted.1 hexceeded).le
    · rw [hemitted.2 hexceeded]
      exact Nat.zero_le _
  · rw [← length_pos_iff]
    by_cases hexceeded : m.Exceeded (eventsOf n steps)
    · exact iff_of_true (by rw [hemitted.1 hexceeded]; exact Nat.one_pos) hexceeded
    · exact iff_of_false (by rw [hemitted.2 hexceeded]; omega) hexceeded
  · intro e hstart hn
    have hnext := (sound_after hm hzero (steps ++ [.observe e]) n).emitted_one
    rw [eventsOf_concat hstart hn, Meter.exceeded_concat] at hnext
    by_cases hbefore : m.Exceeded (eventsOf n steps)
    · refine iff_of_false ?_ fun hfirst => hfirst.1 hbefore
      rw [hnext.1 (.inl hbefore), hemitted.1 hbefore]
      omega
    · rw [hemitted.2 hbefore]
      by_cases hnow : m.Exceeds (m.after (eventsOf n steps ++ [e]))
      · exact iff_of_true (hnext.1 (.inr hnow)) ⟨hbefore, hnow⟩
      · refine iff_of_false ?_ fun hfirst => hnow hfirst.2
        rw [hnext.2 (fun hexceeded => hexceeded.elim hbefore hnow)]
        omega
  · rw [← length_pos_iff, ← length_pos_iff, h.aborts, h.emitted]
    cases hs : ((after (observeBy R) m steps).view n).run.syntheticEmitted with
    | true => exact iff_of_true (Nat.pos_of_ne_zero (h.attempted hs)) Nat.one_pos
    | false => exact iff_of_false (by rw [(h.quiet hs).2.2]; omega) (by simp)
  · rw [h.pending]
    split
    · exact Nat.le_refl _
    · exact Nat.zero_le _
  · rw [h.aborts]
    exact h.bounded
  · intro hresolved more
    rw [after_view hzero, own_after (R := R) (m := m), foldl_append, after_view hzero]
    have hbreached := h.resolved hresolved
    rw [after_view hzero] at hbreached
    exact aborts_stay (own_within n more _) (within_current (own_within n steps 0)) hbreached
  · rw [← hzero]
    exact after_view hzero steps n

end

end PiWebUi.Pi.Budget
