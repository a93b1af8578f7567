/-
  PiWebUi.DrainProofs — when a drain settles, and on what knowledge.

  The verdict is taken on the snapshot, and the snapshot is the last listing that succeeded.
  So the question is when that listing was asked for. An evaluation of the drain that waits
  for a refresh waits for one asked for since the start (`Inv.since`), provided no refresh and
  no evaluation of an earlier time was pending at the start; and the refresh ending well says
  something about the snapshot only if its listing ended well. `Cond` is those two provisos,
  on the state before a step.
-/

import PiWebUi.Drain
import PiWebUi.Lib.Run
import Mathlib.Tactic.SplitIfs

namespace PiWebUi.Drain

open Lib List Option

/-- The snapshot is from a listing asked for since the start of the drain. -/
def Fresh (s : State) : Prop := ∃ l, s.completed.getLast? = some l ∧ s.startMark ≤ l.request

instance (s : State) : Decidable (Fresh s) :=
  decidable_of_iff (∃ l ∈ s.completed.getLast?, s.startMark ≤ l.request) (by simp [Fresh, mem_def])

/-- An evaluation of this drain waits for this refresh. -/
def awaited (s : State) (request : ℕ) : Prop :=
  s.state = .draining ∧ s.evaluating = some (.waiting request)

instance (s : State) (n : ℕ) : Decidable (awaited s n) := inferInstanceAs (Decidable (_ ∧ _))

def Cond (s : State) : Step → Prop
  | .start _ _ => s.state = .idle → s.inFlight = none ∧ s.evaluating = none
  | .refreshEnds => ∀ f ∈ s.inFlight, f.answer = some false → awaited s f.request → Fresh s
  | _ => True

instance (s : State) (e : Step) : Decidable (Cond s e) := by
  cases e <;> unfold Cond <;> infer_instance

/-- Nothing the accessors answer is left to wait for, beside the excluded sessions. -/
structure Clear (a : Accessors) (entries : List RegistryEntry) (excluded : List JsString) : Prop where
  turns : ∀ n, a.activeTurns = some n → n ≤ a.quarantinedTurns.getD 0
  runs : ∀ runs, a.nonterminalRuns = some runs → runs = []
  pi : ∀ sessions, a.piBusySessions = some sessions → ∀ b ∈ sessions, b.sessionId ∈ excluded
  others : ∀ e ∈ entries, a.isRuntimeRunning e.sdkType e.id = some true → e.id ∈ excluded

/-- The step decides on a listing that was asked for since the start and has succeeded. -/
def DecidesFresh (s : State) (e : Step) : Prop :=
  ∃ a, e = .resume a ∧ ∃ l ∈ s.completed, s.startMark ≤ l.request ∧
    (step s e).remaining = measured a l.entries s.excludedSessionIds ∧ Clear a l.entries s.excludedSessionIds

/-! ## The invariant -/

structure Inv (s : State) : Prop where
  mark : s.startMark ≤ s.requests
  read : s.snapshot = (s.completed.getLast?.map (·.entries)).getD []
  waits : ∀ n, s.evaluating = some (.waiting n) → ∃ f, s.inFlight = some f ∧ f.request = n
  answered : ∀ f, s.inFlight = some f → f.answer = some true → ∃ l, s.completed.getLast? = some l ∧ l.request = f.request
  since : s.state = .draining → ∀ f, s.inFlight = some f → s.startMark ≤ f.request
  refreshed : s.state = .draining → s.evaluating = some (.refreshed true) → Fresh s
  resuming : s.state = .draining → s.evaluating = some .resuming → s.lastBusyRefreshFresh = true → Fresh s

theorem inv_init : Inv {} where
  mark := Nat.le_refl _
  read := rfl
  waits _ h := nomatch h
  answered _ h := nomatch h
  since h := nomatch h
  refreshed h := nomatch h
  resuming h := nomatch h

variable {s : State}

/-- The obligations of a drain end when it does. -/
theorem Inv.leave (h : Inv s) {v : DrainState} (hv : v ≠ .draining) : Inv { s with state := v } where
  mark := h.mark
  read := h.read
  waits := h.waits
  answered := h.answered
  since hs := absurd hs hv
  refreshed hs := absurd hs hv
  resuming hs := absurd hs hv

theorem refresh_cases (s : State) : (∃ f, s.inFlight = some f ∧ refresh s = s) ∨
    (s.inFlight = none ∧ refresh s = { s with inFlight := some { request := s.requests }, requests := s.requests + 1 }) := by
  unfold refresh
  cases h : s.inFlight with
  | some f => exact .inl ⟨f, rfl, rfl⟩
  | none => exact .inr ⟨rfl, rfl⟩

section

variable (h : Inv s)
include h

theorem inv_refresh : Inv (refresh s) := by
  obtain ⟨_, _, hr⟩ | ⟨hn, hr⟩ := refresh_cases s
  · rwa [hr]
  rw [hr]
  refine ⟨Nat.le_succ_of_le h.mark, h.read, ?_, ?_, ?_, h.refreshed, h.resuming⟩
  · intro n hw
    -- nothing was in flight, so nothing waited
    obtain ⟨f, hf, _⟩ := h.waits n hw
    exact absurd (hn.symm.trans hf) (by simp)
  · intro f hf ha
    cases hf
    cases ha
  · intro _ f hf
    cases hf
    exact h.mark

theorem inv_measure (a : Accessors) : Inv (measure s a) :=
  have h := inv_refresh h
  ⟨h.mark, h.read, h.waits, h.answered, h.since, h.refreshed, h.resuming⟩

theorem inv_evaluate : Inv (evaluate s) := by
  unfold evaluate
  by_cases hg : s.state ≠ .draining ∨ s.evaluating.isSome
  · rwa [if_pos hg]
  rw [if_neg hg]
  have h := inv_refresh h
  refine ⟨h.mark, h.read, ?_, h.answered, h.since, ?_, ?_⟩
  · intro n hw
    obtain ⟨f, hf, he⟩ := map_eq_some_iff.mp hw
    cases he
    exact ⟨f, hf, rfl⟩
  all_goals
    intro _ hw
    obtain ⟨f, _, he⟩ := map_eq_some_iff.mp hw
    cases he

/-- A start meets its condition: nothing pending, so the drain owes nothing yet. -/
theorem inv_start (input : DrainStartInput) (a : Accessors)
    (hc : s.state = .idle → s.inFlight = none ∧ s.evaluating = none) : Inv (start s input a) := by
  unfold start
  by_cases hs : s.state ≠ .idle
  · rwa [if_pos hs]
  rw [if_neg hs]
  obtain ⟨hi, he⟩ := hc (not_not.mp hs)
  apply inv_evaluate
  apply inv_measure
  refine ⟨Nat.le_refl _, h.read, h.waits, h.answered, ?_, ?_, ?_⟩
  · intro _ f hf
    exact absurd (hi.symm.trans hf) (by simp)
  all_goals
    intro _ hw
    exact absurd (he.symm.trans hw) (by simp)

theorem inv_cancel (endedBy : JsString) (a : Accessors) : Inv (cancel s endedBy a) := by
  unfold cancel
  by_cases hs : s.state = .idle
  · rwa [if_pos hs]
  rw [if_neg hs]
  have h := (inv_measure h a).leave (v := .idle) (by simp)
  exact ⟨h.mark, h.read, h.waits, h.answered, h.since, h.refreshed, h.resuming⟩

theorem inv_finish {v : DrainState} (hv : v ≠ .draining) : Inv (finish s v) :=
  have h := h.leave hv
  ⟨h.mark, h.read, h.waits, h.answered, h.since, h.refreshed, h.resuming⟩

theorem inv_decide (a : Accessors) : Inv (decide s a) := by
  have h := inv_measure h a
  unfold decide
  dsimp only
  split_ifs
  · exact inv_finish h (by simp)
  · have h' := h.leave (v := .timed_out) (by simp)
    exact ⟨h'.mark, h'.read, h'.waits, h'.answered, h'.since, h'.refreshed, h'.resuming⟩
  · exact h

theorem Inv.clear : Inv { s with evaluating := none } where
  mark := h.mark
  read := h.read
  waits _ hw := nomatch hw
  answered := h.answered
  since := h.since
  refreshed _ hw := nomatch hw
  resuming _ hw := nomatch hw

theorem inv_resume (a : Accessors) : Inv (resume s a) := by
  unfold resume
  split_ifs
  · exact h
  · exact h.clear
  · exact inv_decide h.clear a

theorem inv_noteRefresh : Inv (noteRefresh s) := by
  unfold noteRefresh
  split
  · rename_i fresh he
    refine ⟨h.mark, h.read, fun _ hw => (nomatch hw), h.answered, h.since, fun _ hw => (nomatch hw), ?_⟩
    intro hs _ hf
    -- what the evaluation was told becomes what the controller holds
    have hf : fresh = true := hf
    subst hf
    exact h.refreshed hs he
  · exact h

theorem inv_refreshTimeout : Inv (refreshTimeout s) := by
  unfold refreshTimeout
  split
  · exact ⟨h.mark, h.read, fun _ hw => (nomatch hw), h.answered, h.since, fun _ hw => (nomatch hw), fun _ hw => (nomatch hw)⟩
  · exact h

/-- The answer of the listing in flight, on what waits for it. -/
theorem Inv.answer {n : ℕ} {b : Option Bool} (hi : s.inFlight = some ⟨n, b⟩) (b' : Option Bool) :
    ∀ k, s.evaluating = some (.waiting k) → ∃ f, some (⟨n, b'⟩ : Fetch) = some f ∧ f.request = k := by
  intro k hw
  obtain ⟨f, hf, hk⟩ := h.waits k hw
  cases hi.symm.trans hf
  exact ⟨_, rfl, hk⟩

theorem inv_listingEnds (entries : Option (List RegistryEntry)) : Inv (listingEnds s entries) := by
  unfold listingEnds
  split
  · rename_i n entries hi
    have since : s.state = .draining → s.startMark ≤ n := fun hs => h.since hs _ hi
    have last : (s.completed ++ [(⟨n, entries⟩ : Listing)]).getLast? = some ⟨n, entries⟩ := by simp
    refine ⟨h.mark, ?_, h.answer hi _, ?_, ?_, ?_, ?_⟩
    · show entries = _
      rw [last]
      rfl
    · intro f hf _
      cases hf
      exact ⟨_, last, rfl⟩
    · intro hs f hf
      cases hf
      exact since hs
    · exact fun hs _ => ⟨_, last, since hs⟩
    · exact fun hs _ _ => ⟨_, last, since hs⟩
  · rename_i n hi
    refine ⟨h.mark, h.read, h.answer hi _, ?_, ?_, h.refreshed, h.resuming⟩
    · intro f hf ha
      cases hf
      cases ha
    · intro hs f hf
      cases hf
      exact h.since hs ⟨n, none⟩ hi
  · exact h

theorem inv_refreshEnds (hc : ∀ f ∈ s.inFlight, f.answer = some false → awaited s f.request → Fresh s) : Inv (refreshEnds s) := by
  unfold refreshEnds
  split
  · rename_i n ok hi
    by_cases hw : s.evaluating = some (.waiting n)
    · rw [if_pos hw]
      refine ⟨h.mark, h.read, fun _ hw => (nomatch hw), fun _ hf => (nomatch hf), fun _ _ hf => (nomatch hf), ?_,
        fun _ hw => (nomatch hw)⟩
      intro hs _
      show Fresh s
      cases ok with
      | true =>
        obtain ⟨l, hl, hn⟩ := h.answered _ hi rfl
        exact ⟨l, hl, (h.since hs _ hi).trans hn.ge⟩
      | false => exact hc _ hi rfl ⟨hs, hw⟩
    · rw [if_neg hw]
      refine ⟨h.mark, h.read, ?_, fun _ hf => (nomatch hf), fun _ _ hf => (nomatch hf), h.refreshed, h.resuming⟩
      intro k hk
      -- what waits, waits for this one
      obtain ⟨f, hf, he⟩ := h.waits k hk
      cases hi.symm.trans hf
      cases he
      exact absurd hk hw
  · exact h

end

theorem inv_step (s : State) (e : Step) (h : Inv s) (hc : Cond s e) : Inv (step s e) := by
  cases e with
  | tick _ => exact ⟨h.mark, h.read, h.waits, h.answered, h.since, h.refreshed, h.resuming⟩
  | start input a => exact inv_start h input a hc
  | cancel endedBy a => exact inv_cancel h endedBy a
  | poll => exact inv_evaluate h
  | kick => exact inv_refresh h
  | listingEnds entries => exact inv_listingEnds h entries
  | refreshEnds => exact inv_refreshEnds h hc
  | refreshTimeout => exact inv_refreshTimeout h
  | noteRefresh => exact inv_noteRefresh h
  | resume a => exact inv_resume h a

/-! ## The verdict -/

@[simp] theorem refresh_frame (s : State) : (refresh s).state = s.state ∧ (refresh s).snapshot = s.snapshot ∧
    (refresh s).excludedSessionIds = s.excludedSessionIds ∧ (refresh s).lastBusyRefreshFresh = s.lastBusyRefreshFresh := by
  obtain ⟨_, _, h⟩ | ⟨_, h⟩ := refresh_cases s <;> simp [h]

@[simp] theorem measure_state (s : State) (a : Accessors) : (measure s a).state = s.state := (refresh_frame s).1

@[simp] theorem measure_lastFresh (s : State) (a : Accessors) :
    (measure s a).lastBusyRefreshFresh = s.lastBusyRefreshFresh := (refresh_frame s).2.2.2

theorem measure_remaining (s : State) (a : Accessors) :
    (measure s a).remaining = measured a s.snapshot s.excludedSessionIds := by simp [measure]

@[simp] theorem evaluate_state (s : State) : (evaluate s).state = s.state := by
  unfold evaluate
  split_ifs
  · rfl
  · exact (refresh_frame s).1

theorem decide_settled {a : Accessors} (hs : s.state = .draining) (h : (decide s a).state = .settled) :
    s.lastBusyRefreshFresh = true ∧ nothingLeft (measured a s.snapshot s.excludedSessionIds) = true ∧
      (decide s a).remaining = measured a s.snapshot s.excludedSessionIds := by
  unfold decide at h ⊢
  simp only [measure_remaining, measure_lastFresh] at h ⊢
  split_ifs at h ⊢ with hv ht
  · rw [Bool.and_eq_true] at hv
    exact ⟨hv.2, hv.1, measure_remaining s a⟩
  · cases h
  · rw [measure_state, hs] at h
    cases h

/-- Only the end of an evaluation settles a drain. -/
theorem settled_by_resume {e : Step} (hs : s.state ≠ .settled) (h : (step s e).state = .settled) :
    ∃ a, e = .resume a ∧ s.evaluating = some .resuming ∧ s.state = .draining ∧
      step s e = decide { s with evaluating := none } a := by
  cases e with
  | tick _ => exact absurd h hs
  | start input a =>
    simp only [step, start] at h
    split_ifs at h
    · exact absurd h hs
    · rw [evaluate_state, measure_state] at h
      cases h
  | cancel endedBy a =>
    simp only [step, cancel] at h
    split_ifs at h
    exact absurd h hs
  | poll => exact absurd ((evaluate_state s).symm.trans h) hs
  | kick => exact absurd ((refresh_frame s).1.symm.trans h) hs
  | listingEnds entries =>
    simp only [step, listingEnds] at h
    split at h <;> exact absurd h hs
  | refreshEnds =>
    simp only [step, refreshEnds] at h
    split at h <;> exact absurd h hs
  | refreshTimeout =>
    simp only [step, refreshTimeout] at h
    split at h <;> exact absurd h hs
  | noteRefresh =>
    simp only [step, noteRefresh] at h
    split at h <;> exact absurd h hs
  | resume a =>
    simp only [step, resume] at h ⊢
    split_ifs at h ⊢ with he hd
    · exact absurd h hs
    · exact absurd h hs
    · exact ⟨a, rfl, not_not.mp he, not_not.mp hd, rfl⟩

section

variable {a : Accessors} {entries : List RegistryEntry} {excluded : List JsString}

theorem mem_excluded
    (h : (measured a entries excluded).busySessions = 0) : ∀ b ∈ listBusySessions a entries, b.sessionId ∈ excluded := by
  intro b hb
  have none_left : (listBusySessions a entries).filter (fun b => !excluded.contains b.sessionId) = [] :=
    length_eq_zero_iff.mp h
  by_contra hx
  have : b ∈ (listBusySessions a entries).filter (fun b => !excluded.contains b.sessionId) :=
    mem_filter.mpr ⟨hb, by simpa using hx⟩
  rw [none_left] at this
  cases this

theorem clear_of_nothingLeft (h : nothingLeft (measured a entries excluded) = true) : Clear a entries excluded := by
  simp only [nothingLeft, Bool.and_eq_true, decide_eq_true_eq] at h
  obtain ⟨⟨turns, runs⟩, busy⟩ := h
  have busy := mem_excluded busy
  refine ⟨?_, ?_, ?_, ?_⟩
  · intro n hn
    simp only [measured, hn, getD_some, isSome_some, if_true] at turns
    omega
  · intro rs hr
    simp only [measured, hr, getD_some] at runs
    exact length_eq_zero_iff.mp runs
  · intro sessions hs b hb
    apply busy { b with runIds := [] }
    apply mem_append_left
    exact mem_map.mpr ⟨b, by rwa [hs], rfl⟩
  · intro e he hr
    apply busy { sessionId := e.id, runtime := e.sdkType, busyReason := js "runtime-running" }
    apply mem_append_right
    exact mem_filterMap.mpr ⟨e, he, by rw [runtimeBusy, if_pos hr]⟩

end

theorem decides_fresh {e : Step} (hi : Inv s) (hs : s.state ≠ .settled) (h : (step s e).state = .settled) : DecidesFresh s e := by
  obtain ⟨a, rfl, he, hd, heq⟩ := settled_by_resume hs h
  have decided := decide_settled (s := { s with evaluating := none }) (a := a) hd (heq ▸ h)
  rw [← heq] at decided
  obtain ⟨fresh, nothing, hr⟩ := decided
  obtain ⟨l, hl, hm⟩ := hi.resuming hd he fresh
  have read : s.snapshot = l.entries := by rw [hi.read, hl]; rfl
  rw [read] at nothing hr
  exact ⟨a, rfl, l, mem_of_getLast? hl, hm, hr, clear_of_nothingLeft nothing⟩

/-- In every run in which a drain starts with nothing pending, and no refresh that its evaluation
    awaits ends on a failed listing before one asked for since the start has succeeded, the verdict
    `settled` is taken on such a listing, with nothing left that is not excluded. -/
theorem settles_on_fresh_listing (es : List Step) (h : Run.Along step Cond {} es) :
    Run.Along step (fun s e => s.state ≠ .settled → (step s e).state = .settled → DecidesFresh s e) {} es :=
  Run.along_of_invariant inv_step (fun _ _ hi _ => decides_fresh hi) inv_init h

/-- A drain with one busy session excluded, and a first poll whose refresh fails after one that did not. -/
def soundDrain : List Step :=
  [.start { reason := js "deploy", excludeSessionIds := [js "self"] } {}, .listingEnds (some [⟨js "self", js "claude"⟩]),
   .refreshEnds, .noteRefresh, .resume { nonterminalRuns := some [⟨js "r", js "s", js "pi", js "started"⟩] },
   .poll, .listingEnds none, .refreshEnds, .noteRefresh, .resume { isRuntimeRunning := fun _ _ => some true }]

theorem sound_drain_settles : (soundDrain.foldl step {}).state = .settled ∧
      Run.Along step (fun s e => s.state ≠ .settled → (step s e).state = .settled → DecidesFresh s e) {} soundDrain :=
  ⟨by decide +kernel, settles_on_fresh_listing soundDrain (by decide +kernel)⟩

/-- The only listing the drain asked for failed; the verdict is `settled` all the same, on the empty
    snapshot, while a session of another runtime works. -/
theorem settled_on_failed_listing :
    ¬ Run.Along step (fun s e => s.state ≠ .settled → (step s e).state = .settled → DecidesFresh s e) {}
      [.start { reason := js "deploy" } {}, .listingEnds none, .refreshEnds, .noteRefresh,
       .resume { isRuntimeRunning := fun _ _ => some true }] := by
  rintro ⟨-, -, -, -, last, -⟩
  obtain ⟨_, _, l, hl, _⟩ := last (by decide +kernel) (by decide +kernel)
  have none : l ∈ ([] : List Listing) := hl
  cases none

end PiWebUi.Drain
