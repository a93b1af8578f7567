/-
  PiWebUi.Registry.Saves — the coalesced saves of the session registry
  (server/src/session-registry.ts: `save`, `startSave`, `_doSave`).

  A call mutates the registry and saves. While a write is in flight the save waits for it and
  asks for one follow-up; otherwise it starts a write: make the directory, serialise and
  write a temporary file, rename it into place. When the write's promise has settled, its
  waiters go on one by one, as microtasks: each joins the write that started meanwhile, or
  starts the follow-up.
-/

import PiWebUi.Registry.SessionRegistry
import PiWebUi.Lib.Run
import Mathlib.Logic.Function.Basic

namespace PiWebUi.Registry.Saves

open PiWebUi.Lib List

/-- What a write serialises: the registry after so many mutations. -/
structure Snapshot where
  registry : SessionRegistry
  mutations : ℕ

/-- Where a write is. -/
inductive Attempt
  | unstarted
  | makingDirectory
  | writing (snapshot : Snapshot)
  | renamingInto (snapshot : Snapshot)
  | unlinking
  /-- `_doSave` has settled, with the snapshot that is in place or with an error. -/
  | finished (result : Option Snapshot)
  /-- The `finally` handler has run. -/
  | cleared (result : Option Snapshot)
  | settled (result : Option Snapshot)

def Attempt.isActive : Attempt → Bool
  | .makingDirectory | .writing _ | .renamingInto _ | .unlinking => true
  | _ => false

/-- Where a call's `save()` is. -/
inductive Caller
  | uncalled
  /-- `await current` -/
  | awaits (current : ℕ)
  | resumes (current : ℕ)
  /-- Its promise is that of the write. -/
  | returns (attempt : ℕ)
  | resolved
  | rejected
  deriving DecidableEq

structure SaveState where
  registry : SessionRegistry
  inFlightSave : Option ℕ := none
  followUpNeeded : Bool := false
  attempts : ℕ → Attempt := fun _ => .unstarted
  started : ℕ := 0
  callers : ℕ → Caller := fun _ => .uncalled
  called : ℕ := 0
  /-- The mutations so far, in order. -/
  mutations : List RegistryCall := []
  /-- How many mutations there were when the caller had made its own. -/
  mutated : ℕ → ℕ := fun _ => 0
  /-- The snapshots renamed into place, in order. -/
  renamed : List Snapshot := []

inductive SaveEvent
  | call (c : RegistryCall)
  | mkdirSettles (attempt : ℕ) (ok : Bool)
  | writeSettles (attempt : ℕ) (ok : Bool)
  | renameSettles (attempt : ℕ) (ok : Bool)
  | unlinkSettles (attempt : ℕ)
  | finallyRuns (attempt : ℕ)
  | promiseSettles (attempt : ℕ)
  | resumes (caller : ℕ)

namespace SaveState

def setAttempt (s : SaveState) (attempt : ℕ) (a : Attempt) : SaveState :=
  { s with attempts := Function.update s.attempts attempt a }

def setCaller (s : SaveState) (caller : ℕ) (c : Caller) : SaveState :=
  { s with callers := Function.update s.callers caller c }

/-- The write the caller's promise is. -/
def startSave (s : SaveState) (caller : ℕ) : SaveState :=
  { s with
    attempts := Function.update s.attempts s.started .makingDirectory
    inFlightSave := some s.started
    started := s.started + 1
    callers := Function.update s.callers caller (.returns s.started) }

/-- `save()` up to its first await. -/
def save (s : SaveState) (caller : ℕ) : SaveState :=
  match s.inFlightSave with
  | some current => { s with followUpNeeded := true, callers := Function.update s.callers caller (.awaits current) }
  | none => s.startSave caller

/-- `save()` after `await current`. -/
def resume (s : SaveState) (caller current : ℕ) : SaveState :=
  match s.inFlightSave with
  | some attempt =>
    if attempt ≠ current then s.setCaller caller (.returns attempt)
    else if !s.followUpNeeded then s.setCaller caller .resolved
    else { s with followUpNeeded := false }.startSave caller
  | none =>
    if !s.followUpNeeded then s.setCaller caller .resolved
    else { s with followUpNeeded := false }.startSave caller

/-- No microtask is left. -/
def idle (s : SaveState) : Bool :=
  ((List.range s.started).all fun i => match s.attempts i with | .finished _ | .cleared _ => false | _ => true) &&
    (List.range s.called).all fun i => match s.callers i with | .resumes _ => false | _ => true

/-- What the settled write means for a caller. -/
def released (attempt : ℕ) (result : Option Snapshot) : Caller → Caller
  | .awaits current => if current = attempt then (if result.isSome then .resumes current else .rejected) else .awaits current
  | .returns returned => if returned = attempt then (if result.isSome then .resolved else .rejected) else .returns returned
  | c => c

def step (s : SaveState) : SaveEvent → SaveState
  | .call c =>
    if s.registry.saves c then
      let mutations := s.mutations ++ [c]
      { s with
        registry := s.registry.step c
        mutations
        called := s.called + 1
        mutated := Function.update s.mutated s.called mutations.length }.save s.called
    else s
  | .mkdirSettles attempt ok =>
    match s.attempts attempt, s.idle with
    | .makingDirectory, true =>
      if ok then s.setAttempt attempt (.writing ⟨s.registry, s.mutations.length⟩) else s.setAttempt attempt (.finished none)
    | _, _ => s
  | .writeSettles attempt ok =>
    match s.attempts attempt, s.idle with
    | .writing snapshot, true => if ok then s.setAttempt attempt (.renamingInto snapshot) else s.setAttempt attempt .unlinking
    | _, _ => s
  | .renameSettles attempt ok =>
    match s.attempts attempt, s.idle with
    | .renamingInto snapshot, true =>
      if ok then { s with renamed := s.renamed ++ [snapshot] }.setAttempt attempt (.finished (some snapshot))
      else s.setAttempt attempt .unlinking
    | _, _ => s
  | .unlinkSettles attempt =>
    match s.attempts attempt, s.idle with
    | .unlinking, true => s.setAttempt attempt (.finished none)
    | _, _ => s
  | .finallyRuns attempt =>
    match s.attempts attempt with
    | .finished result =>
      { s with inFlightSave := if s.inFlightSave = some attempt then none else s.inFlightSave }.setAttempt attempt (.cleared result)
    | _ => s
  | .promiseSettles attempt =>
    match s.attempts attempt with
    | .cleared result => { s with callers := fun i => released attempt result (s.callers i) }.setAttempt attempt (.settled result)
    | _ => s
  | .resumes caller =>
    match s.callers caller with
    | .resumes current => s.resume caller current
    | _ => s

/-! ## The invariant -/

variable {r₀ : SessionRegistry} {s : SaveState}

/-- A write under way has only made its directory so far. -/
def Early (s : SaveState) : Prop := ∀ i, s.inFlightSave = some i → s.attempts i = .makingDirectory

/-- The snapshot is of the registry after its mutations. -/
def Taken (r₀ : SessionRegistry) (s : SaveState) (v : Snapshot) : Prop :=
  v.mutations ≤ s.mutations.length ∧ v.registry = (s.mutations.take v.mutations).foldl SessionRegistry.step r₀

def AttemptOk (r₀ : SessionRegistry) (s : SaveState) (i : ℕ) : Attempt → Prop
  | .unstarted => s.started ≤ i ∧ s.inFlightSave ≠ some i
  | .makingDirectory | .unlinking | .finished none => i < s.started ∧ s.inFlightSave = some i
  | .writing v | .renamingInto v =>
    i < s.started ∧ s.inFlightSave = some i ∧ Taken r₀ s v ∧ ∀ u ∈ s.renamed, u.mutations ≤ v.mutations
  | .finished (some v) => i < s.started ∧ s.inFlightSave = some i ∧ v ∈ s.renamed
  | .cleared result => i < s.started ∧ s.inFlightSave ≠ some i ∧ (∀ v, result = some v → v ∈ s.renamed) ∧ s.Early
  | .settled _ => i < s.started ∧ s.inFlightSave ≠ some i

/-- The write has what a call with so many mutations needs, if it succeeds. -/
def Serves (mutated : ℕ) : Attempt → Prop
  | .unstarted | .settled _ => False
  | .makingDirectory | .unlinking | .finished none | .cleared none => True
  | .writing v | .renamingInto v | .finished (some v) | .cleared (some v) => mutated ≤ v.mutations

def CallerOk (s : SaveState) (c : ℕ) : Caller → Prop
  | .uncalled | .rejected => True
  | .awaits a => c < s.called ∧ ((s.inFlightSave = some a ∧ s.followUpNeeded = true) ∨
      (∃ result, s.attempts a = .cleared result) ∧ (s.followUpNeeded = true ∨ s.inFlightSave ≠ none))
  | .resumes a => c < s.called ∧ a < s.started ∧ s.inFlightSave ≠ some a ∧ (s.followUpNeeded = true ∨ s.inFlightSave ≠ none) ∧
      s.Early
  | .returns a => Serves (s.mutated c) (s.attempts a)
  | .resolved => ∃ v ∈ s.renamed, s.mutated c ≤ v.mutations

structure Inv (r₀ : SessionRegistry) (s : SaveState) : Prop where
  attempts : ∀ i, AttemptOk r₀ s i (s.attempts i)
  callers : ∀ c, CallerOk s c (s.callers c)
  flying : ∀ i, s.inFlightSave = some i → i < s.started
  registry : s.registry = s.mutations.foldl SessionRegistry.step r₀
  renamed : ∀ v ∈ s.renamed, Taken r₀ s v
  sorted : s.renamed.Pairwise fun u v => u.mutations ≤ v.mutations
  mutated : ∀ c, s.mutated c ≤ s.mutations.length

theorem inv_start (r₀ : SessionRegistry) : Inv r₀ { registry := r₀ } where
  attempts i := ⟨Nat.zero_le i, by simp⟩
  callers _ := trivial
  flying i h := by cases h
  registry := rfl
  renamed _ h := by cases h
  sorted := List.Pairwise.nil
  mutated _ := Nat.le_refl 0

theorem Inv.setCaller (h : Inv r₀ s) {c : ℕ} {x : Caller} (hx : CallerOk s c x) : Inv r₀ (s.setCaller c x) := by
  refine { h with callers := fun d => ?_ }
  by_cases hd : d = c
  · subst hd
    have heq : (s.setCaller d x).callers d = x := Function.update_self ..
    rw [heq]
    exact hx
  · have heq : (s.setCaller c x).callers d = s.callers d := Function.update_of_ne hd ..
    rw [heq]
    exact h.callers d

theorem Inv.askFollowUp (h : Inv r₀ s) : Inv r₀ { s with followUpNeeded := true } := by
  refine { h with callers := fun c => ?_ }
  have hc := h.callers c
  show CallerOk { s with followUpNeeded := true } c (s.callers c)
  generalize s.callers c = x at hc ⊢
  cases x with
  | awaits a =>
    obtain ⟨hcalled, hfly | hcleared⟩ := hc
    · exact ⟨hcalled, Or.inl ⟨hfly.1, rfl⟩⟩
    · exact ⟨hcalled, Or.inr ⟨hcleared.1, Or.inl rfl⟩⟩
  | resumes a =>
    obtain ⟨hcalled, hstarted, hne, -, hearly⟩ := hc
    exact ⟨hcalled, hstarted, hne, Or.inl rfl, hearly⟩
  | uncalled | rejected | returns a | resolved => exact hc

theorem AttemptOk.lt {i : ℕ} {x : Attempt} (h : AttemptOk r₀ s i x) (hx : x ≠ .unstarted) : i < s.started := by
  rcases x with _ | _ | _ | _ | _ | ⟨_ | _⟩ | _ | _
  · exact absurd rfl hx
  all_goals exact h.1

/-- A new write when none is under way: what waits for a follow-up has it now. -/
theorem Inv.start (h : Inv r₀ s) (hnone : s.inFlightSave = none) (followUpNeeded : Bool) : Inv r₀ { s with
      attempts := Function.update s.attempts s.started .makingDirectory
      inFlightSave := some s.started
      started := s.started + 1
      followUpNeeded } := by
  refine { h with attempts := fun i => ?_, callers := fun c => ?_, flying := fun i hi => ?_ }
  · show AttemptOk r₀ _ i (Function.update s.attempts s.started Attempt.makingDirectory i)
    by_cases hi : i = s.started
    · subst hi
      rw [Function.update_self]
      exact ⟨Nat.lt_succ_self _, rfl⟩
    rw [Function.update_of_ne hi]
    have ha := h.attempts i
    have hne : some s.started ≠ some i := fun heq => hi (Option.some.inj heq).symm
    generalize s.attempts i = x at ha ⊢
    cases x with
    | unstarted => exact ⟨Nat.lt_of_le_of_ne ha.1 (Ne.symm hi), hne⟩
    | cleared result =>
      refine ⟨Nat.lt_succ_of_lt ha.1, hne, ha.2.2.1, ?_⟩
      intro j hj
      obtain rfl := Option.some.inj hj
      exact Function.update_self ..
    | settled result => exact ⟨Nat.lt_succ_of_lt ha.1, hne⟩
    | makingDirectory | unlinking | writing v | renamingInto v =>
      have hfly := ha.2
      simp [hnone] at hfly
    | finished result =>
      cases result with
      | none | some v =>
        have hfly := ha.2
        simp [hnone] at hfly
  · have hc := h.callers c
    show CallerOk _ c (s.callers c)
    generalize s.callers c = x at hc ⊢
    cases x with
    | uncalled | rejected | resolved => exact hc
    | awaits a =>
      obtain ⟨hcalled, hfly | ⟨⟨result, hcleared⟩, -⟩⟩ := hc
      · rw [hnone] at hfly
        cases hfly.1
      · have ha := h.attempts a
        rw [hcleared] at ha
        refine ⟨hcalled, Or.inr ⟨⟨result, ?_⟩, Or.inr (by simp)⟩⟩
        exact (Function.update_of_ne (Nat.ne_of_lt ha.1) ..).trans hcleared
    | resumes a =>
      obtain ⟨hcalled, hstarted, -, -, -⟩ := hc
      refine ⟨hcalled, Nat.lt_succ_of_lt hstarted, ?_, Or.inr (by simp), ?_⟩
      · intro heq
        exact Nat.ne_of_gt hstarted (Option.some.inj heq)
      · intro j hj
        obtain rfl := Option.some.inj hj
        exact Function.update_self ..
    | returns a =>
      have hne : a ≠ s.started := by
        rintro rfl
        refine Nat.lt_irrefl _ ((h.attempts s.started).lt fun hy => ?_)
        simp only [CallerOk, hy, Serves] at hc
      show Serves (s.mutated c) (Function.update s.attempts s.started Attempt.makingDirectory a)
      rw [Function.update_of_ne hne]
      exact hc
  · obtain rfl := Option.some.inj hi
    exact Nat.lt_succ_self _

theorem Taken.grow {v : Snapshot} (h : Taken r₀ s v) (c : RegistryCall) : v.mutations ≤ (s.mutations ++ [c]).length ∧
      v.registry = ((s.mutations ++ [c]).take v.mutations).foldl SessionRegistry.step r₀ := by
  refine ⟨?_, ?_⟩
  · rw [length_append]
    exact Nat.le_add_right_of_le h.1
  · rw [take_append_of_le_length h.1]
    exact h.2

/-- A mutation, noted for the caller that makes it. -/
theorem Inv.mutate (h : Inv r₀ s) (c : RegistryCall) (hnew : s.callers s.called = .uncalled) : Inv r₀ { s with
      registry := s.registry.step c
      mutations := s.mutations ++ [c]
      called := s.called + 1
      mutated := Function.update s.mutated s.called (s.mutations ++ [c]).length } := by
  refine { h with
    attempts := fun i => ?_, callers := fun d => ?_, registry := ?_, renamed := fun v hv => (h.renamed v hv).grow c, mutated := fun d => ?_ }
  · have ha := h.attempts i
    show AttemptOk r₀ _ i (s.attempts i)
    generalize s.attempts i = x at ha ⊢
    cases x with
    | writing v | renamingInto v => exact ⟨ha.1, ha.2.1, ha.2.2.1.grow c, ha.2.2.2⟩
    | unstarted | makingDirectory | unlinking | cleared result | settled result => exact ha
    | finished result =>
      cases result with
      | none | some v => exact ha
  · have hd := h.callers d
    have hmutated : s.callers d ≠ .uncalled → Function.update s.mutated s.called (s.mutations ++ [c]).length d = s.mutated d := by
      intro hne
      refine Function.update_of_ne ?_ ..
      rintro rfl
      exact hne hnew
    show CallerOk _ d (s.callers d)
    generalize s.callers d = x at hd hmutated ⊢
    cases x with
    | uncalled | rejected => trivial
    | awaits a | resumes a => exact ⟨Nat.lt_succ_of_lt hd.1, hd.2⟩
    | returns a | resolved =>
      simp only [CallerOk, hmutated (by simp)]
      exact hd
  · rw [foldl_append, ← h.registry]
    rfl
  · by_cases hd : d = s.called
    · subst hd
      exact (Function.update_self ..).le
    · refine (Function.update_of_ne hd ..).le.trans ?_
      rw [length_append]
      exact Nat.le_add_right_of_le (h.mutated d)

/-! ### What the file operations do -/

theorem Inv.idle (h : Inv r₀ s) (hidle : s.idle = true) :
    (∀ i result, s.attempts i ≠ .finished result) ∧ (∀ i result, s.attempts i ≠ .cleared result) ∧
      ∀ c a, s.callers c ≠ .resumes a := by
  simp only [SaveState.idle, Bool.and_eq_true, all_eq_true, mem_range] at hidle
  refine ⟨?_, ?_, ?_⟩
  · intro i result heq
    have := hidle.1 i ((h.attempts i).lt (by simp [heq]))
    rw [heq] at this
    cases this
  · intro i result heq
    have := hidle.1 i ((h.attempts i).lt (by simp [heq]))
    rw [heq] at this
    cases this
  · intro c a heq
    have hc := h.callers c
    rw [heq] at hc
    have := hidle.2 c hc.1
    rw [heq] at this
    cases this

/-- The write under way goes on. -/
theorem Inv.advance (h : Inv r₀ s) (hidle : s.idle = true) {i : ℕ} {x : Attempt} (hfly : s.inFlightSave = some i)
    (hx : AttemptOk r₀ s i x) (hnot : ∀ result, x ≠ .cleared result)
    (hserves : ∀ m, m ≤ s.mutations.length → Serves m (s.attempts i) → Serves m x) : Inv r₀ (s.setAttempt i x) := by
  obtain ⟨-, hcleared, hresumes⟩ := h.idle hidle
  have hkeep : ∀ {j y}, AttemptOk r₀ s j y → (∀ result, y ≠ .cleared result) → AttemptOk r₀ (s.setAttempt i x) j y := fun {j y} hy hne => by
    cases y with
    | cleared result => exact absurd rfl (hne result)
    | unstarted | makingDirectory | unlinking | settled result | writing v | renamingInto v => exact hy
    | finished result =>
      cases result with
      | none | some v => exact hy
  refine { h with attempts := fun j => ?_, callers := fun c => ?_ }
  · show AttemptOk r₀ (s.setAttempt i x) j (Function.update s.attempts i x j)
    by_cases hj : j = i
    · subst hj
      rw [Function.update_self]
      exact hkeep hx hnot
    · rw [Function.update_of_ne hj]
      exact hkeep (h.attempts j) (hcleared j)
  · have hc := h.callers c
    show CallerOk (s.setAttempt i x) c (s.callers c)
    cases hy : s.callers c with
    | resumes a => exact absurd hy (hresumes c a)
    | awaits a =>
      rw [hy] at hc
      obtain ⟨hcalled, hfly' | ⟨⟨result, hr⟩, -⟩⟩ := hc
      · exact ⟨hcalled, Or.inl hfly'⟩
      · exact absurd hr (hcleared a result)
    | returns a =>
      rw [hy] at hc
      show Serves (s.mutated c) (Function.update s.attempts i x a)
      by_cases ha : a = i
      · subst ha
        rw [Function.update_self]
        exact hserves _ (h.mutated c) hc
      · rw [Function.update_of_ne ha]
        exact hc
    | uncalled | rejected | resolved =>
      rw [hy] at hc
      exact hc

/-- The snapshot being renamed is in place. -/
theorem Inv.rename (h : Inv r₀ s) {i : ℕ} {v : Snapshot} (hv : s.attempts i = .renamingInto v) :
    Inv r₀ { s with renamed := s.renamed ++ [v] } := by
  have hi := h.attempts i
  rw [hv] at hi
  obtain ⟨-, hfly, htaken, hle⟩ := hi
  refine { h with attempts := fun j => ?_, callers := fun c => ?_, renamed := ?_, sorted := ?_ }
  · show AttemptOk r₀ _ j (s.attempts j)
    have ha := h.attempts j
    have hsame : s.inFlightSave = some j → j = i := fun hj => Option.some.inj (hj.symm.trans hfly)
    generalize hy : s.attempts j = y at ha ⊢
    cases y with
    | writing u =>
      obtain rfl := hsame ha.2.1
      rw [hv] at hy
      cases hy
    | renamingInto u =>
      obtain rfl := hsame ha.2.1
      rw [hv] at hy
      cases hy
      exact ⟨ha.1, ha.2.1, ha.2.2.1, forall_mem_append.mpr ⟨hle, forall_mem_singleton.mpr (Nat.le_refl _)⟩⟩
    | cleared result => exact ⟨ha.1, ha.2.1, fun u hu => mem_append_left _ (ha.2.2.1 u hu), ha.2.2.2⟩
    | unstarted | makingDirectory | unlinking | settled result => exact ha
    | finished result =>
      cases result with
      | none => exact ha
      | some u => exact ⟨ha.1, ha.2.1, mem_append_left _ ha.2.2⟩
  · show CallerOk _ c (s.callers c)
    have hc := h.callers c
    generalize s.callers c = x at hc ⊢
    cases x with
    | resolved =>
      obtain ⟨u, hu, hm⟩ := hc
      exact ⟨u, mem_append_left _ hu, hm⟩
    | uncalled | rejected | awaits a | resumes a | returns a => exact hc
  · exact forall_mem_append.mpr ⟨h.renamed, forall_mem_singleton.mpr htaken⟩
  · rw [pairwise_append]
    refine ⟨h.sorted, pairwise_singleton _ _, ?_⟩
    intro u hu u' hu'
    rw [mem_singleton.mp hu']
    exact hle u hu

/-! ### What the microtasks do -/

/-- The `finally` handler: whoever waits finds its follow-up asked for, and none started. -/
theorem Inv.clear (h : Inv r₀ s) {i : ℕ} {result : Option Snapshot} (hi : s.attempts i = .finished result) :
    Inv r₀ ({ s with inFlightSave := if s.inFlightSave = some i then none else s.inFlightSave }.setAttempt i (.cleared result)) := by
  have hai := h.attempts i
  have hstarted : i < s.started := hai.lt (by simp [hi])
  rw [hi] at hai
  have hfly : s.inFlightSave = some i := by
    cases result with
    | none => exact hai.2
    | some v => exact hai.2.1
  have hplaced : ∀ v, result = some v → v ∈ s.renamed := by
    rintro v rfl
    exact hai.2.2
  have hlate : ¬ s.Early := by
    intro hearly
    have := hearly i hfly
    rw [hi] at this
    cases this
  rw [if_pos hfly]
  refine { h with attempts := fun j => ?_, callers := fun c => ?_, flying := nofun }
  · show AttemptOk r₀ _ j (Function.update s.attempts i (Attempt.cleared result) j)
    by_cases hj : j = i
    · subst hj
      rw [Function.update_self]
      exact ⟨hstarted, nofun, hplaced, nofun⟩
    rw [Function.update_of_ne hj]
    have ha := h.attempts j
    have hnot : s.inFlightSave ≠ some j := fun heq => hj (Option.some.inj (heq.symm.trans hfly))
    generalize s.attempts j = y at ha ⊢
    cases y with
    | unstarted | settled r => exact ⟨ha.1, nofun⟩
    | cleared r => exact absurd ha.2.2.2 hlate
    | makingDirectory | unlinking => exact absurd ha.2 hnot
    | writing v | renamingInto v => exact absurd ha.2.1 hnot
    | finished r =>
      cases r with
      | none => exact absurd ha.2 hnot
      | some v => exact absurd ha.2.1 hnot
  · have hc := h.callers c
    show CallerOk _ c (s.callers c)
    generalize s.callers c = y at hc ⊢
    cases y with
    | uncalled | rejected | resolved => exact hc
    | resumes a => exact absurd hc.2.2.2.2 hlate
    | awaits a =>
      obtain ⟨hcalled, ⟨hfly', hfollow⟩ | ⟨⟨r, hr⟩, -⟩⟩ := hc
      · obtain rfl := Option.some.inj (hfly'.symm.trans hfly)
        exact ⟨hcalled, Or.inr ⟨⟨result, Function.update_self ..⟩, Or.inl hfollow⟩⟩
      · have ha := h.attempts a
        rw [hr] at ha
        exact absurd ha.2.2.2 hlate
    | returns a =>
      show Serves (s.mutated c) (Function.update s.attempts i (Attempt.cleared result) a)
      by_cases ha : a = i
      · subst ha
        rw [Function.update_self]
        simp only [CallerOk, hi] at hc
        cases result with
        | none | some v => exact hc
      · rw [Function.update_of_ne ha]
        exact hc

/-- The promise settles: its waiters resume, its callers have their answer. -/
theorem Inv.settle (h : Inv r₀ s) {i : ℕ} {result : Option Snapshot} (hi : s.attempts i = .cleared result) :
    Inv r₀ ({ s with callers := fun c => released i result (s.callers c) }.setAttempt i (.settled result)) := by
  have hai := h.attempts i
  rw [hi] at hai
  obtain ⟨hstarted, hnot, hplaced, hearly⟩ := hai
  have hearly' : ∀ j, s.inFlightSave = some j → Function.update s.attempts i (Attempt.settled result) j = .makingDirectory := by
    intro j hj
    have hne : j ≠ i := by
      rintro rfl
      exact hnot hj
    rw [Function.update_of_ne hne]
    exact hearly j hj
  refine { h with attempts := fun j => ?_, callers := fun c => ?_ }
  · show AttemptOk r₀ _ j (Function.update s.attempts i (Attempt.settled result) j)
    by_cases hj : j = i
    · subst hj
      rw [Function.update_self]
      exact ⟨hstarted, hnot⟩
    rw [Function.update_of_ne hj]
    have ha := h.attempts j
    generalize s.attempts j = y at ha ⊢
    cases y with
    | cleared r => exact ⟨ha.1, ha.2.1, ha.2.2.1, hearly'⟩
    | unstarted | makingDirectory | unlinking | settled r | writing v | renamingInto v => exact ha
    | finished r =>
      cases r with
      | none | some v => exact ha
  · have hc := h.callers c
    show CallerOk _ c (released i result (s.callers c))
    generalize s.callers c = y at hc ⊢
    cases y with
    | uncalled | rejected | resolved => exact hc
    | resumes a => exact ⟨hc.1, hc.2.1, hc.2.2.1, hc.2.2.2.1, hearly'⟩
    | awaits a =>
      by_cases ha : a = i
      · subst ha
        cases result with
        | none =>
          simp only [released, if_true]
          trivial
        | some v =>
          have hfollow : s.followUpNeeded = true ∨ s.inFlightSave ≠ none := by
            rcases hc.2 with hfly | hcleared
            · exact absurd hfly.1 hnot
            · exact hcleared.2
          simp only [released, if_true]
          exact ⟨hc.1, hstarted, hnot, hfollow, hearly'⟩
      · simp only [released, if_neg ha]
        obtain ⟨hcalled, hfly | ⟨⟨r, hr⟩, hfollow⟩⟩ := hc
        · exact ⟨hcalled, Or.inl hfly⟩
        · exact ⟨hcalled, Or.inr ⟨⟨r, (Function.update_of_ne ha ..).trans hr⟩, hfollow⟩⟩
    | returns a =>
      by_cases ha : a = i
      · subst ha
        simp only [CallerOk, hi] at hc
        cases result with
        | none =>
          simp only [released, if_true]
          trivial
        | some v =>
          simp only [released, if_true]
          exact ⟨v, hplaced v rfl, hc⟩
      · simp only [released, if_neg ha]
        show Serves (s.mutated c) (Function.update s.attempts i (Attempt.settled result) a)
        rw [Function.update_of_ne ha]
        exact hc

/-- A waiter joins the write that started meanwhile, or starts the follow-up it asked for. -/
theorem Inv.resume (h : Inv r₀ s) {c a : ℕ} (hc : s.callers c = .resumes a) : Inv r₀ (s.resume c a) := by
  have hok := h.callers c
  rw [hc] at hok
  obtain ⟨-, -, hne, hfollow, hearly⟩ := hok
  unfold SaveState.resume
  split
  · next attempt hfly =>
    have hother : attempt ≠ a := by
      rintro rfl
      exact hne hfly
    rw [if_pos hother]
    refine h.setCaller ?_
    show Serves (s.mutated c) (s.attempts attempt)
    rw [hearly attempt hfly]
    trivial
  · next hfly =>
    have hasked : s.followUpNeeded = true := hfollow.resolve_right fun hne => hne hfly
    rw [hasked]
    have hstart := h.start hfly false
    refine hstart.setCaller (c := c) (x := .returns s.started) ?_
    show Serves (s.mutated c) (Function.update s.attempts s.started Attempt.makingDirectory s.started)
    rw [Function.update_self]
    trivial

/-! ## Runs -/

/-- The callers so far have called, the others have not. -/
def Known (s : SaveState) : Prop := ∀ c, s.callers c = .uncalled ↔ s.called ≤ c

section

variable {callers : ℕ → Caller} {called : ℕ} (h : ∀ c, callers c = .uncalled ↔ called ≤ c)
include h

theorem Known.update {c : ℕ} {x : Caller}
    (hc : c < called) (hx : x ≠ .uncalled) (d : ℕ) : Function.update callers c x d = .uncalled ↔ called ≤ d := by
  by_cases hd : d = c
  · subst hd
    rw [Function.update_self]
    constructor
    · exact fun heq => absurd heq hx
    · intro hle
      omega
  · rw [Function.update_of_ne hd]
    exact h d

theorem Known.call {x : Caller} (hx : x ≠ .uncalled) (d : ℕ) : Function.update callers called x d = .uncalled ↔ called + 1 ≤ d := by
  by_cases hd : d = called
  · subst hd
    rw [Function.update_self]
    constructor
    · exact fun heq => absurd heq hx
    · intro hle
      omega
  · rw [Function.update_of_ne hd, h d]
    omega

end

theorem released_eq_uncalled (attempt : ℕ) (result : Option Snapshot) (c : Caller) :
    released attempt result c = .uncalled ↔ c = .uncalled := by
  cases c with
  | awaits a | returns a =>
    simp only [released, reduceCtorEq, iff_false]
    split
    · split <;> simp
    · simp
  | uncalled | resumes current | resolved | rejected => simp [released]

theorem Known.resume (hk : Known s) {c a : ℕ} (hc : s.callers c = .resumes a) : Known (s.resume c a) := by
  have hlt : c < s.called := by
    by_contra hge
    have huncalled := (hk c).mpr (not_lt.mp hge)
    rw [hc] at huncalled
    cases huncalled
  have hset : ∀ x, x ≠ .uncalled → ∀ d, Function.update s.callers c x d = .uncalled ↔ s.called ≤ d :=
    fun x hx => Known.update hk hlt hx
  unfold SaveState.resume
  split
  · split
    · exact hset _ (by simp)
    · split <;> exact hset _ (by simp)
  · split <;> exact hset _ (by simp)

theorem known_step (hk : Known s) (e : SaveEvent) : Known (s.step e) := by
  cases e with
  | call c =>
    simp only [step]
    split
    · simp only [save]
      split <;> exact Known.call hk (by simp)
    · exact hk
  | mkdirSettles attempt ok | writeSettles attempt ok | renameSettles attempt ok =>
    simp only [step]
    split
    · split <;> exact hk
    · exact hk
  | unlinkSettles attempt | finallyRuns attempt =>
    simp only [step]
    split <;> exact hk
  | promiseSettles attempt =>
    simp only [step]
    split
    · exact fun c => (released_eq_uncalled ..).trans (hk c)
    · exact hk
  | resumes caller =>
    simp only [step]
    split
    · next current hcaller => exact hk.resume hcaller
    · exact hk

theorem Inv.step (h : Inv r₀ s) (hk : Known s) (e : SaveEvent) : Inv r₀ (s.step e) := by
  cases e with
  | call c =>
    simp only [SaveState.step]
    split
    · have hmutated := h.mutate c ((hk s.called).mpr (Nat.le_refl _))
      simp only [save]
      split
      · next current hfly =>
        exact hmutated.askFollowUp.setCaller (c := s.called) (x := .awaits current) ⟨Nat.lt_succ_self _, Or.inl ⟨hfly, rfl⟩⟩
      · next hfly =>
        refine (hmutated.start hfly s.followUpNeeded).setCaller (c := s.called) (x := .returns s.started) ?_
        show Serves _ (Function.update s.attempts s.started Attempt.makingDirectory s.started)
        rw [Function.update_self]
        trivial
    · exact h
  | mkdirSettles i ok =>
    simp only [SaveState.step]
    split
    · next hi hidle =>
      have ha := h.attempts i
      rw [hi] at ha
      split
      · refine h.advance hidle ha.2 ⟨ha.1, ha.2, ⟨Nat.le_refl _, ?_⟩, fun u hu => (h.renamed u hu).1⟩ (by simp) ?_
        · rw [take_length]
          exact h.registry
        · exact fun m hm _ => hm
      · exact h.advance hidle ha.2 ha (by simp) (fun _ _ _ => trivial)
    · exact h
  | writeSettles i ok =>
    simp only [SaveState.step]
    split
    · next v hi hidle =>
      have ha := h.attempts i
      rw [hi] at ha
      split
      · refine h.advance hidle ha.2.1 ha (by simp) ?_
        intro m _ hm
        rw [hi] at hm
        exact hm
      · exact h.advance hidle ha.2.1 ⟨ha.1, ha.2.1⟩ (by simp) (fun _ _ _ => trivial)
    · exact h
  | renameSettles i ok =>
    simp only [SaveState.step]
    split
    · next v hi hidle =>
      have ha := h.attempts i
      rw [hi] at ha
      split
      · refine (h.rename hi).advance hidle ha.2.1 ⟨ha.1, ha.2.1, mem_append_right _ mem_cons_self⟩ (by simp) ?_
        intro m _ hm
        have hm' : Serves m (s.attempts i) := hm
        rw [hi] at hm'
        exact hm'
      · exact h.advance hidle ha.2.1 ⟨ha.1, ha.2.1⟩ (by simp) (fun _ _ _ => trivial)
    · exact h
  | unlinkSettles i =>
    simp only [SaveState.step]
    split
    · next hi hidle =>
      have ha := h.attempts i
      rw [hi] at ha
      exact h.advance hidle ha.2 ha (by simp) (fun _ _ _ => trivial)
    · exact h
  | finallyRuns i =>
    simp only [SaveState.step]
    split
    · next result hi => exact h.clear hi
    · exact h
  | promiseSettles i =>
    simp only [SaveState.step]
    split
    · next result hi => exact h.settle hi
    · exact h
  | resumes caller =>
    simp only [SaveState.step]
    split
    · next current hc => exact h.resume hc
    · exact h

/-- The state after the events, with the file's registry loaded. -/
def after (r₀ : SessionRegistry) (events : List SaveEvent) : SaveState := events.foldl step { registry := r₀ }

theorem inv_after (r₀ : SessionRegistry) (events : List SaveEvent) : Inv r₀ (after r₀ events) ∧ Known (after r₀ events) := by
  have hstep : ∀ s e, (Inv r₀ s ∧ Known s) → Inv r₀ (s.step e) ∧ Known (s.step e) :=
    fun s e h => ⟨h.1.step h.2 e, known_step h.2 e⟩
  have hstart : Known { registry := r₀ } := fun c => by simp
  exact Run.invariant_all hstep ⟨inv_start r₀, hstart⟩ events

/-- Nothing is under way: no write and no microtask. -/
def AtRest (s : SaveState) : Prop := s.idle = true ∧ ∀ i, (s.attempts i).isActive = false

/-- What the saves of a run owe the calls of it. -/
structure Saved (r₀ : SessionRegistry) (s : SaveState) : Prop where
  /-- One write at a time. -/
  single : ∀ i j, (s.attempts i).isActive → (s.attempts j).isActive → i = j
  /-- What is renamed into place is the registry after so many mutations. -/
  taken : ∀ v ∈ s.renamed, Taken r₀ s v
  /-- A resolved call's mutation is in a snapshot in place, and in every one put there later. -/
  resolved : ∀ c, s.callers c = .resolved → ∃ before v later, s.renamed = before ++ v :: later ∧
    s.mutated c ≤ v.mutations ∧ ∀ u ∈ later, s.mutated c ≤ u.mutations
  /-- At rest every call has settled, and one whose mutation is in no snapshot in place was rejected. -/
  rejected : s.AtRest → ∀ c < s.called, (s.callers c = .resolved ∨ s.callers c = .rejected) ∧
    ((∀ v ∈ s.renamed, v.mutations < s.mutated c) → s.callers c = .rejected)

theorem Inv.flying_of_active (h : Inv r₀ s) {i : ℕ} (ha : (s.attempts i).isActive) : s.inFlightSave = some i := by
  have hi := h.attempts i
  cases hx : s.attempts i with
  | makingDirectory | unlinking =>
    rw [hx] at hi
    exact hi.2
  | writing v | renamingInto v =>
    rw [hx] at hi
    exact hi.2.1
  | unstarted | finished result | cleared result | settled result =>
    rw [hx] at ha
    cases ha

theorem Inv.active_of_flying (h : Inv r₀ s) {i : ℕ} (hfly : s.inFlightSave = some i) :
    (s.attempts i).isActive = true ∨ ∃ result, s.attempts i = .finished result := by
  have hi := h.attempts i
  cases hx : s.attempts i with
  | makingDirectory | unlinking | writing v | renamingInto v => exact Or.inl rfl
  | finished result => exact Or.inr ⟨result, rfl⟩
  | unstarted | settled result =>
    rw [hx] at hi
    exact absurd hfly hi.2
  | cleared result =>
    rw [hx] at hi
    exact absurd hfly hi.2.1

/-- For every registry and every order of calls, file operations and microtasks. -/
theorem coalesced_saves (r₀ : SessionRegistry) (events : List SaveEvent) : Saved r₀ (after r₀ events) := by
  obtain ⟨h, hk⟩ := inv_after r₀ events
  generalize after r₀ events = s at h hk
  have hresolved : ∀ c, s.callers c = .resolved → ∃ v ∈ s.renamed, s.mutated c ≤ v.mutations := by
    intro c hc
    have hok := h.callers c
    rw [hc] at hok
    exact hok
  constructor
  · intro i j hi hj
    exact Option.some.inj ((h.flying_of_active hi).symm.trans (h.flying_of_active hj))
  · exact h.renamed
  · intro c hc
    obtain ⟨v, hv, hm⟩ := hresolved c hc
    obtain ⟨before, later, hrenamed⟩ := append_of_mem hv
    refine ⟨before, v, later, hrenamed, hm, ?_⟩
    intro u hu
    have hsorted := h.sorted
    rw [hrenamed, pairwise_append, pairwise_cons] at hsorted
    exact hm.trans (hsorted.2.1.1 u hu)
  · rintro ⟨hidle, hactive⟩ c hc
    obtain ⟨hfinished, hcleared, hresumes⟩ := h.idle hidle
    have hok := h.callers c
    have hsettled : s.callers c = .resolved ∨ s.callers c = .rejected := by
      cases hx : s.callers c with
      | resolved => exact Or.inl rfl
      | rejected => exact Or.inr rfl
      | uncalled => exact absurd ((hk c).mp hx) (not_le.mpr hc)
      | resumes a => exact absurd hx (hresumes c a)
      | awaits a =>
        rw [hx] at hok
        rcases hok.2 with ⟨hfly, -⟩ | ⟨⟨result, hr⟩, -⟩
        · rcases h.active_of_flying hfly with hact | ⟨result, hr⟩
          · rw [hactive a] at hact
            cases hact
          · exact absurd hr (hfinished a result)
        · exact absurd hr (hcleared a result)
      | returns a =>
        rw [hx] at hok
        simp only [CallerOk] at hok
        have hact := hactive a
        cases hy : s.attempts a with
        | unstarted | settled result =>
          rw [hy] at hok
          exact hok.elim
        | finished result => exact absurd hy (hfinished a result)
        | cleared result => exact absurd hy (hcleared a result)
        | makingDirectory | unlinking | writing v | renamingInto v =>
          rw [hy] at hact
          cases hact
    refine ⟨hsettled, ?_⟩
    intro hnone
    refine hsettled.resolve_left fun hres => ?_
    obtain ⟨v, hv, hm⟩ := hresolved c hres
    exact absurd hm (not_le.mpr (hnone v hv))

end SaveState

end PiWebUi.Registry.Saves
