/-
  PiWebUi.Workers.PoolSafety — one live worker for a path, none outside the map.

  Everything the pool does between two awaits keeps it safe; what can break it is the call
  that goes on after the idle clean-up with checks made before it. Along a run of the pool
  every state is safe exactly when no such call was overtaken (`safe_iff_undisturbed`): by
  another call that created a worker of the same path, or by `shutdownAll`. The bound on the
  number of workers holds along every run, as the size is checked again (`Safe.bounded` of
  `step_spec`).
-/

import PiWebUi.Workers.WorkerPool
import PiWebUi.Lib.InFlight
import PiWebUi.Lib.Run

namespace PiWebUi.Workers

open PiWebUi.Lib List Option

namespace WorkerPool

/-- The map holds workers whose resource is not released, each for its path. -/
structure Inv (s : WorkerPool) : Prop extends s.Safe where
  known : ∀ path i, s.workers.get path = some i →
    ∃ w, s.constructed[i]? = some w ∧ w.sessionPath = path ∧ w.lifecycle ≠ .released

/-! ## Steps that leave workers, map and owners alone -/

def workerState (w : SessionWorker) : JsString × Bool × Bool := (w.sessionPath, decide (w.lifecycle = .released), w.afterShutdown)

structure Quiet (s t : WorkerPool) : Prop where
  workers : t.workers = s.workers
  owners : t.globalWorkerOwners = s.globalWorkerOwners
  maxWorkers : t.maxWorkers = s.maxWorkers
  constructed : t.constructed.map workerState = s.constructed.map workerState

namespace Quiet

variable {s t u : WorkerPool}

theorem refl (s : WorkerPool) : Quiet s s := ⟨rfl, rfl, rfl, rfl⟩

theorem trans (h : Quiet s t) (h' : Quiet t u) : Quiet s u :=
  ⟨h'.workers.trans h.workers, h'.owners.trans h.owners, h'.maxWorkers.trans h.maxWorkers, h'.constructed.trans h.constructed⟩

theorem symm (h : Quiet s t) : Quiet t s := ⟨h.workers.symm, h.owners.symm, h.maxWorkers.symm, h.constructed.symm⟩

theorem worker (h : Quiet s t) {i : ℕ} {w : SessionWorker} (hw : t.constructed[i]? = some w) :
    ∃ v, s.constructed[i]? = some v ∧ workerState v = workerState w := by
  have hi : (t.constructed.map workerState)[i]? = some (workerState w) := by simp [hw]
  rw [h.constructed, getElem?_map, map_eq_some_iff] at hi
  exact hi

theorem safe (h : Quiet s t) (hs : s.Safe) : t.Safe := by
  refine ⟨?_, ?_, ?_, ?_⟩
  · rw [h.workers, h.maxWorkers]
    exact hs.bounded
  · intro i w hw hl
    obtain ⟨v, hv, hvw⟩ := h.worker hw
    simp only [workerState, Prod.mk.injEq, decide_eq_decide] at hvw
    rw [h.workers, ← hvw.1]
    exact hs.registered i v hv fun hr => hl (hvw.2.1.mp hr)
  · intro w hw
    obtain ⟨i, hi⟩ := mem_iff_getElem?.mp hw
    obtain ⟨v, hv, hvw⟩ := h.worker hi
    simp only [workerState, Prod.mk.injEq] at hvw
    rw [← hvw.2.2]
    exact hs.noneAfterShutdown v (mem_of_getElem? hv)
  · rw [h.owners, h.workers]
    exact hs.owned

theorem inv (h : Quiet s t) (hs : s.Inv) : t.Inv := by
  refine ⟨h.safe hs.toSafe, ?_⟩
  intro path i hi
  rw [h.workers] at hi
  obtain ⟨v, hv, hpath, hl⟩ := hs.known path i hi
  obtain ⟨w, hw, hwv⟩ := h.symm.worker hv
  simp only [workerState, Prod.mk.injEq, decide_eq_decide] at hwv
  exact ⟨w, hw, hwv.1.trans hpath, fun hr => hl (hwv.2.1.mp hr)⟩

end Quiet

theorem quiet_answer (s : WorkerPool) (k : ℕ) (result : Except JsString ℕ) : Quiet s (s.answer k result) := ⟨rfl, rfl, rfl, rfl⟩

theorem quiet_await (s : WorkerPool) (k : ℕ) (call : Call) : Quiet s (s.await k call) := ⟨rfl, rfl, rfl, rfl⟩

theorem quiet_modifyWorker (s : WorkerPool) (i : ℕ) {f : SessionWorker → SessionWorker}
    (hf : ∀ w, s.constructed[i]? = some w → workerState (f w) = workerState w) : Quiet s (s.modifyWorker i f) := by
  exact ⟨rfl, rfl, rfl, InFlight.map_modify hf⟩

theorem quiet_terminateOwned (s : WorkerPool) (path : JsString) (worker : ℕ) : Quiet s (s.terminateOwned path worker).1 := by
  unfold terminateOwned
  split
  · exact .refl s
  · exact ⟨rfl, rfl, rfl, rfl⟩

theorem quiet_terminateIdle (now idleThreshold : ℤ) (es : List (JsString × ℕ)) :
    ∀ p : WorkerPool × List ℕ, Quiet p.1 (terminateIdle now idleThreshold es p).1 := by
  induction es with
  | nil => exact fun p => .refl p.1
  | cons e es ih =>
    intro p
    obtain ⟨path, worker⟩ := e
    obtain ⟨s, terminations⟩ := p
    simp only [terminateIdle]
    split
    · exact (quiet_terminateOwned s path worker).trans (ih (_, _))
    · exact ih (s, terminations)

variable {s : WorkerPool} {request : Request}

/-- A worker in the map is not released, so `release` finds nothing to do. -/
theorem release_eq_self (h : s.Inv) (path : JsString) (i : ℕ) : s.release path i = s := by
  unfold release
  split
  · rfl
  · next hget =>
    obtain ⟨w, hw, -, hl⟩ := h.known path i (not_not.mp hget)
    rw [if_pos]
    simp [lifecycleOf, hw, hl]

theorem cleanupTerminated_eq_self (h : s.Inv) : s.cleanupTerminated = s := by
  unfold cleanupTerminated
  induction s.workers.entries with
  | nil => rfl
  | cons e es ih =>
    rw [foldl_cons]
    split
    · rw [release_eq_self h]
      exact ih
    · exact ih

theorem quiet_cleanupIdle (h : s.Inv) (now : ℤ) (maxIdleMs : Option ℤ) : Quiet s (s.cleanupIdle now maxIdleMs).1 := by
  have hq := quiet_terminateIdle now (maxIdleMs.getD s.idleTimeoutMs) s.workers.entries (s, [])
  simp only [cleanupIdle]
  rw [cleanupTerminated_eq_self (hq.inv h)]
  exact hq

theorem inv_new (maxWorkers : ℕ) (idleTimeoutMs : ℤ) : (new maxWorkers idleTimeoutMs).Inv := by
  refine ⟨⟨Nat.zero_le _, (fun _ _ h => by cases h), (fun _ h => by cases h), fun path => ⟨(fun h => by cases h), (fun h => by cases h)⟩⟩, (fun _ _ h => by cases h)⟩

/-! ## A worker is created -/

theorem size_set {α β : Type} [DecidableEq α] {m : JsMap α β} {k : α} (h : m.get k = none) (v : β) : (m.set k v).size = m.size + 1 := by
  have hk : m.has k = false := by
    rw [← Bool.not_eq_true, JsMap.has_iff_get, h]
    simp
  rw [JsMap.size, JsMap.set_entries_of_not_has hk, length_append]
  rfl

theorem get_disown (owners : JsMap JsString Owner) (path p : JsString) :
    (disown owners path).get p = if p = path ∧ owners.get path = some .thisPool then none else owners.get p := by
  unfold disown
  by_cases h : owners.get path = some .thisPool
  · simp only [h, if_true, and_true, JsMap.get_delete]
  · simp [h]

def claimed (s : WorkerPool) (path : JsString) : WorkerPool :=
  { s with globalWorkerOwners := s.globalWorkerOwners.set path .thisPool }

theorem inv_construct (h : s.Inv) {now : ℤ} (hroom : s.workers.size < s.maxWorkers)
    (hfree : s.workers.get request.sessionPath = none) (hdown : s.shuttingDown = false) :
    ((s.claimed request.sessionPath).construct request now).Inv := by
  refine ⟨⟨?_, ?_, ?_, ?_⟩, ?_⟩
  · show (s.workers.set _ _).size ≤ s.maxWorkers
    rw [size_set hfree]
    exact hroom
  · intro i w hw hl
    show (s.workers.set _ _).get _ = _
    rw [JsMap.get_set]
    rcases InFlight.get_append hw with hw | ⟨rfl, rfl⟩
    · have hreg := h.registered i w hw hl
      rw [if_neg, hreg]
      intro hp
      rw [hp, hfree] at hreg
      cases hreg
    · exact if_pos rfl
  · exact forall_mem_append.mpr ⟨h.noneAfterShutdown, forall_mem_singleton.mpr hdown⟩
  · intro p
    show (s.globalWorkerOwners.set request.sessionPath .thisPool).get p = _ ↔ (s.workers.set request.sessionPath _).has p = true
    rw [JsMap.get_set, JsMap.has_set]
    split
    · next hp => simp [hp]
    · next hp => simp [hp, h.owned p]
  · intro p i hi
    have hi : (s.workers.set request.sessionPath s.constructed.length).get p = some i := hi
    show ∃ w, (s.constructed ++ [_])[i]? = some w ∧ _
    obtain ⟨hp, rfl⟩ | ⟨-, hi⟩ := JsMap.get_set_eq_some.mp hi
    · exact ⟨_, getElem?_concat_length, hp.symm, (fun h => by cases h)⟩
    · obtain ⟨w, hw, hpath, hl⟩ := h.known p i hi
      exact ⟨w, InFlight.append_left _ hw, hpath, hl⟩

/-- Where a call creates its worker: no worker of the path, and no shutdown unless the
    constructor throws. -/
def CreatesAlone (s : WorkerPool) (request : Request) : Prop :=
  s.ownershipError request.sessionPath = none →
    s.workers.get request.sessionPath = none ∧ (s.shuttingDown = false ∨ (constructorError request).isSome = true)

theorem get_owner_of_claimable {path : JsString} (h : s.ownershipError path = none) :
    s.globalWorkerOwners.get path = none ∨ s.globalWorkerOwners.get path = some .thisPool := by
  unfold ownershipError at h
  split at h
  · cases h
  · next hne =>
    cases ho : s.globalWorkerOwners.get path with
    | none => exact .inl rfl
    | some o =>
      cases o with
      | thisPool => exact .inr rfl
      | otherPool kind => exact absurd ho (hne kind)

theorem inv_create (h : s.Inv) {k : ℕ} {now : ℤ} (hroom : s.workers.size < s.maxWorkers)
    (halone : s.CreatesAlone request) : (s.create k request now).Inv := by
  unfold create
  split
  · exact (quiet_answer s k _).inv h
  · next hown =>
    obtain ⟨hfree, hdown⟩ := halone hown
    have hhas : s.workers.has request.sessionPath = false := by
      rw [← Bool.not_eq_true, JsMap.has_iff_get, hfree]
      simp
    have hnone : s.globalWorkerOwners.get request.sessionPath = none := by
      refine (get_owner_of_claimable hown).resolve_right fun ho => ?_
      rw [(h.owned _).mp ho] at hhas
      cases hhas
    split
    · refine (quiet_answer _ k _).inv ⟨⟨h.bounded, h.registered, h.noneAfterShutdown, fun p => ?_⟩, h.known⟩
      show (disown (s.globalWorkerOwners.set request.sessionPath .thisPool) request.sessionPath).get p = _ ↔ _
      rw [get_disown, JsMap.get_set_same, JsMap.get_set]
      by_cases hp : p = request.sessionPath
      · subst hp
        simp [hhas]
      · simp [hp, h.owned p]
    · next herr =>
      have hdown : s.shuttingDown = false := by
        refine hdown.resolve_right ?_
        rw [herr]
        simp
      exact (quiet_await _ k _).inv (inv_construct h hroom hfree hdown)

/-- A creation that leaves the pool safe was alone. -/
theorem alone_of_safe (h : s.Inv) {k : ℕ} {now : ℤ} (hsafe : (s.create k request now).Safe) : s.CreatesAlone request := by
  intro hown
  unfold create at hsafe
  rw [hown] at hsafe
  cases herr : constructorError request with
  | some error =>
    rw [herr] at hsafe
    refine ⟨?_, .inr rfl⟩
    -- the path is given up, so the map must not have it
    have hno : ¬ s.workers.has request.sessionPath = true := by
      have howned : (disown (s.globalWorkerOwners.set request.sessionPath .thisPool) request.sessionPath).get request.sessionPath =
          some .thisPool ↔ s.workers.has request.sessionPath = true := hsafe.owned request.sessionPath
      rw [← howned, get_disown, JsMap.get_set_same]
      simp
    rw [JsMap.has_iff_get] at hno
    simpa using hno
  | none =>
    rw [herr] at hsafe
    constructor
    · -- a worker of the path would be live and no longer in the map
      cases hget : s.workers.get request.sessionPath with
      | none => rfl
      | some j =>
        obtain ⟨w, hw, hpath, hl⟩ := h.known _ j hget
        have hreg : (s.workers.set request.sessionPath s.constructed.length).get w.sessionPath = some j :=
          hsafe.registered j w (InFlight.append_left _ hw) hl
        rw [hpath, JsMap.get_set_same] at hreg
        cases hreg
        simp at hw
    · left
      exact hsafe.noneAfterShutdown ⟨request.sessionPath, request.assignment, .spawning, now, .unlaunched, .spawning, s.shuttingDown⟩
        (mem_append_right _ (mem_singleton.mpr rfl))

/-! ## Every step -/

section

variable (h : s.Inv)
include h

theorem inv_makeRoom {k : ℕ} {now : ℤ}
    (hfree : s.workers.get request.sessionPath = none) (hdown : s.shuttingDown = false) : (s.makeRoom k request now).Inv := by
  unfold makeRoom
  split
  · exact (quiet_await _ k _).inv ((quiet_cleanupIdle h now none).inv h)
  · next hroom => exact inv_create h (by omega) fun _ => ⟨hfree, .inl hdown⟩

/-- A call is safe from its start to its first await, whatever state it finds. -/
theorem inv_enter (k : ℕ) (request : Request) (now : ℤ) : (s.enter k request now).Inv := by
  unfold enter
  split
  · exact (quiet_answer s k _).inv h
  · next hdown =>
    have hdown : s.shuttingDown = false := by simpa using hdown
    split
    · exact (quiet_await s k _).inv h
    · split
      · exact (quiet_await s k _).inv h
      · simp only [cleanupTerminated_eq_self h]
        split
        · next hfree => exact inv_makeRoom h hfree hdown
        · next existing hget =>
          split
          · split <;> exact (quiet_answer s k _).inv h
          · split
            · exact (quiet_answer s k _).inv h
            · next hrel =>
              obtain ⟨w, hw, -, hl⟩ := h.known _ existing hget
              simp only [lifecycleOf, hw, map_some, ne_eq, some.injEq, not_not] at hrel
              exact absurd hrel hl

theorem inv_getOrCreate (request : Request) (now : ℤ) : (s.getOrCreate request now).Inv :=
  inv_enter (s := { s with nextCall := s.nextCall + 1 }) ⟨⟨h.bounded, h.registered, h.noneAfterShutdown, h.owned⟩, h.known⟩ _ request now

theorem inv_resumed (k : ℕ) (now : ℤ) : (s.resumed k now).Inv := by
  unfold resumed
  split
  · split
    · exact inv_enter h k _ now
    · exact (quiet_answer s k _).inv h
    · exact h
  · exact h

/-- The call that goes on after the clean-up at capacity: the pool stays safe exactly when
    the call was not overtaken. -/
theorem cleanedUp_spec (k : ℕ) (now : ℤ) : ((s.cleanedUp k now).Safe ↔ s.CleanUpUndisturbed (.cleanedUp k now)) ∧
      ((s.cleanedUp k now).Safe → (s.cleanedUp k now).Inv) := by
  have hquiet : ∀ {t : WorkerPool}, Quiet s t → s.CleanUpUndisturbed (.cleanedUp k now) →
      (t.Safe ↔ s.CleanUpUndisturbed (.cleanedUp k now)) ∧ (t.Safe → t.Inv) := fun hq hp =>
    ⟨⟨fun _ => hp, fun _ => hq.safe h.toSafe⟩, fun _ => hq.inv h⟩
  -- a call that does not go on from a clean-up meets the condition
  have hother : (∀ request terminations, s.calls.get k = some (.afterCleanup request terminations) →
      s.allSettled terminations ≠ some (.ok ())) → s.CleanUpUndisturbed (.cleanedUp k now) := fun hno request terminations hcall hok =>
    absurd hok (hno request terminations hcall)
  unfold cleanedUp
  split
  · next request terminations hk =>
    split
    · next hall =>
      simp only [cleanupTerminated_eq_self h]
      by_cases hroom : s.workers.size ≥ s.maxWorkers
      · rw [if_pos hroom]
        refine hquiet (quiet_answer s k _) fun _ _ _ _ hlt => ?_
        rw [cleanupTerminated_eq_self h] at hlt
        omega
      · rw [if_neg hroom]
        have hroom' : s.workers.size < s.maxWorkers := by omega
        have hiff : (s.create k request now).Safe ↔ s.CreatesAlone request :=
          ⟨alone_of_safe h, fun ha => (inv_create h hroom' ha).toSafe⟩
        refine ⟨hiff.trans ⟨fun ha request' terminations' hcall _ _ => ?_, fun hc => ?_⟩, fun hs => inv_create h hroom' (hiff.mp hs)⟩
        · rw [hk] at hcall
          cases hcall
          exact ha
        · refine hc request terminations hk hall ?_
          rw [cleanupTerminated_eq_self h]
          exact hroom'
    · next hall =>
      refine hquiet (quiet_answer s k _) (hother fun request' terminations' hcall hok => ?_)
      rw [hk] at hcall
      cases hcall
      rw [hall] at hok
      cases hok
    · next hall =>
      refine hquiet (.refl s) (hother fun request' terminations' hcall hok => ?_)
      rw [hk] at hcall
      cases hcall
      rw [hall] at hok
      cases hok
  · next hk => exact hquiet (.refl s) (hother fun request' terminations' hcall _ => hk request' terminations' hcall)

theorem inv_terminate (path : JsString) : (s.terminate path).Inv := by
  unfold terminate
  split
  · exact h
  · split
    · exact h
    · exact (quiet_terminateOwned s path _).inv h

theorem inv_terminationSettled (t : ℕ) (error : Option JsString) : (s.terminationSettled t error).Inv := by
  unfold terminationSettled
  split
  · exact h
  · split
    · exact h
    · simp only [release_eq_self h, ite_self]
      exact Quiet.inv (s := s) ⟨rfl, rfl, rfl, rfl⟩ h

theorem inv_spawnSettled (worker : ℕ) (error : Option JsString) : (s.spawnSettled worker error).Inv := by
  unfold spawnSettled
  split
  · exact (quiet_modifyWorker s worker (f := fun w => { w with creation := afterSpawn error }) fun _ _ => rfl).inv h
  · exact h

theorem inv_creationTerminated (worker : ℕ) (error : Option JsString) : (s.creationTerminated worker error).Inv := by
  unfold creationTerminated
  split
  · exact h
  · split
    · next spawnError _ =>
      split
      · exact h
      · simp only [release_eq_self h, ite_self]
        exact (quiet_modifyWorker s worker (f := fun w => { w with creation := .settled (.error (error.getD spawnError)) })
          fun _ _ => rfl).inv h
    · exact h

theorem inv_forgotten (worker : ℕ) : (s.forgotten worker).Inv := by
  unfold forgotten
  split
  · exact h
  · split
    · split
      · exact Quiet.inv (s := s) ⟨rfl, rfl, rfl, rfl⟩ h
      · exact h
    · exact h

/-- A worker whose resource is released leaves the map, and its path is given up. -/
theorem inv_released {i : ℕ} {w : SessionWorker} (hw : s.constructed[i]? = some w) (hl : w.lifecycle ≠ .released) :
    ((s.modifyWorker i fun w => { w with lifecycle := .released }).release w.sessionPath i).Inv := by
  have hreg := h.registered i w hw hl
  have hmap : (s.modifyWorker i fun w => { w with lifecycle := .released }).workers.get w.sessionPath = some i := hreg
  have hgone : (s.modifyWorker i fun w => { w with lifecycle := .released }).lifecycleOf i = some .released := by
    simp [lifecycleOf, modifyWorker, hw]
  have heq : (s.modifyWorker i fun w => { w with lifecycle := .released }).release w.sessionPath i =
      { s.modifyWorker i (fun w => { w with lifecycle := .released }) with
        workers := s.workers.delete w.sessionPath
        globalWorkerOwners := disown s.globalWorkerOwners w.sessionPath } := by
    unfold release
    rw [if_neg (not_not.mpr hmap), if_neg (not_not.mpr hgone)]
    rfl
  rw [heq]
  have hother : ∀ j v, (s.constructed.modify i fun w => { w with lifecycle := .released })[j]? = some v → v.lifecycle ≠ .released →
      j ≠ i ∧ s.constructed[j]? = some v := by
    intro j v hv hlv
    exact (InFlight.get_modify hv).resolve_left fun ⟨_, _, _, hv⟩ => hlv (by rw [hv])
  have hpath : ∀ j v, s.constructed[j]? = some v → v.lifecycle ≠ .released → j ≠ i → v.sessionPath ≠ w.sessionPath := by
    intro j v hv hlv hne hp
    have hj := h.registered j v hv hlv
    rw [hp, hreg] at hj
    exact hne (some.inj hj).symm
  refine ⟨⟨?_, ?_, ?_, ?_⟩, ?_⟩
  · exact le_trans (JsMap.size_delete_le _ _) h.bounded
  · intro j v hv hlv
    obtain ⟨hne, hv⟩ := hother j v hv hlv
    show (s.workers.delete w.sessionPath).get v.sessionPath = _
    rw [JsMap.get_delete_ne _ (hpath j v hv hlv hne)]
    exact h.registered j v hv hlv
  · intro v hv
    obtain ⟨j, hj⟩ := mem_iff_getElem?.mp hv
    rcases InFlight.get_modify hj with ⟨-, u, hu, rfl⟩ | ⟨-, hj⟩
    · exact h.noneAfterShutdown u (mem_of_getElem? hu)
    · exact h.noneAfterShutdown v (mem_of_getElem? hj)
  · intro p
    show (disown s.globalWorkerOwners w.sessionPath).get p = _ ↔ (s.workers.delete w.sessionPath).has p = true
    rw [get_disown, JsMap.has_delete, ← h.owned p]
    have hmine : s.globalWorkerOwners.get w.sessionPath = some .thisPool :=
      (h.owned _).mpr (JsMap.has_iff_get.mpr (by rw [hreg]; rfl))
    by_cases hp : p = w.sessionPath
    · simp [hp, hmine]
    · simp [hp]
  · intro p j hj
    have hj : (s.workers.delete w.sessionPath).get p = some j := hj
    rw [JsMap.get_delete] at hj
    split at hj
    · cases hj
    · next hp =>
      obtain ⟨v, hv, hvp, hlv⟩ := h.known p j hj
      have hne : i ≠ j := by
        rintro rfl
        cases hw.symm.trans hv
        exact hp hvp.symm
      refine ⟨v, ?_, hvp, hlv⟩
      show (s.constructed.modify i _)[j]? = some v
      rw [getElem?_modify_ne _ _ hne]
      exact hv

theorem inv_setLifecycle (i : ℕ) (lifecycle : ResourceLifecycle) : (s.setLifecycle i lifecycle).Inv := by
  unfold setLifecycle
  split
  · exact h
  · next w hw =>
    split
    · next hf =>
      have hl : w.lifecycle ≠ .released := by
        intro hl
        rw [hl] at hf
        cases lifecycle <;> cases hf
      by_cases hr : lifecycle = .released
      · subst hr
        simp only [if_true]
        exact inv_released h hw hl
      · simp only [if_neg hr]
        refine (quiet_modifyWorker s i fun v hv => ?_).inv h
        cases hw.symm.trans hv
        simp [workerState, hr, hl]
    · exact h

end

section

variable {owners : JsMap JsString Owner} {path : JsString} (h : owners.get path ≠ some .thisPool)
  (p : JsString)
include h p

theorem owned_other
    {kind : JsString} : (owners.set path (.otherPool kind)).get p = some .thisPool ↔ owners.get p = some .thisPool := by
  rw [JsMap.get_set]
  split
  · next hp => simp [hp, h]
  · exact Iff.rfl

theorem owned_deleted : (owners.delete path).get p = some .thisPool ↔ owners.get p = some .thisPool := by
  rw [JsMap.get_delete]
  split
  · next hp => simp [hp, h]
  · exact Iff.rfl

end

theorem inv_otherClaims (h : s.Inv) (path kind : JsString) : (s.otherClaims path kind).Inv := by
  unfold otherClaims
  split
  · exact h
  · next hne =>
    exact ⟨⟨h.bounded, h.registered, h.noneAfterShutdown, fun p => (owned_other hne p).trans (h.owned p)⟩, h.known⟩

theorem inv_otherReleases (h : s.Inv) (path : JsString) : (s.otherReleases path).Inv := by
  unfold otherReleases
  split
  · exact h
  · next hne =>
    exact ⟨⟨h.bounded, h.registered, h.noneAfterShutdown, fun p => (owned_deleted hne p).trans (h.owned p)⟩, h.known⟩

theorem inv_joined (h : s.Inv) (k : ℕ) : (s.joined k).Inv := by
  unfold joined
  split
  · split
    · exact (quiet_answer s k _).inv h
    · exact (quiet_answer s k _).inv h
    · exact h
  · exact h

theorem inv_shutdownAll (h : s.Inv) : s.shutdownAll.Inv := by
  unfold shutdownAll
  split
  · exact h
  · exact Quiet.inv (s := s) ⟨rfl, rfl, rfl, rfl⟩ h

theorem inv_creatingCleared (h : s.Inv) : s.creatingCleared.Inv := by
  unfold creatingCleared
  split
  · exact Quiet.inv (s := s) ⟨rfl, rfl, rfl, rfl⟩ h
  · exact h

/-- One step: the pool stays safe exactly when no call that goes on after the clean-up at
    capacity was overtaken. -/
theorem step_spec (h : s.Inv) (e : WorkerPoolEvent) :
    ((s.step e).Safe ↔ s.CleanUpUndisturbed e) ∧ ((s.step e).Safe → (s.step e).Inv) := by
  have hall : ∀ {t : WorkerPool}, t.Inv → (t.Safe ↔ True) ∧ (t.Safe → t.Inv) := fun ht =>
    ⟨⟨fun _ => trivial, fun _ => ht.toSafe⟩, fun _ => ht⟩
  cases e with
  | cleanedUp k now => exact cleanedUp_spec h k now
  | getOrCreate request now => exact hall (inv_getOrCreate h request now)
  | resumed k now => exact hall (inv_resumed h k now)
  | joined k => exact hall (inv_joined h k)
  | terminate path => exact hall (inv_terminate h path)
  | cleanupIdle now maxIdleMs => exact hall ((quiet_cleanupIdle h now maxIdleMs).inv h)
  | terminationSettled t error => exact hall (inv_terminationSettled h t error)
  | spawnSettled worker error => exact hall (inv_spawnSettled h worker error)
  | creationTerminated worker error => exact hall (inv_creationTerminated h worker error)
  | forgotten worker => exact hall (inv_forgotten h worker)
  | workerStatus worker status lastActivity =>
    exact hall ((quiet_modifyWorker s worker (f := fun w => { w with status := status, lastActivity := lastActivity })
      fun _ _ => rfl).inv h)
  | lifecycle worker lifecycle => exact hall (inv_setLifecycle h worker lifecycle)
  | shutdownAll => exact hall (inv_shutdownAll h)
  | creatingCleared => exact hall (inv_creatingCleared h)
  | otherClaims path kind => exact hall (inv_otherClaims h path kind)
  | otherReleases path => exact hall (inv_otherReleases h path)

/-- Along a run of the pool every state is safe exactly when every call that goes on after
    the clean-up at capacity, and finds room for its worker, finds no worker of its path and
    no shutdown. -/
theorem safe_iff_undisturbed (maxWorkers : ℕ) (idleTimeoutMs : ℤ) (es : List WorkerPoolEvent) :
    (∀ fs, fs <+: es → (fs.foldl step (new maxWorkers idleTimeoutMs)).Safe) ↔
      Run.Along step CleanUpUndisturbed (new maxWorkers idleTimeoutMs) es := by
  rw [← Run.along_after_iff (inv_new maxWorkers idleTimeoutMs).toSafe]
  refine Run.along_iff_of_invariant (I := Inv) ?_ ?_ (inv_new maxWorkers idleTimeoutMs)
  · intro s e hs hc
    exact (step_spec hs e).2 ((step_spec hs e).1.mpr hc)
  · intro s e hs
    exact (step_spec hs e).1

/-! ## Two calls at capacity -/

def req (path : String) : Request := ⟨js path, none, none⟩

def ready (i : ℕ) : List WorkerPoolEvent :=
  [.lifecycle i .owned, .workerStatus i .ready 0, .spawnSettled i none, .forgotten i]

def gone (i : ℕ) : List WorkerPoolEvent :=
  [.workerStatus i .terminated 0, .lifecycle i .reconciling, .lifecycle i .released, .terminationSettled i none]

/-- Two idle workers fill a pool of two; two calls for one path both clean them up, and both
    construct a worker. -/
def twoCallsAtCapacity : List WorkerPoolEvent :=
  [.getOrCreate (req "/a") 0] ++ ready 0 ++ [.getOrCreate (req "/b") 0] ++ ready 1 ++
    [.getOrCreate (req "/p") 9, .getOrCreate (req "/p") 9] ++ gone 0 ++ gone 1 ++ [.cleanedUp 2 10, .cleanedUp 3 10]

/-- The first of the two live workers for the path is no longer in the map. -/
theorem two_workers_for_a_path : ((twoCallsAtCapacity.foldl step (new 2 5)).constructed.map fun w => (w.sessionPath, w.lifecycle)) =
        [(js "/a", .released), (js "/b", .released), (js "/p", .unlaunched), (js "/p", .unlaunched)] ∧
      (twoCallsAtCapacity.foldl step (new 2 5)).workers.entries = [(js "/p", 3)] ∧
      ¬ ∀ (maxWorkers : ℕ) (idleTimeoutMs : ℤ) (es fs : List WorkerPoolEvent), fs <+: es →
        (fs.foldl step (new maxWorkers idleTimeoutMs)).Safe := by
  have hmap : (twoCallsAtCapacity.foldl step (new 2 5)).workers.entries = [(js "/p", 3)] := by decide +kernel
  have hcons : ((twoCallsAtCapacity.foldl step (new 2 5)).constructed.map fun w => (w.sessionPath, w.lifecycle)) =
      [(js "/a", .released), (js "/b", .released), (js "/p", .unlaunched), (js "/p", .unlaunched)] := by decide +kernel
  refine ⟨hcons, hmap, fun h => ?_⟩
  have hsafe := h 2 5 twoCallsAtCapacity twoCallsAtCapacity (prefix_refl _)
  have hthird : ((twoCallsAtCapacity.foldl step (new 2 5)).constructed.map fun w => (w.sessionPath, w.lifecycle))[2]? =
      some (js "/p", .unlaunched) := by rw [hcons]; rfl
  rw [getElem?_map, map_eq_some_iff] at hthird
  obtain ⟨w, hw, hwp⟩ := hthird
  simp only [Prod.mk.injEq] at hwp
  have hreg := hsafe.registered 2 w hw (by rw [hwp.2]; decide)
  rw [hwp.1, JsMap.get_eq_some, hmap] at hreg
  simp at hreg

end WorkerPool

end PiWebUi.Workers
