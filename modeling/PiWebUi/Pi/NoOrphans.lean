/-
  PiWebUi.Pi.NoOrphans — where every session of the pool is.

  A session that `createSession` returned is at one place (`Inv.once`): in an entry, with a
  call that is about to store it, in a teardown, or disposed. A step that stores an entry
  while there is another one loses a session, so the invariant holds along the runs whose
  steps store alone, and there no session is orphaned (`no_orphans`). Two creates of one
  client that overlap lose the session of the first (`a_double_click`).
-/

import PiWebUi.Pi.SessionPool
import PiWebUi.Lib.InFlight
import PiWebUi.Lib.Run

namespace PiWebUi.Pi

open PiWebUi.Lib List

/-! ## The places of a session -/

def Waiting.holds (session : ℕ) : Waiting → Bool
  | .readingCwd _ _ i => i = session
  | _ => false

def Waiting.waitsFor (session : ℕ) : Waiting → Bool
  | .replacing _ _ existing => existing.sessionId = session
  | .removing i _ => i = session
  | _ => false

namespace SessionPool

def entryOf (session : ℕ) (e : JsString × ClientSession) : ℕ := if e.2.sessionId = session then 1 else 0

def heldBy (session : ℕ) (e : ℕ × Waiting) : ℕ := if e.2.holds session then 1 else 0

/-- How often a session is found in the pool. -/
def places (s : SessionPool) (session : ℕ) : ℕ :=
  s.clientSessions.sum (entryOf session) + s.calls.sum (heldBy session) +
    (s.poolTeardowns.has session).toNat + s.disposed.count session

structure Inv (s : SessionPool) : Prop where
  once : ∀ i, s.places i = if i < s.sessions.length then 1 else 0
  owned : ∀ c e, s.clientSessions.get c = some e → s.sessions[e.sessionId]? = some c
  reading : ∀ k c e i, s.calls.get k = some (.readingCwd c e i) → s.sessions[i]? = some c
  numbered : ∀ k, s.calls.has k = true → k < s.nextCall
  gone : ∀ c, s.gone.has c = true → s.clientSessions.get c = none

/-- A teardown that runs is awaited. -/
def Awaited (s : SessionPool) : Prop :=
  ∀ i, s.poolTeardowns.has i = true → ∃ k w, s.calls.get k = some w ∧ w.waitsFor i = true

/-! ## The pool at rest -/

theorem weight_le {α β : Type} [DecidableEq α] (m : JsMap α β) (w : α × β → ℕ) (k : α) : m.weight w k ≤ m.sum w := by
  have := m.sum_delete w k
  omega

section

variable {α β : Type} [DecidableEq α] {m : JsMap α β}

theorem weight_of_get {k : α} {v : β} (h : m.get k = some v) (w : α × β → ℕ) : m.weight w k = w (k, v) := by
  simp [JsMap.weight, h]

theorem weight_of_none {k : α} (h : m.get k = none) (w : α × β → ℕ) : m.weight w k = 0 := by
  simp [JsMap.weight, h]

theorem sum_eq_zero {w : α × β → ℕ} (h : ∀ k v, m.get k = some v → w (k, v) = 0) : m.sum w = 0 := by
  refine List.sum_eq_zero fun n hn => ?_
  obtain ⟨e, he, rfl⟩ := mem_map.mp hn
  exact h e.1 e.2 (JsMap.get_of_mem he)

end

variable {s : SessionPool} {c : JsString} {e : ClientSession} {k : ℕ} {w : Waiting}

theorem registers_iff (h : s.Inv) {i : ℕ} : s.registers i = true ↔ ∃ c e, s.clientSessions.get c = some e ∧ e.sessionId = i := by
  simp only [registers, Option.any_eq_true, decide_eq_true_eq]
  constructor
  · rintro ⟨c, -, e, he, hi⟩
    exact ⟨c, e, he, hi⟩
  · rintro ⟨c, e, he, rfl⟩
    exact ⟨c, h.owned c e he, e, he, rfl⟩

theorem noOrphans (h : s.Inv) (ha : s.Awaited) : s.NoOrphans := by
  intro hcalls
  have hnone : ∀ k, s.calls.get k = none := by
    intro k
    rw [JsMap.get_eq_none, JsMap.keys, hcalls]
    simp
  refine ⟨fun i hi => ?_, h.gone⟩
  have honce := h.once i
  rw [if_pos hi, places] at honce
  have hheld : s.calls.sum (heldBy i) = 0 := by simp [JsMap.sum, hcalls]
  have htorn : s.poolTeardowns.has i = false := by
    rw [← Bool.not_eq_true]
    intro ht
    obtain ⟨k, w, hk, -⟩ := ha i ht
    rw [hnone k] at hk
    cases hk
  rw [hheld, htorn] at honce
  simp only [Bool.toNat_false, add_zero] at honce
  by_cases hreg : s.registers i = true
  · obtain ⟨c, e, he, rfl⟩ := (registers_iff h).mp hreg
    have hw := weight_le s.clientSessions (entryOf e.sessionId) c
    rw [weight_of_get he] at hw
    simp only [entryOf, if_true] at hw
    rw [if_pos hreg]
    omega
  · have hzero : s.clientSessions.sum (entryOf i) = 0 := by
      refine sum_eq_zero fun c e he => ?_
      exact if_neg fun hi => hreg ((registers_iff h).mpr ⟨c, e, he, hi⟩)
    rw [if_neg hreg]
    omega

theorem inv_new (processCwd : JsString) : (new processCwd).Inv := by
  refine ⟨fun i => ?_, nofun, nofun, nofun, nofun⟩
  simp [places, new, JsMap.sum, JsMap.has, JsMap.empty]

theorem awaited_new (processCwd : JsString) : (new processCwd).Awaited := nofun

/-! ## An entry is dropped -/

theorem Inv.le_one (h : s.Inv) (i : ℕ) : s.places i ≤ 1 := by
  rw [h.once i]
  split <;> omega

/-- The session of an entry is nowhere else. -/
theorem entry_alone (h : ∀ i, s.places i ≤ 1) (he : s.clientSessions.get c = some e) :
    s.poolTeardowns.has e.sessionId = false ∧ (s.clientSessions.delete c).sum (entryOf e.sessionId) = 0 := by
  have honce := h e.sessionId
  have hsum := s.clientSessions.sum_delete (entryOf e.sessionId) c
  rw [weight_of_get he] at hsum
  simp only [places, entryOf, if_true] at hsum honce ⊢
  constructor
  · rw [← Bool.not_eq_true]
    intro ht
    rw [ht, Bool.toNat_true] at honce
    omega
  · omega

/-- An entry dropped into a teardown. -/
def released (s : SessionPool) (c : JsString) (e : ClientSession) (shutdown : SessionShutdown) : SessionPool :=
  { s with
    clientSessions := s.clientSessions.delete c
    poolTeardowns := s.poolTeardowns.set e.sessionId shutdown }

theorem teardown_released (h : ∀ i, s.places i ≤ 1) (he : s.clientSessions.get c = some e) (shutdown : SessionShutdown) :
    teardownPoolSession { s with clientSessions := s.clientSessions.delete c } e shutdown = s.released c e shutdown := by
  have ht : s.poolTeardowns.has e.sessionId = false := (entry_alone h he).1
  simp [teardownPoolSession, ht, released]

theorem drop_released (h : ∀ i, s.places i ≤ 1) (he : s.clientSessions.get c = some e) :
    s.drop c e = (s.released c e .quit, some e.sessionId) := by
  have hzero := (entry_alone h he).2
  have hshared : ((s.clientSessions.delete c).values.any fun other => other.sessionId = e.sessionId) = false := by
    rw [← Bool.not_eq_true, any_eq_true]
    rintro ⟨other, ho, hid⟩
    obtain ⟨f, hf, rfl⟩ := mem_map.mp ho
    have hw := weight_le (s.clientSessions.delete c) (entryOf e.sessionId) f.1
    rw [weight_of_get (JsMap.get_of_mem hf), entryOf, if_pos (of_decide_eq_true hid)] at hw
    omega
  simp only [drop, hshared, Bool.false_eq_true, if_false, teardown_released h he]

theorem has_set_eq {α β : Type} [DecidableEq α] (m : JsMap α β) (k : α) (v : β) (j : α) :
    (m.set k v).has j = (decide (j = k) || m.has j) := by
  rw [Bool.eq_iff_iff, JsMap.has_set]
  simp

theorem inv_released (h : s.Inv) (he : s.clientSessions.get c = some e)
    (shutdown : SessionShutdown) : (s.released c e shutdown).Inv := by
  refine ⟨fun i => ?_, ?_, h.reading, h.numbered, ?_⟩
  · refine Eq.trans ?_ (h.once i)
    have hsum := s.clientSessions.sum_delete (entryOf i) c
    rw [weight_of_get he] at hsum
    have ht := (entry_alone h.le_one he).1
    simp only [places, released, has_set_eq, entryOf] at hsum ⊢
    by_cases hi : i = e.sessionId
    · subst hi
      simp only [if_true, decide_true, Bool.true_or, ht, Bool.toNat_true, Bool.toNat_false] at hsum ⊢
      omega
    · simp only [Ne.symm hi, if_false, hi, decide_false, Bool.false_or] at hsum ⊢
      omega
  · intro d f hf
    rw [released] at hf
    exact h.owned d f (JsMap.get_delete_eq_some.mp hf).2
  · intro d hd
    show (s.clientSessions.delete c).get d = none
    rw [JsMap.get_delete]
    split
    · rfl
    · exact h.gone d hd

/-! ## A call goes on -/

/-- A call takes up another wait, or a new one begins: no session changes hands. -/
theorem inv_call (h : s.Inv) {n : ℕ} (hw : ∀ i, w.holds i = false)
    (hk : ∀ v, s.calls.get k = some v → ∀ i, v.holds i = false) (hkn : k < n) (hn : s.nextCall ≤ n) :
    Inv { s with calls := s.calls.set k w, nextCall := n } := by
  refine ⟨fun i => ?_, h.owned, ?_, ?_, h.gone⟩
  · refine Eq.trans ?_ (h.once i)
    have hsum := s.calls.sum_set (heldBy i) k w
    have hzero : s.calls.weight (heldBy i) k = 0 := by
      cases hg : s.calls.get k with
      | none => exact weight_of_none hg _
      | some v => rw [weight_of_get hg, heldBy, hk v hg i, if_neg (by simp)]
    have hnew : heldBy i (k, w) = 0 := by rw [heldBy, hw i, if_neg (by simp)]
    simp only [places]
    omega
  · intro j c e i hj
    obtain ⟨-, rfl⟩ | ⟨-, hj⟩ := JsMap.get_set_eq_some.mp hj
    · have := hw i
      simp [Waiting.holds] at this
    · exact h.reading j c e i hj
  · intro j hj
    rcases (JsMap.has_set _ _ _ _).mp hj with rfl | hj
    · exact hkn
    · exact lt_of_lt_of_le (h.numbered j hj) hn

theorem inv_settle (h : s.Inv) (hk : s.calls.get k = some w) (hw : ∀ i, w.holds i = false) : (s.settle k).Inv := by
  refine ⟨fun i => ?_, h.owned, ?_, ?_, h.gone⟩
  · refine Eq.trans ?_ (h.once i)
    have hsum := s.calls.sum_delete (heldBy i) k
    rw [weight_of_get hk, heldBy, hw i, if_neg (by simp)] at hsum
    simp only [places, settle]
    omega
  · intro j c e i hj
    exact h.reading j c e i (JsMap.get_delete_eq_some.mp hj).2
  · intro j hj
    exact h.numbered j ((JsMap.has_delete _ _ _).mp hj).2

theorem new_call (h : s.Inv) : s.calls.get s.nextCall = none := by
  cases hg : s.calls.get s.nextCall with
  | none => rfl
  | some w =>
    have := h.numbered s.nextCall (JsMap.has_iff_get.mpr (by simp [hg]))
    omega

theorem inv_await (h : s.Inv) (hw : ∀ i, w.holds i = false) : (s.await w).Inv :=
  inv_call h hw (fun v hv => by rw [new_call h] at hv; cases hv) (Nat.lt_succ_self _) (Nat.le_succ _)

theorem inv_setCall (h : s.Inv) {v : Waiting} (hk : s.calls.get k = some v) (hv : ∀ i, v.holds i = false)
    (hw : ∀ i, w.holds i = false) : (s.setCall k w).Inv := by
  refine inv_call h hw (fun u hu => ?_) (h.numbered k (JsMap.has_iff_get.mpr (by simp [hk]))) le_rfl
  rw [hk] at hu
  cases hu
  exact hv

/-- The teardowns stay awaited when call `k`, which waits for none that runs, goes on. -/
theorem awaited_set (h : s.Awaited) {n : ℕ}
    (hk : ∀ v, s.calls.get k = some v → ∀ i, v.waitsFor i = true → s.poolTeardowns.has i = false) :
    Awaited { s with calls := s.calls.set k w, nextCall := n } := by
  intro i hi
  obtain ⟨j, v, hj, hv⟩ := h i hi
  have hne : j ≠ k := by
    rintro rfl
    rw [hk v hj i hv] at hi
    cases hi
  exact ⟨j, v, (JsMap.get_set_ne _ _ hne).trans hj, hv⟩

theorem awaited_settle (h : s.Awaited)
    (hk : ∀ v, s.calls.get k = some v → ∀ i, v.waitsFor i = true → s.poolTeardowns.has i = false) : (s.settle k).Awaited := by
  intro i hi
  obtain ⟨j, v, hj, hv⟩ := h i hi
  have hne : j ≠ k := by
    rintro rfl
    have ht : s.poolTeardowns.has i = true := hi
    rw [hk v hj i hv] at ht
    cases ht
  exact ⟨j, v, (JsMap.get_delete_ne _ hne).trans hj, hv⟩

/-- The teardown of a dropped entry is awaited by the call that drops it. -/
theorem awaited_released (h : s.Awaited) {shutdown : SessionShutdown} {n : ℕ}
    (hw : w.waitsFor e.sessionId = true) (hk : ∀ v, s.calls.get k = some v → ∀ i, v.waitsFor i = false) :
    Awaited { s.released c e shutdown with calls := s.calls.set k w, nextCall := n } := by
  intro i hi
  rcases (JsMap.has_set _ _ _ _).mp hi with rfl | hi
  · exact ⟨k, w, JsMap.get_set_same _ _ _, hw⟩
  · obtain ⟨j, v, hj, hv⟩ := h i hi
    have hne : j ≠ k := by
      rintro rfl
      rw [hk v hj i] at hv
      cases hv
    exact ⟨j, v, (JsMap.get_set_ne _ _ hne).trans hj, hv⟩

/-! ## A session is stored -/

theorem canStore_iff : s.canStore c = true ↔ s.clientSessions.get c = none ∧ s.gone.has c = false := by
  simp [canStore]

/-- An entry stored over none. -/
theorem sum_stored (hc : s.clientSessions.get c = none) (e : ClientSession) (i : ℕ) :
    (s.clientSessions.set c e).sum (entryOf i) = s.clientSessions.sum (entryOf i) + if e.sessionId = i then 1 else 0 := by
  have hsum := s.clientSessions.sum_set (entryOf i) c e
  rw [weight_of_none hc] at hsum
  simpa [entryOf] using hsum

theorem gone_stored (h : s.Inv) (hc : s.canStore c = true) :
    ∀ d, s.gone.has d = true → (s.clientSessions.set c e).get d = none := by
  intro d hd
  have hne : d ≠ c := by
    rintro rfl
    rw [(canStore_iff.mp hc).2] at hd
    cases hd
  rw [JsMap.get_set_ne _ _ hne]
  exact h.gone d hd

/-- `createClientSession` stores the session it was given. -/
theorem inv_created (h : s.Inv) (hk : s.calls.get k = some w) (hw : ∀ i, w.holds i = false)
    (he : e.sessionId = s.sessions.length) (hc : s.canStore e.clientId = true) : (((s.fresh e.clientId).store e).settle k).Inv := by
  have hinv := inv_settle h hk hw
  refine ⟨fun i => ?_, ?_, ?_, hinv.numbered, gone_stored h hc⟩
  · have hsum := sum_stored (canStore_iff.mp hc).1 e i
    have hcalls := s.calls.sum_delete (heldBy i) k
    rw [weight_of_get hk, heldBy, hw i, if_neg (by simp), add_zero] at hcalls
    have honce := h.once i
    simp only [places, settle, store, fresh, length_append, length_singleton, hsum, hcalls] at honce ⊢
    split_ifs at honce ⊢ <;> omega
  · intro d f hf
    simp only [settle, store, fresh] at hf ⊢
    obtain ⟨hd, rfl⟩ | ⟨-, hf⟩ := JsMap.get_set_eq_some.mp hf
    · rw [he, hd]
      simp
    · exact InFlight.append_left _ (h.owned d f hf)
  · intro j c x i hj
    exact InFlight.append_left _ (hinv.reading j c x i hj)

/-- `switchClientSession` holds the session it was given while it reads the cwd. -/
theorem inv_opened (h : s.Inv) {request : Request} {existing : Option ClientSession}
    (hk : s.calls.get k = some (.creating c request existing)) :
    ((s.fresh c).setCall k (.readingCwd c existing s.sessions.length)).Inv := by
  refine ⟨fun i => ?_, ?_, ?_, ?_, h.gone⟩
  · have hcalls := s.calls.sum_set (heldBy i) k (.readingCwd c existing s.sessions.length)
    rw [weight_of_get hk] at hcalls
    have honce := h.once i
    simp only [places, setCall, fresh, length_append, length_singleton, heldBy, Waiting.holds, decide_eq_true_eq,
      Bool.false_eq_true, if_false] at hcalls honce ⊢
    split_ifs at hcalls honce ⊢ <;> omega
  · intro d f hf
    exact InFlight.append_left _ (h.owned d f hf)
  · intro j d x i hj
    simp only [setCall, fresh] at hj ⊢
    obtain ⟨-, hw⟩ | ⟨-, hj⟩ := JsMap.get_set_eq_some.mp hj
    · cases hw
      simp
    · exact InFlight.append_left _ (h.reading j d x i hj)
  · intro j hj
    rcases (JsMap.has_set _ _ _ _).mp hj with rfl | hj
    · exact h.numbered j (JsMap.has_iff_get.mpr (by simp [hk]))
    · exact h.numbered j hj

/-- `switchClientSession` stores the session it held. -/
theorem inv_switched (h : s.Inv) {existing : Option ClientSession}
    (hk : s.calls.get k = some (.readingCwd c existing e.sessionId)) (hc : s.canStore e.clientId = true) (he : e.clientId = c) :
    ((s.store e).settle k).Inv := by
  refine ⟨fun i => ?_, ?_, ?_, ?_, gone_stored h hc⟩
  · have hsum := sum_stored (canStore_iff.mp hc).1 e i
    have hcalls := s.calls.sum_delete (heldBy i) k
    rw [weight_of_get hk] at hcalls
    refine Eq.trans ?_ (h.once i)
    simp only [places, settle, store, heldBy, Waiting.holds, decide_eq_true_eq] at hcalls ⊢
    omega
  · intro d f hf
    simp only [settle, store] at hf ⊢
    obtain ⟨hd, rfl⟩ | ⟨-, hf⟩ := JsMap.get_set_eq_some.mp hf
    · rw [hd, he]
      exact h.reading k c existing _ hk
    · exact h.owned d f hf
  · intro j d x i hj
    exact h.reading j d x i (JsMap.get_delete_eq_some.mp hj).2
  · intro j hj
    exact h.numbered j ((JsMap.has_delete _ _ _).mp hj).2

/-! ## Every step -/

/-- What a step keeps. -/
def Keeps (s : SessionPool) : Prop := s.Inv ∧ s.Awaited

theorem keeps_replace (h : s.Keeps) (c : JsString) (request : Request) : (s.replace c request).Keeps := by
  have hissued : (s.issued c).Inv := by
    refine ⟨h.1.once, h.1.owned, h.1.reading, h.1.numbered, ?_⟩
    intro d hd
    exact h.1.gone d ((JsMap.has_delete _ _ _).mp hd).2
  have haw : (s.issued c).Awaited := h.2
  simp only [replace]
  cases hc : (s.issued c).clientSessions.get c with
  | none =>
    exact ⟨inv_await hissued fun _ => rfl, awaited_set haw fun v hv => by rw [new_call hissued] at hv; cases hv⟩
  | some e =>
    simp only [teardown_released hissued.le_one hc]
    have hrel := inv_released hissued hc request.shutdown
    refine ⟨inv_await hrel fun _ => rfl, awaited_released haw ?_ fun v hv => ?_⟩
    · exact decide_eq_true rfl
    · have hv : (s.issued c).calls.get (s.issued c).nextCall = some v := hv
      rw [new_call hissued] at hv
      cases hv

theorem keeps_removeClient (h : s.Keeps) (c : JsString) : (s.removeClient c).Keeps := by
  simp only [removeClient]
  cases hc : s.clientSessions.get c with
  | none =>
    refine ⟨⟨h.1.once, h.1.owned, h.1.reading, h.1.numbered, ?_⟩, h.2⟩
    intro d hd
    rcases (JsMap.has_set _ _ _ _).mp hd with rfl | hd
    · exact hc
    · exact h.1.gone d hd
  | some e =>
    have hdrop := drop_released (s := { s with gone := s.gone.set c () }) h.1.le_one hc
    simp only [hdrop]
    have hrel := inv_released h.1 hc .quit
    have hgone : (released { s with gone := s.gone.set c () } c e .quit).Inv := by
      refine ⟨hrel.once, hrel.owned, hrel.reading, hrel.numbered, ?_⟩
      intro d hd
      rcases (JsMap.has_set _ _ _ _).mp hd with rfl | hd
      · exact JsMap.get_delete_same _ _
      · exact hrel.gone d hd
    refine ⟨inv_await hgone fun _ => rfl, ?_⟩
    refine awaited_released (s := { s with gone := s.gone.set c () }) h.2 (decide_eq_true rfl) fun v hv => ?_
    have hv : s.calls.get s.nextCall = some v := hv
    rw [new_call h.1] at hv
    cases hv

theorem keeps_updateActivity (h : s.Keeps) (c : JsString) (now : ℤ) : (s.updateActivity c now).Keeps := by
  unfold updateActivity
  cases hc : s.clientSessions.get c with
  | none => exact h
  | some e =>
    refine ⟨⟨fun i => ?_, ?_, h.1.reading, h.1.numbered, ?_⟩, h.2⟩
    · refine Eq.trans ?_ (h.1.once i)
      have hsum := s.clientSessions.sum_set (entryOf i) c { e with lastActivity := now }
      rw [weight_of_get hc] at hsum
      simp only [places, entryOf] at hsum ⊢
      omega
    · intro d f hf
      obtain ⟨hd, rfl⟩ | ⟨-, hf⟩ := JsMap.get_set_eq_some.mp hf
      · rw [hd]
        exact h.1.owned c e hc
      · exact h.1.owned d f hf
    · intro d hd
      have hne : d ≠ c := by
        rintro rfl
        rw [h.1.gone d hd] at hc
        cases hc
      simp only [JsMap.get_set_ne _ _ hne]
      exact h.1.gone d hd

theorem keeps_tornDown (h : s.Keeps) (i : ℕ) : (s.tornDown i).Keeps := by
  unfold tornDown
  split
  · next ht =>
    refine ⟨⟨fun j => ?_, h.1.owned, h.1.reading, h.1.numbered, h.1.gone⟩, ?_⟩
    · refine Eq.trans ?_ (h.1.once j)
      simp only [places, count_append, count_singleton]
      by_cases hj : j = i
      · subst hj
        have hdel : (s.poolTeardowns.delete j).has j = false := by
          rw [← Bool.not_eq_true, JsMap.has_delete]
          exact fun hd => hd.1 rfl
        simp only [hdel, ht, beq_self_eq_true, if_true, Bool.toNat_true, Bool.toNat_false]
        omega
      · have hdel : (s.poolTeardowns.delete i).has j = s.poolTeardowns.has j := by
          rw [Bool.eq_iff_iff, JsMap.has_delete]
          exact and_iff_right hj
        simp only [hdel, beq_iff_eq, Ne.symm hj, if_false]
        omega
    · intro j hj
      exact h.2 j ((JsMap.has_delete _ _ _).mp hj).2
  · exact h

theorem keeps_resumed (h : s.Keeps) (k : ℕ) : (s.resumed k).Keeps := by
  unfold resumed
  split
  · next c request e hk =>
    split
    · exact h
    · next ht =>
      refine ⟨inv_setCall h.1 hk (fun _ => rfl) fun _ => rfl, awaited_set h.2 fun v hv i hi => ?_⟩
      rw [hk] at hv
      cases hv
      rw [← of_decide_eq_true hi]
      exact Bool.eq_false_iff.mpr ht
  · next session loop hk =>
    split
    · exact h
    · next ht =>
      have hwaits : ∀ v, s.calls.get k = some v → ∀ i, v.waitsFor i = true → s.poolTeardowns.has i = false := by
        intro v hv i hi
        rw [hk] at hv
        cases hv
        rw [← of_decide_eq_true hi]
        exact Bool.eq_false_iff.mpr ht
      cases loop with
      | none => exact ⟨inv_settle h.1 hk fun _ => rfl, awaited_settle h.2 hwaits⟩
      | some l => exact ⟨inv_setCall h.1 hk (fun _ => rfl) fun _ => rfl, awaited_set h.2 hwaits⟩
  · exact h

/-- A call that waits for no teardown. -/
theorem waits_none (hk : s.calls.get k = some w) (hw : ∀ i, w.waitsFor i = false) :
    ∀ v, s.calls.get k = some v → ∀ i, v.waitsFor i = true → s.poolTeardowns.has i = false := by
  intro v hv i hi
  rw [hk] at hv
  cases hv
  rw [hw i] at hi
  cases hi

theorem keeps_sessionCreated (h : s.Keeps) {now : ℤ} (hc : s.StoresAlone (.sessionCreated k now)) :
    (s.sessionCreated k now).Keeps := by
  unfold sessionCreated
  split
  · next c cwd existing hk =>
    have hstore := hc c cwd existing hk
    exact ⟨inv_created (e := ⟨c, s.sessions.length, (truthy cwd).getD s.processCwd, now, now⟩) h.1 hk (fun _ => rfl) rfl hstore,
      awaited_settle (s := (s.fresh c).store _) h.2 (waits_none hk fun _ => rfl)⟩
  · next c path existing hk =>
    exact ⟨inv_opened h.1 hk, awaited_set (s := s.fresh c) h.2 (waits_none hk fun _ => rfl)⟩
  · exact h

theorem keeps_cwdRead (h : s.Keeps) {cwd : Option JsString} {now : ℤ} (hc : s.StoresAlone (.cwdRead k cwd now)) :
    (s.cwdRead k cwd now).Keeps := by
  unfold cwdRead
  split
  · next c existing session hk =>
    have hstore := hc c existing session hk
    exact ⟨inv_switched (e := ⟨c, session, _, _, _⟩) h.1 hk hstore rfl, awaited_settle (s := s.store _) h.2 (waits_none hk fun _ => rfl)⟩
  · exact h

theorem keeps_visit (h : s.Keeps) (k : ℕ) (c : JsString) : (s.visit k c).Keeps := by
  unfold visit
  split
  · next now timeoutMs cleaned e hk hc =>
    split
    · simp only [drop_released h.1.le_one hc]
      refine ⟨inv_setCall (inv_released h.1 hc .quit) hk (fun _ => rfl) fun _ => rfl, ?_⟩
      refine awaited_released h.2 (decide_eq_true rfl) fun v hv i => ?_
      rw [hk] at hv
      cases hv
      rfl
    · exact h
  · exact h

theorem keeps_step {e : PoolEvent} (h : s.Keeps) (hc : s.StoresAlone e) : (s.step e).Keeps := by
  cases e with
  | createClientSession c cwd => exact keeps_replace h c (.create cwd)
  | switchClientSession c path => exact keeps_replace h c (.switch path)
  | removeClient c => exact keeps_removeClient h c
  | cleanupInactive now timeoutMs =>
    refine ⟨inv_await h.1 fun _ => rfl, awaited_set h.2 fun v hv => ?_⟩
    rw [new_call h.1] at hv
    cases hv
  | updateActivity c now => exact keeps_updateActivity h c now
  | tornDown i => exact keeps_tornDown h i
  | resumed k => exact keeps_resumed h k
  | sessionCreated k now => exact keeps_sessionCreated h hc
  | sessionRejected k =>
    show (s.sessionRejected k).Keeps
    unfold sessionRejected
    split
    · next hk => exact ⟨inv_settle h.1 hk fun _ => rfl, awaited_settle h.2 (waits_none hk fun _ => rfl)⟩
    · exact h
  | cwdRead k cwd now => exact keeps_cwdRead h hc
  | visit k c => exact keeps_visit h k c
  | loopEnded k =>
    show (s.loopEnded k).Keeps
    unfold loopEnded
    split
    · next hk => exact ⟨inv_settle h.1 hk fun _ => rfl, awaited_settle h.2 (waits_none hk fun _ => rfl)⟩
    · exact h

/-- Along every run of the pool whose steps store alone, no session is orphaned and no
    removed client keeps one. -/
theorem no_orphans (processCwd : JsString) (es : List PoolEvent) (h : Run.Along step StoresAlone (new processCwd) es) :
    (es.foldl step (new processCwd)).NoOrphans := by
  have hkeeps := Run.invariant (I := Keeps) (fun _ _ => keeps_step) ⟨inv_new processCwd, awaited_new processCwd⟩ h
  exact noOrphans hkeeps.1 hkeeps.2

/-! ## Overlaps -/

/-- A client's session is replaced by one from a file, and the client leaves. -/
def oneAfterAnother : List PoolEvent :=
  [.createClientSession (js "c") none, .sessionCreated 0 10, .switchClientSession (js "c") (js "/s.jsonl"), .tornDown 0, .resumed 1,
    .sessionCreated 1 20, .cwdRead 1 (some (js "/w")) 21, .removeClient (js "c"), .tornDown 1, .resumed 2]

theorem one_after_another : (oneAfterAnother.foldl step (new (js "/"))).NoOrphans :=
  no_orphans (js "/") oneAfterAnother (by
    refine ⟨trivial, ?_, trivial, trivial, trivial, ?_, ?_, trivial, trivial, trivial, trivial⟩
    · intro c cwd existing hk
      have hk := Option.some.inj hk
      cases hk
      decide
    · intro c cwd existing hk
      have hk := Option.some.inj hk
      cases hk
    · intro c existing session hk
      have hk := Option.some.inj hk
      cases hk
      decide)

/-- A double click on "new session": both creates find no entry, and the second overwrites
    the session of the first, which no one disposes. -/
def doubleClick : List PoolEvent :=
  [.createClientSession (js "c") none, .createClientSession (js "c") none, .sessionCreated 0 10, .sessionCreated 1 11]

theorem a_double_click :
    ((doubleClick.foldl step (new (js "/"))).calls.entries = [] ∧ (doubleClick.foldl step (new (js "/"))).sessions.length = 2 ∧
      (doubleClick.foldl step (new (js "/"))).registers 0 = false ∧ (doubleClick.foldl step (new (js "/"))).disposed = []) ∧
    ¬ ∀ (processCwd : JsString) (es : List PoolEvent), (es.foldl step (new processCwd)).NoOrphans := by
  have hend : (doubleClick.foldl step (new (js "/"))).calls.entries = [] ∧ (doubleClick.foldl step (new (js "/"))).sessions.length = 2 ∧
      (doubleClick.foldl step (new (js "/"))).registers 0 = false ∧ (doubleClick.foldl step (new (js "/"))).disposed = [] := by
    decide
  refine ⟨hend, fun h => ?_⟩
  obtain ⟨hcalls, hlen, hreg, hdisp⟩ := hend
  have hcount := (h (js "/") doubleClick hcalls).1 0 (by rw [hlen]; omega)
  rw [hreg, hdisp] at hcount
  cases hcount

end SessionPool

end PiWebUi.Pi
