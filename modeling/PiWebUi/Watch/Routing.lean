/-
  PiWebUi.Watch.Routing — which condition a match fires.

  A match names its condition by id, and the ledger's condition is the first with that id.
  A run never changes the ids, so a match reaches its own condition in every state exactly
  when it does at registration.
-/

import PiWebUi.Lib.InFlight
import PiWebUi.Lib.Run
import PiWebUi.Watch.Manager

namespace PiWebUi.Watch.ActiveWatch

open Lib List

variable {ρ : Type} (R : RegExps ρ) {w : ActiveWatch ρ} {k : ℕ} {e : NormalizedEvent} {c : WatchConditionState}

/-! ## What a run keeps -/

structure Same (c c' : WatchConditionState) : Prop where
  id_eq : c'.id = c.id
  type_eq : c'.type = c.type
  spec_eq : c'.spec = c.spec
  dueAt_eq : c'.dueAt = c.dueAt
  stays : c.fired = true → c'.fired = true

theorem Same.refl (c : WatchConditionState) : Same c c := ⟨rfl, rfl, rfl, rfl, id⟩

theorem Same.trans {a b c : WatchConditionState} (h : Same a b) (k : Same b c) : Same a c :=
  ⟨k.id_eq.trans h.id_eq, k.type_eq.trans h.type_eq, k.spec_eq.trans h.spec_eq, k.dueAt_eq.trans h.dueAt_eq,
    fun hf => k.stays (h.stays hf)⟩

theorem same_markFired (c : WatchConditionState) (t : JsNumber) : Same c (markFired c t) :=
  ⟨rfl, rfl, rfl, rfl, fun _ => rfl⟩

def Keeps (cs cs' : List WatchConditionState) : Prop :=
  cs'.length = cs.length ∧ ∀ (k : ℕ) (c : WatchConditionState), cs[k]? = some c → ∃ c', cs'[k]? = some c' ∧ Same c c'

theorem Keeps.refl (cs : List WatchConditionState) : Keeps cs cs := ⟨rfl, fun _ c h => ⟨c, h, Same.refl c⟩⟩

theorem keeps_of_eq {cs cs' : List WatchConditionState} (h : cs' = cs) : Keeps cs cs' := h ▸ Keeps.refl cs

theorem Keeps.trans {as bs cs : List WatchConditionState} (h : Keeps as bs) (k : Keeps bs cs) : Keeps as cs := by
  refine ⟨k.1.trans h.1, fun i a ha => ?_⟩
  obtain ⟨b, hb, hab⟩ := h.2 i a ha
  obtain ⟨c, hc, hbc⟩ := k.2 i b hb
  exact ⟨c, hc, hab.trans hbc⟩

theorem Keeps.ids {cs cs' : List WatchConditionState} (h : Keeps cs cs') : cs'.map (·.id) = cs.map (·.id) := by
  apply ext_getElem?
  intro k
  cases hk : cs[k]? with
  | none =>
    have hk' : cs'[k]? = none := by
      rw [getElem?_eq_none_iff] at hk ⊢
      rw [h.1]
      exact hk
    simp [hk, hk']
  | some c =>
    obtain ⟨c', hc', hs⟩ := h.2 k c hk
    simp [hk, hc', hs.id_eq]

theorem keeps_set {cs : List WatchConditionState} (h : cs[k]? = some c) (t : JsNumber) :
    Keeps cs (cs.set k (markFired c t)) := by
  refine ⟨by simp, fun i d hd => ?_⟩
  by_cases hik : i = k
  · subst hik
    cases h.symm.trans hd
    exact ⟨_, InFlight.set_self _ h, same_markFired c t⟩
  · exact ⟨d, InFlight.set_other _ hik hd, Same.refl d⟩

/-! ## The firings of a step -/

@[simp] theorem finishFirings_frame (w : ActiveWatch ρ) (f : Bool) : (finishFirings w f).record.conditions = w.record.conditions ∧
    (finishFirings w f).record.firings = w.record.firings ∧ (finishFirings w f).resolved = w.resolved := by
  rw [finishFirings]
  split_ifs <;> simp [persistLive]

/-- A property of the resolved conditions, the condition states and the firings. -/
structure Local (P : ActiveWatch ρ → Prop) : Prop where
  same : ∀ {w v : ActiveWatch ρ}, P w → v.resolved = w.resolved → v.record.conditions = w.record.conditions →
    v.record.firings = w.record.firings → P v
  fire : ∀ (w : ActiveWatch ρ) (k : ℕ) (cond : WatchConditionState) (input : FiringInput),
    w.record.conditions[k]? = some cond → admits w.record cond = true → P w → P (addFiring w k cond input)

section Local

variable {P : ActiveWatch ρ → Prop} (hP : Local P)

include hP

theorem local_recordFiring (w : ActiveWatch ρ) (k : ℕ) (input : FiringInput) (b : Option ℕ) (h : P w) :
    P (recordFiring w k input b).1 := by
  rcases recordFiring_cases w k input b with ⟨-, hr⟩ | ⟨cond, hk, ha, hr⟩ <;> rw [hr]
  · exact h
  · exact hP.same (hP.fire w k cond input hk ha h) (wakeForFiring_frame ..).2.2 (wakeForFiring_frame ..).1
      (wakeForFiring_frame ..).2.1

theorem local_recordMatches {t : JsNumber} : ∀ (ms : List ConditionMatch) (w : ActiveWatch ρ) (b : Option ℕ) (f : Bool),
    P w → P (recordMatches t ms w b f).1
  | [], _, _, _, h => h
  | m :: ms, w, b, f, h => by
    rw [recordMatches]
    split
    · exact local_recordMatches ms w b f h
    next k _ =>
      split
      · exact h
      · exact local_recordMatches ms _ _ _ (local_recordFiring hP w k _ b h)

theorem local_recordSettled {evidence : JsString} : ∀ (ks : List ℕ) (w : ActiveWatch ρ) (f : Bool),
    P w → P (recordSettled evidence ks w f).1
  | [], _, _, h => h
  | k :: ks, w, f, h => by
    rw [recordSettled]
    split
    · exact local_recordSettled ks w f h
    · split
      · exact local_recordSettled ks w f h
      · exact local_recordSettled ks _ _ (local_recordFiring hP w k _ none h)

theorem local_finishFirings (f : Bool) (h : P w) : P (finishFirings w f) :=
  hP.same h (finishFirings_frame ..).2.2 (finishFirings_frame ..).1 (finishFirings_frame ..).2.1

theorem local_handleEvent (w : ActiveWatch ρ) (e : NormalizedEvent) (b : Option ℕ) (h : P w) : P (handleEvent R w e b).1 := by
  rw [handleEvent]
  split_ifs with hs
  · exact h
  · exact local_finishFirings hP _ (local_recordMatches hP _ _ _ _ (hP.same h rfl rfl rfl))

theorem local_fireAlone (w : ActiveWatch ρ) (k : ℕ) (input : FiringInput) (h : P w) : P (fireAlone w k input) := by
  rw [fireAlone]
  dsimp only
  split_ifs
  · exact local_finishFirings hP _ (local_recordFiring hP w k input none h)
  · exact local_recordFiring hP w k input none h

theorem local_applyFireIfSettled (w : ActiveWatch ρ) (note : JsString) (h : P w) : P (applyFireIfSettled w note) := by
  rw [applyFireIfSettled]
  split_ifs with hs
  · exact h
  · dsimp only
    split_ifs
    · exact local_finishFirings hP _ (local_recordSettled hP _ _ _ h)
    · exact local_recordSettled hP _ _ _ h

/-- Nothing but a recorded firing touches what the property is about. -/
theorem local_act (w : ActiveWatch ρ) (s : Step) (h : P w) : P (act R w s) := by
  cases s with
  | event e => exact local_handleEvent R hP w e none h
  | reconcileRestart e => exact hP.same (local_handleEvent R hP w e (some 1) h) rfl rfl rfl
  | reconcileGoalEnd e => exact hP.same (local_handleEvent R hP w e (some w.restartBudget) h) rfl rfl rfl
  | neverStarted e => exact local_handleEvent R hP w e (some 1) h
  | fireIfSettled note => exact local_applyFireIfSettled hP w note h
  | deadline i =>
    simp only [act]
    split
    · exact h
    next timer _ =>
      have h' : P (dropDeadline w i) := hP.same h rfl rfl rfl
      rcases fireDeadline_cases (dropDeadline w i) timer with
        hd | hd | ⟨k, cond, due, -, -, -, -, -, -, hd⟩ <;> rw [hd]
      · exact h'
      · exact hP.same h rfl rfl rfl
      · exact local_fireAlone hP _ k _ h'
  | callWake =>
    simp only [act, callWake]
    split
    · exact h
    · exact hP.same h rfl rfl rfl
  | wakeResult r =>
    simp only [act, wakeResult]
    split
    · exact h
    · split_ifs
      · exact h
      all_goals
        exact hP.same h (by simp [persistLive, updateAttempt]) (by simp [persistLive, updateAttempt])
          (by simp [persistLive, updateAttempt])
  | retryWake i =>
    simp only [act, retryWake]
    split
    · exact h
    · exact hP.same h (by simp [dropRetry]) (by simp [dropRetry]) (by simp [dropRetry])
  | unpin ok =>
    simp only [act, unpin]
    split
    · exact h
    · exact h
    all_goals split_ifs <;> exact hP.same h rfl rfl rfl
  | write ok =>
    simp only [act, write]
    split
    · exact h
    · split_ifs <;> exact hP.same h rfl rfl rfl
  | flush =>
    simp only [act, flush]
    split_ifs
    · exact hP.same h rfl rfl rfl
    · exact h
  | steer t busy => exact hP.same h rfl rfl rfl

theorem local_run (h : P w) (ss : List (ℕ × Step)) : P (run R w ss) :=
  Run.invariant_all (I := P) (fun v s hv => local_act R hP (tick v s.1) s.2 (hP.same hv rfl rfl rfl)) h ss

end Local

/-- `v` comes after `w`, as far as the conditions are concerned. -/
def Kept (w v : ActiveWatch ρ) : Prop := v.resolved = w.resolved ∧ Keeps w.record.conditions v.record.conditions

theorem local_kept (w : ActiveWatch ρ) : Local (Kept w) where
  same h hr hc _ := ⟨hr.trans h.1, h.2.trans (keeps_of_eq hc)⟩
  fire _ _ _ _ hk _ h := ⟨h.1, h.2.trans (keeps_set hk _)⟩

theorem Kept.refl (w : ActiveWatch ρ) : Kept w w := ⟨rfl, Keeps.refl _⟩

/-- A run keeps the resolved conditions and every condition's id, type, spec and due
    instant, and no fired condition becomes unfired. -/
theorem keeps_run (w : ActiveWatch ρ) (ss : List (ℕ × Step)) : Kept w (run R w ss) :=
  local_run R (local_kept w) (Kept.refl w) ss

/-- The counts of the ledger: an unfired condition has no firings, and of one-shot conditions
    there are as many firings as fired conditions. -/
structure Counts (w : ActiveWatch ρ) : Prop where
  unfired : ∀ c ∈ w.record.conditions, c.fired = false → c.fireCount = 0
  oneShot : (∀ c ∈ w.record.conditions, c.spec.once ≠ some false) →
    w.record.firings.length = w.record.conditions.countP (·.fired)

theorem local_counts : Local fun w : ActiveWatch ρ => Counts w where
  same h _ hc hf := ⟨hc ▸ h.unfired, by rw [hc, hf]; exact h.oneShot⟩
  fire w k cond input hk ha h := by
    obtain ⟨hlt, rfl⟩ := List.getElem?_eq_some_iff.mp hk
    have hmem : w.record.conditions[k] ∈ w.record.conditions := getElem_mem hlt
    constructor
    · intro c hc hfired
      rcases mem_or_eq_of_mem_set hc with hc | rfl
      · exact h.unfired c hc hfired
      · cases hfired
    · intro honce
      have honce' : ∀ c ∈ w.record.conditions, c.spec.once ≠ some false := by
        intro c hc
        obtain ⟨j, hj, rfl⟩ := getElem_of_mem hc
        by_cases hkj : k = j
        · subst hkj
          exact honce (markFired w.record.conditions[k] input.firedAt) (List.mem_set hlt _)
        · refine honce _ (mem_iff_getElem.mpr ⟨j, by simpa [addFiring] using hj, ?_⟩)
          exact getElem_set_ne hkj _
      have hnot : w.record.conditions[k].fired = false := by
        simp only [admits, Bool.and_eq_true] at ha
        simpa [honce' _ hmem] using ha.1.1
      have hcount := h.oneShot honce'
      simp only [addFiring, length_append, length_cons, length_nil, hcount]
      rw [countP_set hlt]
      simp [hnot, markFired]

/-! ## Which condition a match fires -/

def isFired (w : ActiveWatch ρ) (k : ℕ) : Bool := w.record.conditions[k]?.any (·.fired)

theorem find_eq (r : PersistedWatch) (id : JsString) : find r id = (r.conditions.map (·.id)).findIdx? (· = id) := by
  rw [findIdx?_map]
  rfl

/-- The ids never change, so neither does what an id finds. -/
theorem find_kept {w v : ActiveWatch ρ} (h : Kept w v) (id : JsString) : find v.record id = find w.record id := by
  rw [find_eq, find_eq, h.2.ids]

theorem find_of_nodup {r : PersistedWatch} (h : (r.conditions.map (·.id)).Nodup)
    (hk : r.conditions[k]? = some c) : find r c.id = some k := by
  obtain ⟨hlt, rfl⟩ := List.getElem?_eq_some_iff.mp hk
  rw [find, findIdx?_eq_some_iff_getElem]
  refine ⟨hlt, by simp, fun j hj => ?_⟩
  have hne := (nodup_iff_pairwise_ne.mp h)
  rw [pairwise_map, pairwise_iff_getElem] at hne
  simpa using hne j k (by omega) hlt hj

/-- What an id finds is the first condition with that id. -/
theorem first_of_find {r : PersistedWatch} {id : JsString} (h : find r id = some k) :
    ∃ c, r.conditions[k]? = some c ∧ c.id = id ∧
      ∀ (j : ℕ) (d : WatchConditionState), j < k → r.conditions[j]? = some d → d.id ≠ id := by
  rw [find, findIdx?_eq_some_iff_getElem] at h
  obtain ⟨hlt, hid, hfirst⟩ := h
  refine ⟨_, getElem?_eq_getElem hlt, by simpa using hid, fun j d hj hd => ?_⟩
  obtain ⟨hjlt, rfl⟩ := List.getElem?_eq_some_iff.mp hd
  simpa using hfirst j hj

theorem isFired_kept {w v : ActiveWatch ρ} (h : Kept w v) (hf : isFired w k = true) : isFired v k = true := by
  rw [isFired, Option.any_eq_true] at hf ⊢
  obtain ⟨c, hc, hfired⟩ := hf
  obtain ⟨c', hc', hs⟩ := h.2.2 k c hc
  exact ⟨c', hc', hs.stays hfired⟩

theorem isFired_congr {w v : ActiveWatch ρ} (h : v.record.conditions = w.record.conditions) (k : ℕ) :
    isFired v k = isFired w k := by rw [isFired, isFired, h]

theorem kept_recordFiring (w : ActiveWatch ρ) (k : ℕ) (input : FiringInput) (b : Option ℕ) :
    Kept w (recordFiring w k input b).1 := local_recordFiring (local_kept w) w k input b (Kept.refl w)

theorem kept_recordMatches (w : ActiveWatch ρ) (t : JsNumber) (ms : List ConditionMatch) (b : Option ℕ) (f : Bool) :
    Kept w (recordMatches t ms w b f).1 := local_recordMatches (local_kept w) ms w b f (Kept.refl w)

theorem isFired_addFiring (w : ActiveWatch ρ) {j : ℕ} {cond : WatchConditionState} (hj : w.record.conditions[j]? = some cond)
    (input : FiringInput) (k : ℕ) : isFired (addFiring w j cond input) k = (decide (k = j) || isFired w k) := by
  have hlt := (List.getElem?_eq_some_iff.mp hj).1
  by_cases hkj : k = j
  · subst hkj
    simp [isFired, addFiring, hlt, markFired]
  · simp [isFired, addFiring, getElem?_set_ne (Ne.symm hkj), hkj]

theorem isFired_recordFiring (w : ActiveWatch ρ) (j : ℕ) (input : FiringInput) (b : Option ℕ)
    (hk : isFired w k = false) (h : isFired (recordFiring w j input b).1 k = true) : k = j := by
  rcases recordFiring_cases w j input b with ⟨-, hr⟩ | ⟨cond, hj, -, hr⟩ <;> rw [hr] at h
  · exact absurd h (by simp [hk])
  · rw [isFired_congr (wakeForFiring_frame ..).1, isFired_addFiring w hj] at h
    simpa [hk] using h

theorem fires_by_match {t : JsNumber} : ∀ (ms : List ConditionMatch) (w : ActiveWatch ρ) (b : Option ℕ) (f : Bool) {k : ℕ},
    isFired w k = false → isFired (recordMatches t ms w b f).1 k = true → ∃ m ∈ ms, find w.record m.conditionId = some k
  | [], w, b, f, k, hk, h => by
    rw [recordMatches, hk] at h
    cases h
  | m :: ms, w, b, f, k, hk, h => by
    rw [recordMatches] at h
    split at h
    · obtain ⟨m', hm, hf⟩ := fires_by_match ms w b f hk h
      exact ⟨m', mem_cons_of_mem _ hm, hf⟩
    next j hj =>
      split at h
      · rw [hk] at h
        cases h
      · dsimp only at h
        cases hnext : isFired (recordFiring w j { eventType := m.eventType, evidence := m.evidence, firedAt := t } b).1 k with
        | true =>
          have hkj := isFired_recordFiring w j _ b hk hnext
          exact ⟨m, by simp, hkj ▸ hj⟩
        | false =>
          obtain ⟨m', hm, hf⟩ := fires_by_match ms _ _ _ hnext h
          exact ⟨m', mem_cons_of_mem _ hm, by rwa [find_kept (kept_recordFiring w j _ b)] at hf⟩

/-- A condition fires in an event only when a match of the event finds it by id. -/
theorem fires_by_find {b : Option ℕ} (hk : isFired w k = false)
    (h : isFired (handleEvent R w e b).1 k = true) : ∃ m ∈ eventMatches R w e, find w.record m.conditionId = some k := by
  rw [handleEvent] at h
  split_ifs at h with hs
  · rw [hk] at h
    cases h
  · dsimp only at h
    rw [isFired_congr (finishFirings_frame ..).1] at h
    exact fires_by_match (eventMatches R w e) (observed R w e) b false hk h

theorem firings_recordFiring_le (w : ActiveWatch ρ) (j : ℕ) (input : FiringInput) (b : Option ℕ) :
    (recordFiring w j input b).1.record.firings.length ≤ w.record.firings.length + 1 := by
  rcases recordFiring_cases w j input b with ⟨-, hr⟩ | ⟨cond, -, -, hr⟩ <;> rw [hr]
  · exact Nat.le_succ _
  · rw [(wakeForFiring_frame ..).2.1]
    simp [addFiring]

theorem recordFiring_fires (hc : Counts w) (hk : k < w.record.conditions.length)
    (hroom : w.record.firings.length < DEFAULT_MAX_TOTAL) (input : FiringInput) (b : Option ℕ) :
    isFired (recordFiring w k input b).1 k = true := by
  rcases recordFiring_cases w k input b with ⟨hno, hr⟩ | ⟨cond, hj, -, hr⟩ <;> rw [hr]
  · have hget := getElem?_eq_getElem hk
    by_contra hf
    have hfalse : w.record.conditions[k].fired = false := by simpa [isFired, hget] using hf
    have hzero := hc.unfired _ (getElem_mem hk) hfalse
    have := hno _ hget
    simp [admits, hfalse, hzero, hroom, DEFAULT_MAX_PER_CONDITION] at this
  · rw [isFired_congr (wakeForFiring_frame ..).1, isFired_addFiring w hj]
    simp

/-- A condition that a match finds is fired after the loop, or the ledger filled up before
    its turn. -/
theorem recordMatches_fires {t : JsNumber} : ∀ (ms : List ConditionMatch) {w : ActiveWatch ρ} (b : Option ℕ) (f : Bool),
    Counts w → ∀ {m : ConditionMatch} {k : ℕ}, m ∈ ms → find w.record m.conditionId = some k →
      isFired (recordMatches t ms w b f).1 k = true ∨
        (DEFAULT_MAX_TOTAL ≤ (recordMatches t ms w b f).1.record.firings.length ∧
          DEFAULT_MAX_TOTAL < w.record.firings.length + ms.length)
  | [], _, _, _, _, m, _, hm, _ => by simp at hm
  | m' :: ms, w, b, f, hc, m, k, hm, hf => by
    rw [recordMatches]
    split
    next hnone =>
      rcases mem_cons.mp hm with rfl | hm
      · rw [hnone] at hf
        cases hf
      · rcases recordMatches_fires ms b f hc hm hf with h | ⟨h, h'⟩
        · exact .inl h
        · exact .inr ⟨h, by simp; omega⟩
    next j hj =>
      split
      next hfull => exact .inr ⟨hfull, by simp; omega⟩
      next hroom =>
        dsimp only
        have hkept := kept_recordFiring w j { eventType := m'.eventType, evidence := m'.evidence, firedAt := t } b
        rcases mem_cons.mp hm with rfl | hm
        · obtain rfl : j = k := Option.some.inj (hj.symm.trans hf)
          obtain ⟨c, hk, -⟩ := first_of_find hj
          have hfires := recordFiring_fires hc (List.getElem?_eq_some_iff.mp hk).1 (by omega)
            { eventType := m.eventType, evidence := m.evidence, firedAt := t } b
          exact .inl (isFired_kept (kept_recordMatches _ t ms _ _) hfires)
        · have hlen := firings_recordFiring_le w j { eventType := m'.eventType, evidence := m'.evidence, firedAt := t } b
          rcases recordMatches_fires ms _ _ (local_recordFiring local_counts w j _ b hc) hm
            ((find_kept hkept _).trans hf) with h | ⟨h, h'⟩
          · exact .inl h
          · exact .inr ⟨h, by simp; omega⟩

/-! ## A registered watch -/

/-- What the ingest of an event reports of the condition at a position. -/
def Reports (w : ActiveWatch ρ) (e : NormalizedEvent) (k : ℕ) : Prop :=
  ∃ c, w.resolved[k]? = some c ∧ (matchOne R (read w.engine e).1 c e (read w.engine e).2).isSome = true

theorem eventMatches_of_reports (h : Reports R w e k)
    (hroom : w.record.firings.length < DEFAULT_MAX_TOTAL) :
    ∃ c m, w.resolved[k]? = some c ∧ m ∈ eventMatches R w e ∧ m.conditionId = c.id := by
  obtain ⟨c, hc, hm⟩ := h
  obtain ⟨evidence, hev⟩ := Option.isSome_iff_exists.mp hm
  refine ⟨c, ⟨c.id, e.type, evidence⟩, hc, ?_, rfl⟩
  rw [eventMatches, if_pos hroom]
  exact (mem_ingest R).mpr ⟨c, mem_of_getElem? hc, evidence, hev, rfl⟩

theorem reports_of_eventMatches {m : ConditionMatch}
    (h : m ∈ eventMatches R w e) : ∃ k c, w.resolved[k]? = some c ∧ Reports R w e k ∧ m.conditionId = c.id := by
  rw [eventMatches] at h
  split_ifs at h
  · obtain ⟨c, hc, evidence, hev, rfl⟩ := (mem_ingest R).mp h
    obtain ⟨k, hk⟩ := getElem?_of_mem hc
    exact ⟨k, c, hk, ⟨c, hk, Option.isSome_iff_exists.mpr ⟨evidence, hev⟩⟩, rfl⟩
  · simp at h

/-- Events and the elapse of deadlines. -/
def plain : Step → Bool
  | .event _ | .deadline _ => true
  | _ => false

def CanFire (w : ActiveWatch ρ) (k : ℕ) : Prop :=
  ∃ ss : List (ℕ × Step), (∀ s ∈ ss, plain s.2 = true) ∧ isFired (run R w ss) k = true

/-- Whatever the ingest of an event reports of the condition at a position, in any state of a
    run, its match finds that position, and fires that condition unless it has fired or the
    ledger is full. -/
def RecordedInPlace (w : ActiveWatch ρ) : Prop :=
  ∀ (ss : List (ℕ × Step)) (e : NormalizedEvent) (k : ℕ) (c : ResolvedCondition ρ), (run R w ss).resolved[k]? = some c →
    Reports R (run R w ss) e k → find (run R w ss).record c.id = some k ∧
      ∀ b, (run R w ss).record.status = .active → (run R w ss).record.firings.length < DEFAULT_MAX_TOTAL →
        isFired (handleEvent R (run R w ss) e b).1 k = true ∨
          DEFAULT_MAX_TOTAL ≤ (handleEvent R (run R w ss) e b).1.record.firings.length

/-- The step reports the condition at a position, or is the end of its deadline. -/
def Matched (w : ActiveWatch ρ) (k : ℕ) : Step → Prop
  | .event e | .reconcileRestart e | .reconcileGoalEnd e | .neverStarted e =>
    w.record.status = .active ∧ w.record.firings.length < DEFAULT_MAX_TOTAL ∧ Reports R w e k
  | .deadline i => w.record.status = .active ∧ ∃ timer cond due, w.deadlineTimers[i]? = some timer ∧
      w.record.conditions[k]? = some cond ∧ timer.conditionId = cond.id ∧ cond.dueAt = some due ∧ due ≤ w.clock
  | _ => False

/-- A list of one-shot conditions that each matched at least once has all fired. -/
def Completes (w : ActiveWatch ρ) : Prop :=
  (∀ c ∈ w.record.conditions, c.spec.once ≠ some false) → ∀ ss : List (ℕ × Step),
    (∀ k < w.record.conditions.length, ∃ pre s post, ss = pre ++ s :: post ∧
      Matched R (tick (run R w pre) s.1) k s.2) → allOneShotConditionsFired (run R w ss).record = true

structure NotStranded (w : ActiveWatch ρ) : Prop where
  canFire : ∀ k < w.record.conditions.length, CanFire R w k
  inPlace : RecordedInPlace R w
  completes : Completes R w

variable {R} in
theorem run_append (w : ActiveWatch ρ) (ss ts : List (ℕ × Step)) : run R w (ss ++ ts) = run R (run R w ss) ts :=
  foldl_append

/-- A run that fires a condition has a step that does. -/
theorem exists_firing_step : ∀ (ss : List (ℕ × Step)) {w : ActiveWatch ρ}, isFired w k = false →
    isFired (run R w ss) k = true → ∃ pre s, s ∈ ss ∧ isFired (run R w pre) k = false ∧ isFired (step R (run R w pre) s) k = true
  | [], w, hw, h => by
    rw [run, foldl_nil, hw] at h
    cases h
  | s :: ss, w, hw, h => by
    cases hs : isFired (step R w s) k with
    | true => exact ⟨[], s, by simp, hw, hs⟩
    | false =>
      obtain ⟨pre, t, ht, hpre, hstep⟩ := exists_firing_step ss hs h
      exact ⟨s :: pre, t, mem_cons_of_mem _ ht, hpre, hstep⟩

theorem isFired_fireAlone (w : ActiveWatch ρ) (j : ℕ) (input : FiringInput) (k : ℕ) :
    isFired (fireAlone w j input) k = isFired (recordFiring w j input none).1 k := by
  rw [fireAlone]
  dsimp only
  split_ifs
  · rw [isFired_congr (finishFirings_frame ..).1]
  · rfl

/-- A deadline timer fires only the condition it finds, which has a due instant. -/
theorem fires_by_deadline {timer : DeadlineTimer} (hk : isFired w k = false)
    (h : isFired (fireDeadline w timer) k = true) : find w.record timer.conditionId = some k ∧
      ∃ cond due, w.record.conditions[k]? = some cond ∧ cond.dueAt = some due := by
  rcases fireDeadline_cases w timer with hd | hd | ⟨j, cond, due, -, hf, hc, hdue, -, -, hd⟩ <;> rw [hd] at h
  · rw [hk] at h
    cases h
  · exact absurd (hk.symm.trans h) (by simp)
  · rw [isFired_fireAlone] at h
    obtain rfl := isFired_recordFiring w j _ none hk h
    exact ⟨hf, cond, due, hc, hdue⟩

section Registered

variable {R}
variable {specs : List WatchConditionSpec} {resolved : List (ResolvedCondition ρ)} (onFire : Option WatchOnFireAction) (pinned targetPinned : Bool) (clock : ℕ)

theorem registered_ids :
    (registered resolved onFire pinned targetPinned clock).record.conditions.map (·.id) = resolved.map (·.id) := by
  simp [registered, conditionState]

theorem counts_registered (resolved : List (ResolvedCondition ρ)) : Counts (registered resolved onFire pinned targetPinned clock) := by
  constructor
  · intro c hc _
    obtain ⟨r, -, rfl⟩ := mem_map.mp hc
    rfl
  · intro _
    have hnone : (resolved.map (conditionState clock)).countP (·.fired) = 0 := by
      rw [countP_eq_zero]
      intro c hc
      obtain ⟨r, -, rfl⟩ := mem_map.mp hc
      simp [conditionState]
    exact hnone.symm

theorem unfired_registered (k : ℕ) : isFired (registered resolved onFire pinned targetPinned clock) k = false := by
  cases hk : resolved[k]? <;> simp [isFired, registered, conditionState, hk]

theorem registered_get
    (hk : (registered resolved onFire pinned targetPinned clock).record.conditions[k]? = some c) :
    ∃ r, resolved[k]? = some r ∧ c = conditionState clock r := by
  simp only [registered, getElem?_map, Option.map_eq_some_iff] at hk
  obtain ⟨r, hr, rfl⟩ := hk
  exact ⟨r, hr, rfl⟩

/-- The condition states of a run, seen from the registration. -/
theorem run_get {ss : List (ℕ × Step)}
    (hk : (run R (registered resolved onFire pinned targetPinned clock) ss).record.conditions[k]? = some c) :
    ∃ r, resolved[k]? = some r ∧ Same (conditionState clock r) c := by
  have hkept := keeps_run R (registered resolved onFire pinned targetPinned clock) ss
  have hlt : k < (registered resolved onFire pinned targetPinned clock).record.conditions.length := by
    rw [← hkept.2.1]
    exact (List.getElem?_eq_some_iff.mp hk).1
  obtain ⟨c', hc', hs⟩ := hkept.2.2 k _ (getElem?_eq_getElem hlt)
  obtain ⟨r, hr, hrc⟩ := registered_get onFire pinned targetPinned clock (getElem?_eq_getElem hlt)
  cases hc'.symm.trans hk
  exact ⟨r, hr, hrc ▸ hs⟩

/-- A condition that can fire is found by its id, and can match when every match reaches its
    own condition. -/
theorem found_of_canFire (hk : CanFire R (registered resolved onFire pinned targetPinned clock) k)
    (hplace : RecordedInPlace R (registered resolved onFire pinned targetPinned clock)) {r : ResolvedCondition ρ}
    (hr : resolved[k]? = some r) :
    (∃ id, find (registered resolved onFire pinned targetPinned clock).record id = some k) ∧ CanMatch R r := by
  obtain ⟨ss, hplain, hfired⟩ := hk
  obtain ⟨pre, s, hs, hbefore, hafter⟩ := exists_firing_step R ss (unfired_registered onFire pinned targetPinned clock k) hfired
  have hkept := keeps_run R (registered resolved onFire pinned targetPinned clock) pre
  rcases s with ⟨d, s⟩
  cases s with
  | event e =>
    obtain ⟨m, hm, hf⟩ := fires_by_find (w := tick (run R _ pre) d) R hbefore hafter
    obtain ⟨j, c, hj, hrep, hid⟩ := reports_of_eventMatches R hm
    obtain ⟨hfj, -⟩ := hplace pre e j c hj hrep
    rw [hid] at hf
    obtain rfl : k = j := Option.some.inj (hf.symm.trans hfj)
    have hcr : c = r := Option.some.inj (hj.symm.trans ((congrArg (·[k]?) hkept.1).trans hr))
    obtain ⟨c', hc', hmatch⟩ := hrep
    cases hc'.symm.trans hj
    exact ⟨⟨c.id, by rwa [← find_kept hkept]⟩, hcr ▸ canMatch_of_matchOne R hmatch⟩
  | deadline i =>
    simp only [step, act] at hafter
    split at hafter
    · exact absurd (hbefore.symm.trans hafter) (by simp)
    next timer _ =>
      obtain ⟨hf, cond, due, hc, hdue⟩ := fires_by_deadline
        (w := dropDeadline (tick (run R _ pre) d) i) hbefore hafter
      obtain ⟨r', hr', hsame⟩ := run_get onFire pinned targetPinned clock hc
      cases hr.symm.trans hr'
      have ht : r.type = js "deadline" := by
        rw [hsame.dueAt_eq, conditionState, dueAt] at hdue
        by_contra hne
        simp [hne] at hdue
      exact ⟨⟨timer.conditionId, by rwa [← find_kept hkept]⟩,
        fun h' => absurd (ht.symm.trans h') (by decide), fun h' => absurd (ht.symm.trans h') (by decide)⟩
  | _ => simpa [plain] using hplain _ hs

theorem nodup_of_notStranded (hs : NotStranded R (registered resolved onFire pinned targetPinned clock)) :
    (resolved.map (·.id)).Nodup := by
  rw [nodup_iff_pairwise_ne, pairwise_map, pairwise_iff_getElem]
  intro j k hj hk hjk
  have hlen : (registered resolved onFire pinned targetPinned clock).record.conditions.length = resolved.length := by
    simp [registered]
  obtain ⟨⟨id, hf⟩, -⟩ := found_of_canFire onFire pinned targetPinned clock (hs.canFire k (by rw [hlen]; exact hk)) hs.inPlace
    (getElem?_eq_getElem hk)
  obtain ⟨c, hc, hid, hfirst⟩ := first_of_find hf
  obtain ⟨r, hr, rfl⟩ := registered_get onFire pinned targetPinned clock hc
  have hj' : (registered resolved onFire pinned targetPinned clock).record.conditions[j]? =
      some (conditionState clock resolved[j]) := by simp [registered, hj]
  have hne := hfirst j _ hjk hj'
  rw [getElem?_eq_getElem hk] at hr
  cases hr
  exact fun heq => hne (heq.trans hid)

theorem firings_le_total (resolved : List (ResolvedCondition ρ)) (ss : List (ℕ × Step)) :
    (run R (registered resolved onFire pinned targetPinned clock) ss).record.firings.length ≤ DEFAULT_MAX_TOTAL := by
  have hl : Local fun w : ActiveWatch ρ => w.record.firings.length ≤ DEFAULT_MAX_TOTAL :=
    { same := fun hw _ _ hf => by rw [hf]; exact hw
      fire := fun w k cond input _ ha _ => by
        simp only [admits, Bool.and_eq_true, decide_eq_true_eq] at ha
        simp only [addFiring, length_append, length_cons, length_nil]
        omega }
  exact local_run R hl (by simp [registered]) ss

/-- The ledger ends before a longer list of one-shot conditions has fired. -/
theorem not_completed_of_long (hlong : DEFAULT_MAX_TOTAL < resolved.length) (ss : List (ℕ × Step)) :
    allOneShotConditionsFired (run R (registered resolved onFire pinned targetPinned clock) ss).record = false := by
  have hkept := keeps_run R (registered resolved onFire pinned targetPinned clock) ss
  have hcounts := local_run R local_counts (counts_registered onFire pinned targetPinned clock resolved) ss
  have hle := firings_le_total (R := R) onFire pinned targetPinned clock resolved ss
  by_contra hall
  simp only [allOneShotConditionsFired, Bool.not_eq_false, Bool.and_eq_true, all_eq_true, oneShotFired] at hall
  have honce := hcounts.oneShot fun c hc => by simpa using (hall.2 c hc).1
  have hcount : (run R (registered resolved onFire pinned targetPinned clock) ss).record.conditions.countP (·.fired) =
      (run R (registered resolved onFire pinned targetPinned clock) ss).record.conditions.length :=
    countP_eq_length.mpr fun c hc => (hall.2 c hc).2
  have hlen : (registered resolved onFire pinned targetPinned clock).record.conditions.length = resolved.length := by
    simp [registered]
  have := hkept.2.1
  omega

/-- When every condition has fired, the watch is complete. -/
theorem completed_of_fired (hne : w.record.conditions ≠ [])
    (honce : ∀ c ∈ w.record.conditions, c.spec.once ≠ some false)
    (hfired : ∀ k < w.record.conditions.length, isFired w k = true) : allOneShotConditionsFired w.record = true := by
  simp only [allOneShotConditionsFired, Bool.and_eq_true, all_eq_true, oneShotFired]
  refine ⟨by simpa using hne, fun c hc => ⟨by simpa using honce c hc, ?_⟩⟩
  obtain ⟨k, hk, rfl⟩ := getElem_of_mem hc
  simpa [isFired, getElem?_eq_getElem hk] using hfired k hk

/-- A one-shot list as long as its ledger is full has all fired. -/
theorem isFired_of_full (hc : Counts w) (honce : ∀ c ∈ w.record.conditions, c.spec.once ≠ some false)
    (hlen : w.record.conditions.length ≤ w.record.firings.length) (hk : k < w.record.conditions.length) :
    isFired w k = true := by
  have hcount := hc.oneShot honce
  have hle := countP_le_length (p := fun c : WatchConditionState => c.fired) (l := w.record.conditions)
  have hall := countP_eq_length.mp (show w.record.conditions.countP (·.fired) = w.record.conditions.length by omega)
  simpa [isFired, getElem?_eq_getElem hk] using hall _ (getElem_mem hk)

/-- An event that reports a condition fires it, or finds the ledger full. -/
theorem handleEvent_fires (hc : Counts w) (b : Option ℕ)
    (ha : w.record.status = .active) (hroom : w.record.firings.length < DEFAULT_MAX_TOTAL) (hrep : Reports R w e k)
    (hf : ∀ c, w.resolved[k]? = some c → find w.record c.id = some k) : isFired (handleEvent R w e b).1 k = true ∨
      (DEFAULT_MAX_TOTAL ≤ (handleEvent R w e b).1.record.firings.length ∧
        DEFAULT_MAX_TOTAL < w.record.firings.length + w.resolved.length) := by
  obtain ⟨c, m, hk, hm, hid⟩ := eventMatches_of_reports R hrep hroom
  have hlen : (eventMatches R w e).length ≤ w.resolved.length := by
    rw [eventMatches, if_pos hroom]
    exact length_filterMap_le _ _
  have hc' : Counts (observed R w e) := local_counts.same hc rfl rfl rfl
  rw [handleEvent, if_neg (by simp [ha])]
  dsimp only
  rw [isFired_congr (finishFirings_frame ..).1, (finishFirings_frame ..).2.1]
  rcases recordMatches_fires (t := e.timestamp) (eventMatches R w e) b false hc' hm
    (show find (observed R w e).record m.conditionId = some k by rw [hid]; exact hf c hk) with h | ⟨h, h'⟩
  · exact .inl h
  · refine .inr ⟨h, ?_⟩
    change DEFAULT_MAX_TOTAL < w.record.firings.length + _ at h'
    omega

/-- The deadline of a condition, once its time has come, fires it. -/
theorem fireDeadline_fires (hc : Counts w) {timer : DeadlineTimer} {cond : WatchConditionState}
    {due : ℕ} (ha : w.record.status = .active) (hroom : w.record.firings.length < DEFAULT_MAX_TOTAL)
    (hf : find w.record timer.conditionId = some k) (hk : w.record.conditions[k]? = some cond)
    (hdue : cond.dueAt = some due) (hpast : due ≤ w.clock) : isFired (fireDeadline w timer) k = true := by
  by_cases hfired : cond.fired = true
  · have hw : fireDeadline w timer = w := by simp [fireDeadline, hf, hk, hdue, hfired]
    simp [hw, isFired, hk, hfired]
  · have hw : fireDeadline w timer = fireAlone w k (deadlineInput w timer cond due) := by
      simp [fireDeadline, ha, hf, hk, hdue, hfired, Nat.not_lt.mpr hpast]
    rw [hw, isFired_fireAlone]
    exact recordFiring_fires hc (List.getElem?_eq_some_iff.mp hk).1 hroom _ _

theorem dueAt_isSome {r : ResolvedCondition ρ} (ht : r.type = js "deadline") (hd : isDeadline r.spec.afterSeconds = true) :
    ∃ due, dueAt clock r = some due := by
  rw [dueAt, if_pos ht]
  cases hs : r.spec.afterSeconds with
  | none => simp [hs, isDeadline] at hd
  | some x =>
    cases x with
    | fin q => exact ⟨_, rfl⟩
    | _ => simp [hs, isDeadline] at hd

/-- With distinct ids every condition that can match fires: a deadline by its timer, any other
    one by an event. -/
theorem canFire_of_canMatch (h : resolveConditions R specs = .ok resolved) (hlen : resolved.length ≤ DEFAULT_MAX_TOTAL)
    (hn : (resolved.map (·.id)).Nodup) (hm : ∀ c ∈ resolved, CanMatch R c) (hk : k < resolved.length) :
    CanFire R (registered resolved onFire pinned targetPinned clock) k := by
  have hget : resolved[k]? = some resolved[k] := getElem?_eq_getElem hk
  obtain ⟨spec, -, hres⟩ := (resolveConditions_get R h).2 k _ hget
  have hcounts := counts_registered onFire pinned targetPinned clock resolved
  have hcond : (registered resolved onFire pinned targetPinned clock).record.conditions[k]? =
      some (conditionState clock resolved[k]) := by simp [registered, hk]
  have hfind : find (registered resolved onFire pinned targetPinned clock).record resolved[k].id = some k :=
    find_of_nodup (by rw [registered_ids]; exact hn) hcond
  by_cases ht : resolved[k].type = js "deadline"
  · have hspec : isDeadline resolved[k].spec.afterSeconds = true := by
      rw [hres.spec_eq]
      exact (hres.due (hres.type_eq ▸ ht)).1
    obtain ⟨due, hdue⟩ := dueAt_isSome clock ht hspec
    have htimer : (⟨resolved[k].id, false⟩ : DeadlineTimer) ∈
        (registered resolved onFire pinned targetPinned clock).deadlineTimers := by
      refine mem_filterMap.mpr ⟨_, mem_of_getElem? hcond, ?_⟩
      simp [conditionState, hdue, ht]
    obtain ⟨i, hi⟩ := getElem?_of_mem htimer
    refine ⟨[(due, .deadline i)], by simp [plain], ?_⟩
    have hi' : (tick (registered resolved onFire pinned targetPinned clock) due).deadlineTimers[i]? =
        some ⟨resolved[k].id, false⟩ := hi
    simp only [run, foldl_cons, foldl_nil, step, act, hi']
    have hpast : due ≤ (registered resolved onFire pinned targetPinned clock).clock + due := Nat.le_add_left _ _
    have hroom : (registered resolved onFire pinned targetPinned clock).record.firings.length < DEFAULT_MAX_TOTAL := by
      simp [registered, DEFAULT_MAX_TOTAL]
    have hlive : Counts (dropDeadline (tick (registered resolved onFire pinned targetPinned clock) due) i) :=
      local_counts.same hcounts rfl rfl rfl
    exact fireDeadline_fires hlive rfl hroom hfind hcond hdue hpast
  · obtain ⟨e, he⟩ := matchOne_of_canMatch R (hm _ (getElem_mem hk)) (hres.type_eq ▸ hres.known) ht fun hev => by
      rw [hres.spec_eq]
      exact hres.named (hres.type_eq ▸ hev)
    refine ⟨[(0, .event e)], by simp [plain], ?_⟩
    have hfires := handleEvent_fires (R := R)
      (w := tick (registered resolved onFire pinned targetPinned clock) 0) (e := e) (k := k)
      (local_counts.same hcounts rfl rfl rfl) none rfl (by simp [tick, registered, DEFAULT_MAX_TOTAL])
      ⟨resolved[k], hget, he⟩ fun c hc => (Option.some.inj (hget.symm.trans hc)) ▸ hfind
    rcases hfires with hfires | ⟨-, hfull⟩
    · exact hfires
    · simp only [tick, registered, length_nil] at hfull
      omega

theorem find_run (hn : (resolved.map (·.id)).Nodup) {ss : List (ℕ × Step)} {c : ResolvedCondition ρ}
    (hc : resolved[k]? = some c) : find (run R (registered resolved onFire pinned targetPinned clock) ss).record c.id = some k := by
  rw [find_kept (keeps_run R _ ss)]
  have hcond : (registered resolved onFire pinned targetPinned clock).record.conditions[k]? =
      some (conditionState clock c) := by simp [registered, hc]
  exact find_of_nodup (by rw [registered_ids]; exact hn) hcond

theorem recordedInPlace_of_nodup (hn : (resolved.map (·.id)).Nodup) :
    RecordedInPlace R (registered resolved onFire pinned targetPinned clock) := by
  intro ss e k c hc hrep
  have hkept := keeps_run R (registered resolved onFire pinned targetPinned clock) ss
  have hfind : ∀ d, (run R (registered resolved onFire pinned targetPinned clock) ss).resolved[k]? = some d →
      find (run R (registered resolved onFire pinned targetPinned clock) ss).record d.id = some k := by
    intro d hd
    rw [hkept.1] at hd
    exact find_run onFire pinned targetPinned clock hn hd
  refine ⟨hfind c hc, fun b ha hroom => ?_⟩
  have hcounts := local_run R local_counts (counts_registered onFire pinned targetPinned clock resolved) ss
  rcases handleEvent_fires hcounts b ha hroom hrep hfind with h | ⟨h, -⟩
  · exact .inl h
  · exact .inr h

theorem run_length (ss : List (ℕ × Step)) :
    (run R (registered resolved onFire pinned targetPinned clock) ss).record.conditions.length = resolved.length := by
  rw [(keeps_run R (registered resolved onFire pinned targetPinned clock) ss).2.1]
  simp [registered]

end Registered

section OneShot

variable {R} {v : ActiveWatch ρ}

theorem once_of_kept (hk : Kept v w) (h : ∀ c ∈ v.record.conditions, c.spec.once ≠ some false) :
    ∀ c ∈ w.record.conditions, c.spec.once ≠ some false := by
  intro c hc
  obtain ⟨k, hget⟩ := getElem?_of_mem hc
  have hlt : k < v.record.conditions.length := by
    rw [← hk.2.1]
    exact (List.getElem?_eq_some_iff.mp hget).1
  obtain ⟨c', hc', hs⟩ := hk.2.2 k _ (getElem?_eq_getElem hlt)
  cases hc'.symm.trans hget
  rw [hs.spec_eq]
  exact h _ (getElem_mem hlt)

section

variable (hc : Counts v) (honce : ∀ c ∈ v.record.conditions, c.spec.once ≠ some false)
  (hlen : v.record.conditions.length ≤ DEFAULT_MAX_TOTAL) {k : ℕ} (hk : k < v.record.conditions.length)
  (hfind : ∀ c, v.resolved[k]? = some c → find v.record c.id = some k)
include hc honce hlen hk hfind

/-- In a one-shot list that fits its ledger, an event that reports a condition leaves it
    fired. -/
theorem handleEvent_fires_oneShot (b : Option ℕ)
    (hm : v.record.status = .active ∧ v.record.firings.length < DEFAULT_MAX_TOTAL ∧ Reports R v e k) :
    isFired (handleEvent R v e b).1 k = true := by
  have hkept : Kept v (handleEvent R v e b).1 := local_handleEvent R (local_kept v) v e b (Kept.refl v)
  rcases handleEvent_fires hc b hm.1 hm.2.1 hm.2.2 hfind with h | ⟨h, -⟩
  · exact h
  · exact isFired_of_full (local_handleEvent R local_counts v e b hc) (once_of_kept hkept honce)
      (by rw [hkept.2.1]; omega) (by rw [hkept.2.1]; exact hk)

/-- In a one-shot list that fits its ledger, a step that matches a condition leaves it fired. -/
theorem act_fires (hfind' : ∀ c, v.record.conditions[k]? = some c → find v.record c.id = some k) {s : Step} (hm : Matched R v k s) :
    isFired (act R v s) k = true := by
  cases s with
  | event e => exact handleEvent_fires_oneShot hc honce hlen hk hfind none hm
  | reconcileRestart e | neverStarted e => exact handleEvent_fires_oneShot hc honce hlen hk hfind (some 1) hm
  | reconcileGoalEnd e => exact handleEvent_fires_oneShot hc honce hlen hk hfind (some v.restartBudget) hm
  | deadline i =>
    obtain ⟨ha, timer, cond, due, htimer, hcond, hid, hdue, hpast⟩ := hm
    simp only [act, htimer]
    have hlive : Counts (dropDeadline v i) := local_counts.same hc rfl rfl rfl
    have hf : find v.record timer.conditionId = some k := hid ▸ hfind' cond hcond
    by_cases hroom : v.record.firings.length < DEFAULT_MAX_TOTAL
    · exact fireDeadline_fires hlive ha hroom hf hcond hdue hpast
    · have hfull : isFired v k = true := isFired_of_full hc honce (by omega) hk
      have hkept := local_act R (local_kept v) v (.deadline i) (Kept.refl v)
      have hfired := isFired_kept hkept hfull
      simpa only [act, htimer] using hfired
  | _ => exact hm.elim

end

end OneShot

section Registered

variable {R}
variable {specs : List WatchConditionSpec} {resolved : List (ResolvedCondition ρ)} (onFire : Option WatchOnFireAction)
  (pinned targetPinned : Bool) (clock : ℕ)

theorem completes_of_nodup (hlen : resolved.length ≤ DEFAULT_MAX_TOTAL) (hne : resolved ≠ [])
    (hn : (resolved.map (·.id)).Nodup) : Completes R (registered resolved onFire pinned targetPinned clock) := by
  intro honce ss hmatched
  refine completed_of_fired ?_ (once_of_kept (keeps_run R _ ss) honce) fun k hk => ?_
  · rw [← length_pos_iff, run_length]
    exact length_pos_iff.mpr hne
  rw [run_length] at hk
  obtain ⟨pre, s, post, rfl, hm⟩ := hmatched k (by simpa [registered] using hk)
  have hkept := keeps_run R (registered resolved onFire pinned targetPinned clock) pre
  have hcounts := local_run R local_counts (counts_registered onFire pinned targetPinned clock resolved) pre
  have hlength : (run R (registered resolved onFire pinned targetPinned clock) pre).record.conditions.length =
      resolved.length := run_length onFire pinned targetPinned clock pre
  have hresolved : ∀ c, (run R (registered resolved onFire pinned targetPinned clock) pre).resolved[k]? = some c →
      find (run R (registered resolved onFire pinned targetPinned clock) pre).record c.id = some k := by
    intro c hc
    rw [hkept.1] at hc
    exact find_run onFire pinned targetPinned clock hn hc
  have hstates : ∀ c, (run R (registered resolved onFire pinned targetPinned clock) pre).record.conditions[k]? = some c →
      find (run R (registered resolved onFire pinned targetPinned clock) pre).record c.id = some k := by
    intro c hc
    obtain ⟨r, hr, hsame⟩ := run_get onFire pinned targetPinned clock hc
    rw [hsame.id_eq]
    exact find_run onFire pinned targetPinned clock hn hr
  have honce' := once_of_kept hkept honce
  have hstep : isFired (step R (run R (registered resolved onFire pinned targetPinned clock) pre) s) k = true := by
    generalize run R (registered resolved onFire pinned targetPinned clock) pre = v at *
    exact act_fires (v := tick v s.1) (local_counts.same hcounts rfl rfl rfl) honce' (by rw [← hlength] at hlen; exact hlen)
      (by rw [← hlength] at hk; exact hk) hresolved hstates hm
  -- what the step fires stays fired to the end of the run
  have happ : pre ++ s :: post = (pre ++ [s]) ++ post := by simp
  rw [happ, run_append]
  refine isFired_kept (keeps_run R _ post) ?_
  rw [run_append]
  exact hstep

end Registered

/-- A list of at most 500 conditions that registration accepts is never stranded by its own
    shape exactly when its ids are pairwise distinct and every condition can match. A longer
    list of one-shot conditions never completes. -/
theorem accepted_conditions_fire {specs : List WatchConditionSpec} {resolved : List (ResolvedCondition ρ)}
    (h : resolveConditions R specs = .ok resolved) (hne : specs ≠ []) (onFire : Option WatchOnFireAction)
    (pinned targetPinned : Bool) (clock : ℕ) :
    (resolved.length ≤ DEFAULT_MAX_TOTAL → (NotStranded R (registered resolved onFire pinned targetPinned clock) ↔
        (resolved.map (·.id)).Nodup ∧ ∀ c ∈ resolved, CanMatch R c)) ∧
      (DEFAULT_MAX_TOTAL < resolved.length → ∀ ss,
        allOneShotConditionsFired (run R (registered resolved onFire pinned targetPinned clock) ss).record = false) := by
  have hlen : (registered resolved onFire pinned targetPinned clock).record.conditions.length = resolved.length := by
    simp [registered]
  have hne' : resolved ≠ [] := by
    rw [← length_pos_iff, (resolveConditions_get R h).1]
    exact length_pos_iff.mpr hne
  refine ⟨fun hle => ⟨fun hs => ⟨nodup_of_notStranded onFire pinned targetPinned clock hs, fun c hc => ?_⟩, fun hs => ?_⟩,
    fun hlong => not_completed_of_long onFire pinned targetPinned clock hlong⟩
  · obtain ⟨k, hk, rfl⟩ := getElem_of_mem hc
    exact (found_of_canFire onFire pinned targetPinned clock (hs.canFire k (by rw [hlen]; exact hk)) hs.inPlace
      (getElem?_eq_getElem hk)).2
  · exact ⟨fun k hk => canFire_of_canMatch onFire pinned targetPinned clock h hle hs.1 hs.2 (by rw [← hlen]; exact hk),
      recordedInPlace_of_nodup onFire pinned targetPinned clock hs.1,
      completes_of_nodup onFire pinned targetPinned clock hle hne' hs.1⟩

/-- A regular expression engine for lists without patterns. -/
def noPatterns : RegExps Unit :=
  { new := fun _ _ => .error (js "SyntaxError"), flags := fun _ => [], source := fun _ => [], matchAll := fun _ _ => [] }

def agentEnd (id : Option JsString) : WatchConditionSpec :=
  { id, type := js "event_type", eventType := some (js "agent_end") }

def resolvedAgentEnd (id : JsString) : ResolvedCondition Unit :=
  { id, type := js "event_type", spec := agentEnd (some id), once := true, regex := none }

/-- One `agent_end` condition. -/
theorem single_condition_fires : NotStranded noPatterns (registered [resolvedAgentEnd (js "c0")] none true false 1000) := by
  have h : resolveConditions noPatterns [agentEnd none] = .ok [resolvedAgentEnd (js "c0")] := by rfl
  refine ((accepted_conditions_fire noPatterns h (by simp) none true false 1000).1 (by decide)).mpr ⟨by decide, fun c hc => ?_⟩
  rw [mem_singleton] at hc
  subst hc
  exact ⟨nofun, fun ht => absurd ht (by decide)⟩

/-- Registration accepts two conditions with one id, and a text condition that looks for the
    empty text; both lists are stranded. -/
theorem accepted_and_stranded :
    (∃ resolved, resolveConditions noPatterns [agentEnd (some (js "end")), agentEnd (some (js "end"))] = .ok resolved ∧
        ¬ NotStranded noPatterns (registered resolved none true false 1000)) ∧
      ∃ resolved, resolveConditions noPatterns [{ type := js "text", contains := some [] }] = .ok resolved ∧
        ¬ NotStranded noPatterns (registered resolved none true false 1000) := by
  refine ⟨⟨[resolvedAgentEnd (js "end"), resolvedAgentEnd (js "end")], by rfl, fun hs => ?_⟩,
    ⟨[{ id := js "c0", type := js "text", spec := { id := some (js "c0"), type := js "text", contains := some [] }
        once := true, regex := none }], by rfl, fun hs => ?_⟩⟩
  · have hn := nodup_of_notStranded none true false 1000 hs
    simp [resolvedAgentEnd] at hn
  · obtain ⟨-, hm⟩ := found_of_canFire none true false 1000 (hs.canFire 0 (by decide)) hs.inPlace rfl
    obtain ⟨regex, -, -, -, hr, -⟩ := hm.2 rfl rfl
    cases hr

end PiWebUi.Watch.ActiveWatch
