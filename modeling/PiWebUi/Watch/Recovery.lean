/-
  PiWebUi.Watch.Recovery — which watches complete across crashes.

  A watch completes when its last wake settles, so a list that has fired is never left
  behind while a dispatch or a retry is in flight (`Progresses`), and a pending attempt has
  its dispatch on the chain. Three things break this:
  - a restart from a ledger with a pending attempt, or with an active watch whose list has
    fired and that has an action: `init` completes watches without one only (`Recoverable`);
  - a reconciliation event whose last firing is coalesced away: that branch of
    `recordFiring` never completes the watch (`Covered`);
  - an `unpinSession` call that is refused.
  `recovered_watches_complete`: in a life without these, every reached state with no
  dispatch or retry in flight has no pending attempt, and if its list has fired the watch is
  done and its two release calls leave no claim.
-/

import PiWebUi.Watch.WakeBudget

namespace PiWebUi.Watch.ActiveWatch

open Lib List

variable {ρ : Type} (R : RegExps ρ)

/-- A dispatch or a retry of a wake is on its way. -/
def InFlight (w : ActiveWatch ρ) : Prop := w.wakeChain ≠ [] ∨ w.wakeRetryTimers ≠ []

/-- An active watch whose list has fired still has a wake to settle. -/
def Progresses (w : ActiveWatch ρ) : Prop :=
  w.record.status = .active → allOneShotConditionsFired w.record = true → InFlight w

/-! ## The invariant -/

structure Payload (specs : List WatchConditionSpec) (p : PersistedWatch) : Prop where
  specs_eq : p.conditions.map (·.spec) = specs
  live : p.status = .active ∨ p.status = .done

structure Sound (specs : List WatchConditionSpec) (w : ActiveWatch ρ) : Prop where
  payload : ∀ p ∈ w.record :: w.disk :: w.saves, Payload specs p
  inChain : ∀ a ∈ w.record.wakeAttempts, a.status = .pending → a.ref ∈ w.wakeChain.map (·.attempt)
  idle : w.record.onFire = none → ¬ InFlight w
  subject : w.subjectClaim = true → w.record.pinned = true
  target : w.targetClaim = true → w.record.targetPinned = true ∧ w.record.onFire.isSome = true
  toRelease : w.record.status = .done → w.release = .idle → w.subjectClaim = false ∧ w.targetClaim = false
  subjectReleased : w.release = .target ∨ w.release = .released → w.subjectClaim = false
  targetReleased : w.release = .released → w.targetClaim = false

/-- What the invariant reads, apart from the attempts. -/
structure SameLife (w v : ActiveWatch ρ) : Prop where
  status_eq : v.record.status = w.record.status
  onFire_eq : v.record.onFire = w.record.onFire
  specs_eq : v.record.conditions.map (·.spec) = w.record.conditions.map (·.spec)
  pinned_eq : v.record.pinned = w.record.pinned
  targetPinned_eq : v.record.targetPinned = w.record.targetPinned
  subject_eq : v.subjectClaim = w.subjectClaim
  target_eq : v.targetClaim = w.targetClaim
  release_eq : v.release = w.release
  saved : ∀ p ∈ v.disk :: v.saves, p ∈ w.record :: w.disk :: w.saves ∨ p = v.record

variable {specs : List WatchConditionSpec} {w : ActiveWatch ρ} {evidence : JsString}

theorem Sound.same {w v : ActiveWatch ρ} (h : Sound specs w) (k : SameLife w v)
    (hchain : ∀ a ∈ v.record.wakeAttempts, a.status = .pending → a.ref ∈ v.wakeChain.map (·.attempt))
    (hidle : v.record.onFire = none → ¬ InFlight v) : Sound specs v := by
  have hrecord : Payload specs v.record := by
    obtain ⟨hspecs, hlive⟩ := h.payload w.record (by simp)
    exact ⟨k.specs_eq.trans hspecs, by rw [k.status_eq]; exact hlive⟩
  refine ⟨fun p hp => ?_, hchain, hidle, ?_, ?_, ?_, ?_, ?_⟩
  · rcases mem_cons.mp hp with rfl | hp
    · exact hrecord
    · rcases k.saved p hp with hp | rfl
      · exact h.payload p hp
      · exact hrecord
  · rw [k.subject_eq, k.pinned_eq]
    exact h.subject
  · rw [k.target_eq, k.targetPinned_eq, k.onFire_eq]
    exact h.target
  · rw [k.status_eq, k.release_eq, k.subject_eq, k.target_eq]
    exact h.toRelease
  · rw [k.release_eq, k.subject_eq]
    exact h.subjectReleased
  · rw [k.release_eq, k.target_eq]
    exact h.targetReleased

/-- The attempts, the chain and the timers are the same too. -/
theorem Sound.frame {w v : ActiveWatch ρ} (h : Sound specs w) (k : SameLife w v)
    (hlog : v.record.wakeAttempts = w.record.wakeAttempts)
    (hchain : v.wakeChain.map (·.attempt) = w.wakeChain.map (·.attempt)) (htimers : v.wakeRetryTimers = w.wakeRetryTimers) :
    Sound specs v := by
  refine h.same k (by rw [hlog, hchain]; exact h.inChain) fun ho => ?_
  have hidle := h.idle (k.onFire_eq ▸ ho)
  simp only [InFlight, not_or, not_not] at hidle ⊢
  refine ⟨?_, htimers.trans hidle.2⟩
  rw [hidle.1, map_nil, map_eq_nil_iff] at hchain
  exact hchain

theorem saved_old {w v : ActiveWatch ρ} (hdisk : v.disk = w.disk) (hsaves : v.saves = w.saves) :
    ∀ p ∈ v.disk :: v.saves, p ∈ w.record :: w.disk :: w.saves ∨ p = v.record := by
  intro p hp
  rw [hdisk, hsaves] at hp
  exact .inl (mem_cons_of_mem _ hp)

theorem sound_persistLive (h : Sound specs w) : Sound specs (persistLive w) := by
  refine h.frame ⟨rfl, rfl, rfl, rfl, rfl, rfl, rfl, rfl, fun p hp => ?_⟩ rfl rfl rfl
  simp only [persistLive, mem_cons, mem_append, not_mem_nil, or_false] at hp ⊢
  rcases hp with hp | hp | rfl
  · exact .inl (.inr (.inl hp))
  · exact .inl (.inr (.inr hp))
  · exact .inr rfl

theorem sound_completeWatch (h : Sound specs w) : Sound specs (completeWatch w) := by
  rcases completeWatch_cases w with hc | ⟨-, -, -, hc⟩ <;> rw [hc]
  · exact h
  · obtain ⟨hspecs, -⟩ := h.payload w.record (by simp)
    refine ⟨fun p hp => ?_, h.inChain, h.idle, h.subject, h.target, nofun,
      fun hr => (by rcases hr with hr | hr <;> cases hr), nofun⟩
    rcases mem_cons.mp hp with rfl | hp
    · exact ⟨hspecs, .inr rfl⟩
    · exact h.payload p (mem_cons_of_mem _ hp)

/-- Completion is refused only with a wake in flight. -/
theorem progresses_completeWatch (h : Sound specs w) : Progresses (completeWatch w) := by
  intro hactive hfired
  by_cases hp : w.record.wakeAttempts.any isPending = true
  · obtain ⟨a, ha, hpending⟩ := any_eq_true.mp hp
    have hmem := h.inChain a ha (by simpa [isPending] using hpending)
    have hne : w.wakeChain ≠ [] := fun hnil => by simp [hnil] at hmem
    rcases completeWatch_cases w with hc | ⟨-, hnone, -, -⟩
    · rw [hc]
      exact .inl hne
    · rw [hp] at hnone
      cases hnone
  by_cases ht : w.wakeRetryTimers = []
  · rcases completeWatch_cases w with hc | ⟨-, -, -, hc⟩
    · rw [hc] at hactive hfired
      simp [completeWatch, hactive, hfired, hp, ht] at hc
      have hstatus := congrArg (fun v : ActiveWatch ρ => v.record.status) hc
      simp [hactive] at hstatus
    · rw [hc] at hactive
      cases hactive
  · rcases completeWatch_cases w with hc | ⟨-, -, hnil, -⟩
    · rw [hc]
      exact .inr ht
    · exact absurd hnil ht

/-! ## Wakes -/

theorem mem_lastRecorded {log : List WatchWakeAttempt} {a b : WatchWakeAttempt} (h : b ∈ lastRecorded (log ++ [a])) :
    b ∈ log ∨ b = a := by
  have := mem_of_mem_drop h
  simpa using this

theorem sound_suppressed (h : Sound specs w) {a : WatchWakeAttempt} (ha : a.status = .suppressed) :
    Sound specs (pushAttempt w a) := by
  refine h.same ⟨rfl, rfl, rfl, rfl, rfl, rfl, rfl, rfl, saved_old rfl rfl⟩ (fun b hb hpending => ?_) h.idle
  rcases mem_lastRecorded hb with hb | rfl
  · exact h.inChain b hb hpending
  · rw [ha] at hpending
    cases hpending

theorem sound_dispatch (h : Sound specs w) {action : WatchOnFireAction}
    (ho : w.record.onFire = some action) (c : JsString) (isRetry : Bool) : Sound specs (dispatch w action c isRetry) := by
  refine h.same ⟨rfl, rfl, rfl, rfl, rfl, rfl, rfl, rfl, saved_old rfl rfl⟩ (fun b hb hpending => ?_) fun hn => ?_
  · change b.ref ∈ (w.wakeChain ++ [({ attempt := w.nextRef, conditionId := c, isRetry } : WakeTask)]).map (·.attempt)
    rw [map_append, mem_append]
    rcases mem_lastRecorded hb with hb | rfl
    · exact .inl (h.inChain b hb hpending)
    · exact .inr (mem_singleton.mpr rfl)
  · rw [show (dispatch w action c isRetry).record.onFire = some action from ho] at hn
    cases hn

theorem inFlight_dispatch (w : ActiveWatch ρ) (action : WatchOnFireAction) (c : JsString) (isRetry : Bool) :
    InFlight (dispatch w action c isRetry) := .inl (by simp [dispatch])

theorem sound_suppress (h : Sound specs w) (action : WatchOnFireAction) (c reason : JsString) :
    Sound specs (suppress w action c reason) := by
  have hpush := sound_persistLive (sound_suppressed h (a := suppressed w action c reason) rfl)
  rw [suppress]
  split_ifs
  · exact sound_completeWatch hpush
  · exact hpush

theorem sound_dispatchWakeForFiring (h : Sound specs w) (c : JsString) (isRetry : Bool) :
    Sound specs (dispatchWakeForFiring w c isRetry) := by
  rcases dispatchWakeForFiring_cases w c isRetry with ⟨-, hd⟩ | ⟨a, ha, ⟨r, -, hd⟩ | ⟨-, hd⟩⟩ <;> rw [hd]
  · exact h
  · exact sound_suppress h a c r
  · exact sound_dispatch h ha c isRetry

/-- A wake that is decided leaves the watch progressing, whatever the policy says. -/
theorem progresses_dispatchWakeForFiring (h : Sound specs w) (ho : w.record.onFire.isSome = true)
    (c : JsString) (isRetry : Bool) : Progresses (dispatchWakeForFiring w c isRetry) := by
  rcases dispatchWakeForFiring_cases w c isRetry with ⟨hn, -⟩ | ⟨a, -, ⟨r, -, hd⟩ | ⟨-, hd⟩⟩
  · rw [hn] at ho
    cases ho
  · rw [hd, suppress]
    have hpush := sound_persistLive (sound_suppressed h (a := suppressed w a c r) rfl)
    split_ifs with hfired
    · exact progresses_completeWatch hpush
    · exact fun _ hf => absurd hf hfired
  · rw [hd]
    exact fun _ _ => inFlight_dispatch w a c isRetry

theorem completeWatch_wakes (w : ActiveWatch ρ) : (completeWatch w).wakeChain = w.wakeChain ∧
    (completeWatch w).wakeRetryTimers = w.wakeRetryTimers ∧ (completeWatch w).record.onFire = w.record.onFire := by
  rcases completeWatch_cases w with h | ⟨-, -, -, h⟩ <;> rw [h] <;> exact ⟨rfl, rfl, rfl⟩

theorem suppress_wakes (w : ActiveWatch ρ) (action : WatchOnFireAction) (c r : JsString) :
    (suppress w action c r).wakeChain = w.wakeChain ∧ (suppress w action c r).wakeRetryTimers = w.wakeRetryTimers ∧
      (suppress w action c r).record.onFire = w.record.onFire := by
  rw [suppress]
  split_ifs
  · exact completeWatch_wakes _
  · exact ⟨rfl, rfl, rfl⟩

theorem inFlight_dispatchWakeForFiring (h : InFlight w) (c : JsString) (isRetry : Bool) :
    InFlight (dispatchWakeForFiring w c isRetry) := by
  rcases dispatchWakeForFiring_cases w c isRetry with ⟨-, hd⟩ | ⟨a, -, ⟨r, -, hd⟩ | ⟨-, hd⟩⟩ <;> rw [hd]
  · exact h
  · obtain ⟨hc, ht, -⟩ := suppress_wakes w a c r
    rw [InFlight, hc, ht]
    exact h
  · exact inFlight_dispatch w a c isRetry

theorem dispatchWakeForFiring_onFire (w : ActiveWatch ρ) (c : JsString) (isRetry : Bool) :
    (dispatchWakeForFiring w c isRetry).record.onFire = w.record.onFire := by
  rcases dispatchWakeForFiring_cases w c isRetry with ⟨-, hd⟩ | ⟨a, -, ⟨r, -, hd⟩ | ⟨-, hd⟩⟩ <;> rw [hd]
  · exact (suppress_wakes w a c r).2.2
  · rfl

/-! ## Firings -/

theorem sound_addFiring (h : Sound specs w) {k : ℕ} {cond : WatchConditionState}
    (hk : w.record.conditions[k]? = some cond) (input : FiringInput) : Sound specs (addFiring w k cond input) := by
  refine h.frame ⟨rfl, rfl, ?_, rfl, rfl, rfl, rfl, rfl, saved_old rfl rfl⟩ rfl rfl rfl
  change (w.record.conditions.set k (markFired cond input.firedAt)).map (·.spec) = _
  obtain ⟨hlt, rfl⟩ := List.getElem?_eq_some_iff.mp hk
  have hlt' : k < (w.record.conditions.map (·.spec)).length := by simpa using hlt
  have hspec : (markFired w.record.conditions[k] input.firedAt).spec = (w.record.conditions.map (·.spec))[k] := by
    simp [markFired]
  rw [map_set, hspec, set_getElem_self]

theorem sound_recordFiring (h : Sound specs w) (k : ℕ) (input : FiringInput) (b : Option ℕ) :
    Sound specs (recordFiring w k input b).1 := by
  rcases recordFiring_cases w k input b with ⟨-, hr⟩ | ⟨cond, hk, -, hr⟩ <;> rw [hr]
  · exact h
  have hadd := sound_addFiring h hk input
  rcases wakeForFiring_cases (addFiring w k cond input) cond.id b with ⟨-, hw⟩ | ⟨a, -, -, hw⟩ | ⟨-, -, hw⟩ <;> rw [hw]
  · exact hadd
  · exact sound_persistLive (sound_suppressed hadd rfl)
  · exact sound_dispatchWakeForFiring hadd cond.id false

theorem recordFiring_onFire (w : ActiveWatch ρ) (k : ℕ) (input : FiringInput) (b : Option ℕ) :
    (recordFiring w k input b).1.record.onFire = w.record.onFire := by
  rcases recordFiring_cases w k input b with ⟨-, hr⟩ | ⟨cond, -, -, hr⟩ <;> rw [hr]
  rcases wakeForFiring_cases (addFiring w k cond input) cond.id b with ⟨-, hw⟩ | ⟨a, -, -, hw⟩ | ⟨-, -, hw⟩ <;> rw [hw]
  · rfl
  · rfl
  · exact dispatchWakeForFiring_onFire _ _ _

/-- A firing with a wake of its own leaves a watch with an action progressing. -/
theorem progresses_recordFiring (h : Sound specs w) (ho : w.record.onFire.isSome = true)
    (hp : Progresses w) (k : ℕ) (input : FiringInput) {b : Option ℕ} (hb : b ≠ some 0) :
    Progresses (recordFiring w k input b).1 := by
  rcases recordFiring_cases w k input b with ⟨-, hr⟩ | ⟨cond, hk, -, hr⟩ <;> rw [hr]
  · exact hp
  rcases wakeForFiring_cases (addFiring w k cond input) cond.id b with ⟨hn, -⟩ | ⟨a, -, hz, -⟩ | ⟨hs, -, hw⟩
  · rw [show (addFiring w k cond input).record.onFire = w.record.onFire from rfl] at hn
    rw [hn] at ho
    cases ho
  · exact absurd hz hb
  · rw [hw]
    exact progresses_dispatchWakeForFiring (sound_addFiring h hk input) hs cond.id false

theorem inFlight_recordFiring (h : InFlight w) (k : ℕ) (input : FiringInput) (b : Option ℕ) :
    InFlight (recordFiring w k input b).1 := by
  rcases recordFiring_cases w k input b with ⟨-, hr⟩ | ⟨cond, -, -, hr⟩ <;> rw [hr]
  · exact h
  rcases wakeForFiring_cases (addFiring w k cond input) cond.id b with ⟨-, hw⟩ | ⟨a, -, -, hw⟩ | ⟨-, -, hw⟩ <;> rw [hw]
  · exact h
  · exact h
  · exact inFlight_dispatchWakeForFiring (w := addFiring w k cond input) h cond.id false

/-- A firing that is not recorded changes nothing. -/
theorem recordFiring_idle {k : ℕ} {input : FiringInput} {b : Option ℕ}
    (h : (recordFiring w k input b).2.2 = false) : recordFiring w k input b = (w, b, false) := by
  rcases recordFiring_cases w k input b with ⟨-, hr⟩ | ⟨cond, -, -, hr⟩
  · exact hr
  · rw [hr] at h
    cases h

def touched (w : ActiveWatch ρ) : ActiveWatch ρ := { w with record := { w.record with updatedAt := w.clock } }

theorem finishFirings_true (w : ActiveWatch ρ) : finishFirings w true =
    persistLive (if w.record.onFire.isNone && allOneShotConditionsFired w.record then completeWatch (touched w) else touched w) :=
  rfl

theorem sound_touched (h : Sound specs w) : Sound specs (touched w) :=
  h.frame ⟨rfl, rfl, rfl, rfl, rfl, rfl, rfl, rfl, saved_old rfl rfl⟩ rfl rfl rfl

theorem sound_finishFirings (h : Sound specs w) (f : Bool) : Sound specs (finishFirings w f) := by
  cases f
  · exact (sound_touched h).frame ⟨rfl, rfl, rfl, rfl, rfl, rfl, rfl, rfl, saved_old rfl rfl⟩ rfl rfl rfl
  · rw [finishFirings_true]
    split_ifs
    · exact sound_persistLive (sound_completeWatch (sound_touched h))
    · exact sound_persistLive (sound_touched h)

/-- A pure observer completes here. -/
theorem progresses_finishFirings (h : Sound specs w) {f : Bool}
    (hp : w.record.onFire.isSome = true ∨ f = false → Progresses w) : Progresses (finishFirings w f) := by
  cases f
  · exact hp (.inr rfl)
  · rw [finishFirings_true]
    split_ifs with hc
    · exact progresses_completeWatch (sound_touched h)
    · by_cases ho : w.record.onFire.isSome = true
      · exact hp (.inl ho)
      · intro _ hfired
        refine absurd ?_ hc
        rw [Bool.not_eq_true, Option.isSome_eq_false_iff] at ho
        rw [ho, Bool.true_and]
        exact hfired

/-! ## Events -/

section

variable {t : JsNumber}

theorem sound_recordMatches : ∀ (ms : List ConditionMatch) {w : ActiveWatch ρ} (b : Option ℕ) (f : Bool),
    Sound specs w → Sound specs (recordMatches t ms w b f).1
  | [], _, _, _, h => h
  | m :: ms, w, b, f, h => by
    rw [recordMatches]
    split
    · exact sound_recordMatches ms b f h
    next k _ =>
      split
      · exact h
      · exact sound_recordMatches ms _ _ (sound_recordFiring h k _ b)

theorem recordMatches_onFire : ∀ (ms : List ConditionMatch) (w : ActiveWatch ρ) (b : Option ℕ) (f : Bool),
    (recordMatches t ms w b f).1.record.onFire = w.record.onFire
  | [], _, _, _ => rfl
  | m :: ms, w, b, f => by
    rw [recordMatches]
    split
    · exact recordMatches_onFire ms w b f
    next k _ =>
      split
      · rfl
      · exact (recordMatches_onFire ms _ _ _).trans (recordFiring_onFire w k _ b)

/-- Matches that record nothing change nothing. -/
theorem recordMatches_idle : ∀ (ms : List ConditionMatch) {w : ActiveWatch ρ} {b : Option ℕ} {f : Bool},
    (recordMatches t ms w b f).2.2 = false → f = false ∧ (recordMatches t ms w b f).1 = w
  | [], _, _, _, h => ⟨h, rfl⟩
  | m :: ms, w, b, f, h => by
    cases hk : find w.record m.conditionId with
    | none =>
      simp only [recordMatches, hk] at h ⊢
      exact recordMatches_idle ms h
    | some k =>
      by_cases hfull : DEFAULT_MAX_TOTAL ≤ w.record.firings.length
      · simp only [recordMatches, hk, hfull, if_true] at h ⊢
        exact ⟨h, trivial⟩
      · simp only [recordMatches, hk, hfull, if_false] at h ⊢
        obtain ⟨hor, heq⟩ := recordMatches_idle ms h
        rw [Bool.or_eq_false_iff] at hor
        rw [heq, recordFiring_idle hor.2]
        exact ⟨hor.1, rfl⟩

theorem inFlight_recordMatches : ∀ (ms : List ConditionMatch) {w : ActiveWatch ρ} (b : Option ℕ) (f : Bool),
    InFlight w → InFlight (recordMatches t ms w b f).1
  | [], _, _, _, h => h
  | m :: ms, w, b, f, h => by
    rw [recordMatches]
    split
    · exact inFlight_recordMatches ms b f h
    next k _ =>
      split
      · exact h
      · exact inFlight_recordMatches ms _ _ (inFlight_recordFiring h k _ b)

/-- Every firing has a wake of its own while the budget covers the open matches. -/
theorem progresses_recordMatches : ∀ (ms : List ConditionMatch) {w : ActiveWatch ρ} {b : Option ℕ} (f : Bool),
    Sound specs w → w.record.onFire.isSome = true → Progresses w →
      (∀ n ∈ b, (ms.countP fun m => isOpen w.record m.conditionId) ≤ n) → Progresses (recordMatches t ms w b f).1
  | [], _, _, _, _, _, hp, _ => hp
  | m :: ms, w, b, f, h, ho, hp, hb => by
    have htail : ∀ n ∈ b, (ms.countP fun m => isOpen w.record m.conditionId) ≤ n := fun n hn => by
      have := hb n hn
      rw [countP_cons] at this
      omega
    rw [recordMatches]
    split
    · exact progresses_recordMatches ms f h ho hp htail
    next k hk =>
      split
      · exact hp
      · generalize ({ eventType := m.eventType, evidence := m.evidence, firedAt := t } : FiringInput) = input
        dsimp only
        have hsound := sound_recordFiring h k input b
        have hopen : ∀ n : ConditionMatch, isOpen (recordFiring w k input b).1.record n.conditionId = true →
            isOpen w.record n.conditionId = true := fun n hn => isOpen_recordFiring hn
        have hcount := countP_mono_left (l := ms) fun n _ => hopen n
        have ho' := ho
        rw [← recordFiring_onFire w k input b] at ho'
        rcases recordFiring_cases w k input b with ⟨-, hr⟩ | ⟨cond, hcond, hadm, hr⟩
        · rw [hr]
          exact progresses_recordMatches ms _ h ho hp htail
        · have hthis : isOpen w.record m.conditionId = true := by simp [isOpen, hk, hcond, hadm]
          have hpos : b ≠ some 0 := fun hz => by
            have := hb 0 hz
            rw [countP_cons, if_pos hthis] at this
            omega
          refine progresses_recordMatches ms _ hsound ho' (progresses_recordFiring h ho hp k _ hpos) fun n hn => ?_
          refine hcount.trans ?_
          rw [hr] at hn
          rcases wakeForFiring_cases (addFiring w k cond input) cond.id b with ⟨hnone, -⟩ | ⟨-, -, hz, -⟩ | ⟨-, -, hw⟩
          · rw [show (addFiring w k cond _).record.onFire = w.record.onFire from rfl] at hnone
            rw [hnone] at ho
            cases ho
          · exact absurd hz hpos
          · rw [hw] at hn
            obtain ⟨n', hn', rfl⟩ := Option.map_eq_some_iff.mp hn
            have := hb n' hn'
            rw [countP_cons, if_pos hthis] at this
            omega

/-- The first firing is let through, and its dispatch is in flight from then on. -/
theorem inFlight_of_allowed : ∀ (ms : List ConditionMatch) {w : ActiveWatch ρ} {n : ℕ} (f : Bool)
    {action : WatchOnFireAction}, w.record.onFire = some action → wakeRefusal w action = none →
      (recordMatches t ms w (some (n + 1)) f).1 = w ∨ InFlight (recordMatches t ms w (some (n + 1)) f).1
  | [], _, _, _, _, _, _ => .inl rfl
  | m :: ms, w, n, f, action, ho, hr => by
    rw [recordMatches]
    split
    · exact inFlight_of_allowed ms f ho hr
    next k hk =>
      split
      · exact .inl rfl
      · generalize ({ eventType := m.eventType, evidence := m.evidence, firedAt := t } : FiringInput) = input
        dsimp only
        rcases recordFiring_cases w k input (some (n + 1)) with ⟨-, hrec⟩ | ⟨cond, -, -, hrec⟩
        · rw [hrec]
          exact inFlight_of_allowed ms _ ho hr
        · refine .inr (inFlight_recordMatches ms _ _ ?_)
          have hwake : (wakeForFiring (addFiring w k cond input) cond.id (some (n + 1))).1 =
              dispatch (addFiring w k cond input) action cond.id false := by
            have ho' : (addFiring w k cond input).record.onFire = some action := ho
            have hr' : wakeRefusal (addFiring w k cond input) action = none := hr
            simp only [wakeForFiring, ho', dispatchWakeForFiring, hr']
          rw [hrec, hwake]
          exact inFlight_dispatch _ _ _ _

end

theorem recordFiring_other (w : ActiveWatch ρ) {j k : ℕ} (h : j ≠ k) (input : FiringInput) (b : Option ℕ) :
    (recordFiring w j input b).1.record.conditions[k]? = w.record.conditions[k]? := by
  rcases recordFiring_cases w j input b with ⟨-, hr⟩ | ⟨cond, -, -, hr⟩ <;> rw [hr]
  rw [(wakeForFiring_frame ..).1]
  exact getElem?_set_ne h

theorem recordMatches_other {t : JsNumber} {k : ℕ} : ∀ (ms : List ConditionMatch) (w : ActiveWatch ρ) (b : Option ℕ) (f : Bool),
    (∀ m ∈ ms, find w.record m.conditionId ≠ some k) → (recordMatches t ms w b f).1.record.conditions[k]? = w.record.conditions[k]?
  | [], _, _, _, _ => rfl
  | m :: ms, w, b, f, h => by
    have htail : ∀ n ∈ ms, find w.record n.conditionId ≠ some k := fun n hn => h n (mem_cons_of_mem _ hn)
    rw [recordMatches]
    split
    · exact recordMatches_other ms w b f htail
    next j hj =>
      split
      · rfl
      · have hne : j ≠ k := fun hjk => h m mem_cons_self (hjk ▸ hj)
        refine (recordMatches_other ms _ _ _ fun n hn => ?_).trans (recordFiring_other w hne _ b)
        exact fun hf => htail n hn ((find_kept (kept_recordFiring w j _ b) _).symm.trans hf)

/-- A condition of the list stays unfired, or can never end it, whatever the event fires. -/
def Unfinished (w : ActiveWatch ρ) (e : NormalizedEvent) : Prop :=
  ∃ k cond, w.record.conditions[k]? = some cond ∧ oneShotFired cond = false ∧
    (cond.spec.once = some false ∨ ∀ m ∈ eventMatches R w e, find w.record m.conditionId ≠ some k)

theorem not_allFired {r : PersistedWatch} {k : ℕ} {cond : WatchConditionState} (hk : r.conditions[k]? = some cond)
    (h : oneShotFired cond = false) : allOneShotConditionsFired r = false := by
  by_contra hall
  simp only [allOneShotConditionsFired, Bool.not_eq_false, Bool.and_eq_true, all_eq_true] at hall
  rw [hall.2 cond (mem_of_getElem? hk)] at h
  cases h

theorem not_allFired_of_unfinished {e : NormalizedEvent} (h : Unfinished R w e) (t : JsNumber)
    (b : Option ℕ) (f : Bool) :
    allOneShotConditionsFired (recordMatches t (eventMatches R w e) (observed R w e) b f).1.record = false := by
  obtain ⟨k, cond, hk, hnot, honce | hother⟩ := h
  · have hkept := kept_recordMatches (observed R w e) t (eventMatches R w e) b f
    obtain ⟨c', hc', hsame⟩ := hkept.2.2 k cond hk
    exact not_allFired hc' (by simp [oneShotFired, hsame.spec_eq, honce])
  · have hsame := recordMatches_other (t := t) (eventMatches R w e) (observed R w e) b f hother
    exact not_allFired (hsame.trans hk) hnot

/-- A reconciliation event with this budget does not finish the list by a firing without a
    wake, unless a wake is in flight. -/
def Covered (budget : ℕ) (w : ActiveWatch ρ) (e : NormalizedEvent) : Prop :=
  w.record.onFire = none ∨ InFlight w ∨
    (0 < budget ∧ ∀ action, w.record.onFire = some action → wakeRefusal w action = none) ∨
    ((eventMatches R w e).countP fun m => isOpen w.record m.conditionId) ≤ budget ∨ Unfinished R w e

section

variable {w : ActiveWatch ρ} (h : Sound specs w)
include h

theorem sound_observed (e : NormalizedEvent) : Sound specs (observed R w e) :=
  h.frame ⟨rfl, rfl, rfl, rfl, rfl, rfl, rfl, rfl, saved_old rfl rfl⟩ rfl rfl rfl

theorem sound_handleEvent (e : NormalizedEvent) (b : Option ℕ) : Sound specs (handleEvent R w e b).1 := by
  rw [handleEvent]
  split_ifs
  · exact h
  · exact sound_finishFirings (sound_recordMatches _ b false (sound_observed R h e)) _

theorem progresses_handleEvent (hp : Progresses w) (e : NormalizedEvent)
    (b : Option ℕ) (hb : ∀ n ∈ b, Covered R n w e) : Progresses (handleEvent R w e b).1 := by
  rw [handleEvent]
  split_ifs
  · exact hp
  have hobs := sound_observed R h e
  have hpobs : Progresses (observed R w e) := hp
  refine progresses_finishFirings (sound_recordMatches _ b false hobs) fun hor => ?_
  rcases hor with ho | hidle
  swap
  · rw [(recordMatches_idle _ hidle).2]
    exact hpobs
  rw [recordMatches_onFire] at ho
  cases b with
  | none => exact progresses_recordMatches _ false hobs ho hpobs (by simp)
  | some n =>
    rcases hb n rfl with hnone | hflight | ⟨hpos, hallowed⟩ | hcount | hunfinished
    · rw [show (observed R w e).record.onFire = w.record.onFire from rfl, hnone] at ho
      cases ho
    · exact fun _ _ => inFlight_recordMatches _ _ _ hflight
    · obtain ⟨action, haction⟩ := Option.isSome_iff_exists.mp ho
      obtain ⟨n, rfl⟩ := Nat.exists_eq_succ_of_ne_zero hpos.ne'
      have hr : wakeRefusal (observed R w e) action = none := hallowed action haction
      rcases inFlight_of_allowed (t := e.timestamp) (eventMatches R w e) (n := n) false haction hr with heq | hflight
      · rw [heq]
        exact hpobs
      · exact fun _ _ => hflight
    · exact progresses_recordMatches _ false hobs ho hpobs fun m hm => Option.some.inj hm ▸ hcount
    · intro _ hfired
      rw [not_allFired_of_unfinished R hunfinished] at hfired
      cases hfired

theorem sound_fireAlone (k : ℕ) (input : FiringInput) : Sound specs (fireAlone w k input) := by
  rw [fireAlone]
  dsimp only
  split_ifs
  · exact sound_finishFirings (sound_recordFiring h k input none) _
  · exact sound_recordFiring h k input none

theorem progresses_fireAlone (hp : Progresses w) (k : ℕ) (input : FiringInput) : Progresses (fireAlone w k input) := by
  rw [fireAlone]
  dsimp only
  split_ifs with hrec
  · refine progresses_finishFirings (sound_recordFiring h k input none) fun hor => ?_
    rcases hor with ho | hf
    · rw [recordFiring_onFire] at ho
      exact progresses_recordFiring h ho hp k input (by simp)
    · cases hf
  · rw [recordFiring_idle (by simpa using hrec)]
    exact hp

end

theorem sound_recordSettled : ∀ (ks : List ℕ) {w : ActiveWatch ρ} (f : Bool),
    Sound specs w → Sound specs (recordSettled evidence ks w f).1
  | [], _, _, h => h
  | k :: ks, w, f, h => by
    rw [recordSettled]
    split
    · exact sound_recordSettled ks f h
    · split
      · exact sound_recordSettled ks f h
      · exact sound_recordSettled ks _ (sound_recordFiring h k _ none)

theorem recordSettled_onFire : ∀ (ks : List ℕ) (w : ActiveWatch ρ) (f : Bool),
    (recordSettled evidence ks w f).1.record.onFire = w.record.onFire
  | [], _, _ => rfl
  | k :: ks, w, f => by
    rw [recordSettled]
    split
    · exact recordSettled_onFire ks w f
    · split
      · exact recordSettled_onFire ks w f
      · exact (recordSettled_onFire ks _ _).trans (recordFiring_onFire w k _ none)

theorem progresses_recordSettled : ∀ (ks : List ℕ) {w : ActiveWatch ρ} (f : Bool),
    Sound specs w → w.record.onFire.isSome = true → Progresses w → Progresses (recordSettled evidence ks w f).1
  | [], _, _, _, _, hp => hp
  | k :: ks, w, f, h, ho, hp => by
    rw [recordSettled]
    split
    · exact progresses_recordSettled ks f h ho hp
    · split
      · exact progresses_recordSettled ks f h ho hp
      · exact progresses_recordSettled ks _ (sound_recordFiring h k _ none)
          ((congrArg Option.isSome (recordFiring_onFire w k _ none)).trans ho)
          (progresses_recordFiring h ho hp k _ (by simp))

theorem recordSettled_idle : ∀ (ks : List ℕ) {w : ActiveWatch ρ} {f : Bool},
    (recordSettled evidence ks w f).2 = false → f = false ∧ (recordSettled evidence ks w f).1 = w
  | [], _, _, h => ⟨h, rfl⟩
  | k :: ks, w, f, h => by
    cases hk : w.record.conditions[k]? with
    | none =>
      simp only [recordSettled, hk] at h ⊢
      exact recordSettled_idle ks h
    | some cond =>
      by_cases hs : settles cond = true
      · simp only [recordSettled, hk, hs, Bool.not_true, Bool.false_eq_true, if_false] at h ⊢
        obtain ⟨hor, heq⟩ := recordSettled_idle ks h
        rw [Bool.or_eq_false_iff] at hor
        rw [heq, recordFiring_idle hor.2]
        exact ⟨hor.1, rfl⟩
      · simp only [recordSettled, hk, hs, Bool.not_false, if_true] at h ⊢
        exact recordSettled_idle ks h

theorem sound_applyFireIfSettled (h : Sound specs w) (note : JsString) :
    Sound specs (applyFireIfSettled w note) := by
  rw [applyFireIfSettled]
  dsimp only
  split_ifs
  · exact h
  · exact sound_finishFirings (sound_recordSettled _ _ h) _
  · exact sound_recordSettled _ _ h

theorem progresses_applyFireIfSettled (h : Sound specs w) (hp : Progresses w) (note : JsString) :
    Progresses (applyFireIfSettled w note) := by
  rw [applyFireIfSettled]
  dsimp only
  split_ifs with hs hfired
  · exact hp
  · refine progresses_finishFirings (sound_recordSettled _ _ h) fun hor => ?_
    rcases hor with ho | hf
    · rw [recordSettled_onFire] at ho
      exact progresses_recordSettled _ _ h ho hp
    · cases hf
  · rw [(recordSettled_idle _ (by simpa using hfired)).2]
    exact hp

/-! ## Outcomes, retries, releases and writes -/

theorem sound_settled (h : Sound specs w) {task : WakeTask} {rest : List WakeTask}
    (hchain : w.wakeChain = task :: rest) (r : WatchWakeDispatchResult) : Sound specs (settled w task.attempt r rest) := by
  refine h.same ⟨rfl, rfl, rfl, rfl, rfl, rfl, rfl, rfl, saved_old rfl rfl⟩ (fun a ha hpending => ?_) fun ho => ?_
  · obtain ⟨b, hb, rfl⟩ := mem_map.mp ha
    change _ ∈ rest.map (·.attempt)
    split_ifs at hpending ⊢ with href
    · rcases settle_status r w.clock b with hs | hs <;> rw [hs] at hpending <;> cases hpending
    · have hmem := h.inChain b hb hpending
      rw [hchain, map_cons, mem_cons] at hmem
      exact hmem.resolve_left href
  · exact absurd (.inl (by simp [hchain])) (h.idle ho)

/-- The outcome is recorded, and then a retry is armed or the watch completes if it can. -/
theorem wakeResult_split (w : ActiveWatch ρ) (r : WatchWakeDispatchResult) : wakeResult w r = w ∨
    ∃ task rest v, w.wakeChain = task :: rest ∧ SameLife (settled w task.attempt r rest) v ∧
      v.record = (settled w task.attempt r rest).record ∧ v.wakeChain = rest ∧ v.wakeRetryTimers = w.wakeRetryTimers ∧
      (wakeResult w r = { v with wakeRetryTimers := v.wakeRetryTimers ++ [task.conditionId] } ∨
        (allOneShotConditionsFired v.record = true ∧ wakeResult w r = completeWatch v) ∨
        (allOneShotConditionsFired v.record = false ∧ wakeResult w r = v)) := by
  cases hchain : w.wakeChain with
  | nil => exact .inl (by simp [wakeResult, hchain])
  | cons task rest =>
    by_cases hcalled : task.called = true
    swap
    · exact .inl (by simp [wakeResult, hchain, hcalled])
    refine .inr ⟨task, rest, { persistLive (updateAttempt w task.attempt (settle r w.clock)) with
      wakeChain := rest, pendingSteerTargets := steerDone (persistLive (updateAttempt w task.attempt (settle r w.clock))) },
      rfl, ⟨rfl, rfl, rfl, rfl, rfl, rfl, rfl, rfl, fun p hp => ?_⟩, rfl, rfl, rfl, ?_⟩
    · simp only [persistLive, mem_cons, mem_append, not_mem_nil, or_false] at hp
      rcases hp with hp | hp | hp
      · exact .inl (by simp [settled, updateAttempt, hp])
      · exact .inl (mem_cons_of_mem _ (mem_cons_of_mem _ hp))
      · exact .inr hp
    · simp only [wakeResult, hchain, hcalled, Bool.not_true, Bool.false_eq_true, if_false]
      split_ifs with hretry hfired
      · exact .inl rfl
      · exact .inr (.inl ⟨hfired, rfl⟩)
      · exact .inr (.inr ⟨by simpa using hfired, rfl⟩)

section

variable {w : ActiveWatch ρ}

theorem wakeResult_progress (h : Sound specs w) (hp : Progresses w) (r : WatchWakeDispatchResult) :
    Sound specs (wakeResult w r) ∧ Progresses (wakeResult w r) := by
  rcases wakeResult_split w r with hr | ⟨task, rest, v, hchain, hsame, hrecord, hrest, htimers, hr⟩
  · rw [hr]
    exact ⟨h, hp⟩
  have hv : Sound specs v := (sound_settled h hchain r).frame hsame (by rw [hrecord]) (by rw [hrest]; rfl) htimers
  rcases hr with hr | ⟨-, hr⟩ | ⟨hfired, hr⟩ <;> rw [hr]
  · refine ⟨hv.same ⟨rfl, rfl, rfl, rfl, rfl, rfl, rfl, rfl, saved_old rfl rfl⟩ hv.inChain fun ho => ?_,
      fun _ _ => .inr (by simp)⟩
    have hnone : w.record.onFire = none := (hsame.onFire_eq.symm.trans ho :)
    exact absurd (.inl (by simp [hchain])) (h.idle hnone)
  · exact ⟨sound_completeWatch hv, progresses_completeWatch hv⟩
  · refine ⟨hv, fun _ hf => ?_⟩
    rw [hfired] at hf
    cases hf

theorem retryWake_progress (h : Sound specs w) (hp : Progresses w) (i : ℕ) :
    Sound specs (retryWake w i) ∧ Progresses (retryWake w i) := by
  rw [retryWake]
  split
  · exact ⟨h, hp⟩
  next c hc =>
    have hsome : w.record.onFire.isSome = true := by
      by_contra hnone
      rw [Bool.not_eq_true, Option.isSome_eq_false_iff, Option.isNone_iff_eq_none] at hnone
      refine h.idle hnone (.inr fun hnil => ?_)
      rw [hnil] at hc
      cases hc
    have hdrop : Sound specs (dropRetry w i) := by
      refine h.same ⟨rfl, rfl, rfl, rfl, rfl, rfl, rfl, rfl, saved_old rfl rfl⟩ h.inChain fun ho => ?_
      rw [show (dropRetry w i).record.onFire = w.record.onFire from rfl] at ho
      rw [ho] at hsome
      cases hsome
    exact ⟨sound_dispatchWakeForFiring hdrop c true, progresses_dispatchWakeForFiring hdrop hsome c true⟩

/-- A release call that is granted gives the claim up. -/
theorem sound_unpin (h : Sound specs w) : Sound specs (unpin w true) := by
  have hrecord := h.payload w.record (by simp)
  have hsaved : ∀ p ∈ w.disk :: w.saves, Payload specs p := fun p hp => h.payload p (mem_cons_of_mem _ hp)
  rw [unpin]
  split
  · exact h
  · exact h
  next hr =>
    have hpayload : ∀ p ∈ { w.record with pinned := false } :: w.disk :: w.saves, Payload specs p := fun p hp => by
      rcases mem_cons.mp hp with rfl | hp
      · exact ⟨hrecord.specs_eq, hrecord.live⟩
      · exact hsaved p hp
    split_ifs with hpinned
    · exact ⟨hpayload, h.inChain, h.idle, (fun h => by cases h), h.target, (fun _ h => by cases h), fun _ => rfl,
        (fun h => by cases h)⟩
    · refine ⟨h.payload, h.inChain, h.idle, h.subject, h.target, (fun _ h => by cases h), fun _ => ?_,
        (fun h => by cases h)⟩
      by_contra hclaim
      exact hpinned (by simpa using h.subject (by simpa using hclaim))
  next hr =>
    have hsubject := h.subjectReleased (.inl hr)
    have hsaves : ∀ r : PersistedWatch, Payload specs r → ∀ p ∈ r :: w.disk :: (w.saves ++ [r]), Payload specs p := by
      intro r hr p hp
      simp only [mem_cons, mem_append, not_mem_nil, or_false] at hp
      rcases hp with rfl | hp | hp | rfl
      · exact hr
      · exact hsaved p (mem_cons.mpr (.inl hp))
      · exact hsaved p (mem_cons.mpr (.inr hp))
      · exact hr
    dsimp only
    split_ifs with hpinned
    · exact ⟨hsaves _ ⟨hrecord.specs_eq, hrecord.live⟩, h.inChain, h.idle, h.subject, (fun h => by cases h),
        (fun _ h => by cases h), fun _ => hsubject, fun _ => rfl⟩
    · refine ⟨hsaves _ hrecord, h.inChain, h.idle, h.subject, h.target, (fun _ h => by cases h), fun _ => hsubject,
        fun _ => ?_⟩
      by_contra hclaim
      have htarget := h.target (by simpa using hclaim)
      exact hpinned (by simp [htarget.1, htarget.2])

/-- The two release calls leave no claim. -/
theorem released_unpin (h : Sound specs w) (hdone : w.record.status = .done) :
    (unpin (unpin w true) true).subjectClaim = false ∧ (unpin (unpin w true) true).targetClaim = false := by
  have htwice := sound_unpin (sound_unpin h)
  cases hr : w.release with
  | idle =>
    have hid : unpin w true = w := by simp [unpin, hr]
    rw [hid, hid]
    exact h.toRelease hdone hr
  | released =>
    have hid : unpin w true = w := by simp [unpin, hr]
    rw [hid, hid]
    exact ⟨h.subjectReleased (.inr hr), h.targetReleased hr⟩
  | subject =>
    have hfirst : (unpin w true).release = .target := by
      simp only [unpin, hr]
      split_ifs <;> rfl
    have hlast : (unpin (unpin w true) true).release = .released := by simp only [unpin.eq_1 (unpin w true), hfirst]
    exact ⟨htwice.subjectReleased (.inr hlast), htwice.targetReleased hlast⟩
  | target =>
    have hfirst : (unpin w true).release = .released := by simp only [unpin, hr]
    have hid : unpin (unpin w true) true = unpin w true := by simp only [unpin.eq_1 (unpin w true), hfirst]
    rw [hid]
    exact ⟨(sound_unpin h).subjectReleased (.inr hfirst), (sound_unpin h).targetReleased hfirst⟩

theorem progresses_unpin (h : Progresses w) (ok : Bool) : Progresses (unpin w ok) := by
  rw [unpin]
  split
  · exact h
  · exact h
  · split_ifs <;> exact h
  · dsimp only
    split_ifs <;> exact h

theorem sound_write (h : Sound specs w) (ok : Bool) : Sound specs (write w ok) := by
  rw [write]
  split
  · exact h
  next payload rest hsaves =>
    have hmem : ∀ p ∈ payload :: rest, p ∈ w.record :: w.disk :: w.saves := fun p hp => by simp [hsaves, hp]
    split_ifs
    · refine h.frame ⟨rfl, rfl, rfl, rfl, rfl, rfl, rfl, rfl, fun p hp => .inl (hmem p hp)⟩ rfl rfl rfl
    · refine h.frame ⟨rfl, rfl, rfl, rfl, rfl, rfl, rfl, rfl, fun p hp => .inl ?_⟩ rfl rfl rfl
      rcases mem_cons.mp hp with rfl | hp
      · simp
      · exact hmem p (mem_cons_of_mem _ hp)

theorem progresses_write (h : Progresses w) (ok : Bool) : Progresses (write w ok) := by
  rw [write]
  split
  · exact h
  · split_ifs <;> exact h

end

/-! ## Lives -/

/-- A ledger from which `init` recovers the watch. -/
structure Recoverable (r : PersistedWatch) : Prop where
  settled : ∀ a ∈ r.wakeAttempts, a.status ≠ .pending
  observer : r.status = .active → allOneShotConditionsFired r = true → r.onFire = none

/-- The step loses no completion. -/
def Recovers (w : ActiveWatch ρ) : LifeStep → Prop
  | .step (_, .unpin ok) => ok = true
  | .step (d, .reconcileRestart e) => Covered R 1 (tick w d) e
  | .step (d, .reconcileGoalEnd e) => Covered R w.restartBudget (tick w d) e
  | .step (d, .neverStarted e) => Covered R 1 (tick w d) e
  | .step _ => True
  | .restart _ _ => Recoverable w.disk

theorem sound_tick (h : Sound specs w) (d : ℕ) : Sound specs (tick w d) :=
  h.frame ⟨rfl, rfl, rfl, rfl, rfl, rfl, rfl, rfl, saved_old rfl rfl⟩ rfl rfl rfl

theorem recovers_act (h : Sound specs w) (hp : Progresses w) {d : ℕ} {s : Step}
    (hs : Recovers R w (.step (d, s))) : Sound specs (act R (tick w d) s) ∧ Progresses (act R (tick w d) s) := by
  have ht := sound_tick h d
  have hpt : Progresses (tick w d) := hp
  generalize hv : tick w d = v at *
  cases s with
  | event e => exact ⟨sound_handleEvent R ht e none, progresses_handleEvent R ht hpt e none (by simp)⟩
  | reconcileRestart e =>
    have hcov : Covered R 1 v e := hv ▸ hs
    have hsound := sound_handleEvent R ht e (some 1)
    have hprog := progresses_handleEvent R ht hpt e (some 1) fun n hn => Option.some.inj hn ▸ hcov
    exact ⟨hsound.frame ⟨rfl, rfl, rfl, rfl, rfl, rfl, rfl, rfl, saved_old rfl rfl⟩ rfl rfl rfl, hprog⟩
  | reconcileGoalEnd e =>
    have hcov : Covered R v.restartBudget v e := by
      rw [← hv]
      exact hs
    have hsound := sound_handleEvent R ht e (some v.restartBudget)
    have hprog := progresses_handleEvent R ht hpt e (some v.restartBudget) fun n hn => Option.some.inj hn ▸ hcov
    exact ⟨hsound.frame ⟨rfl, rfl, rfl, rfl, rfl, rfl, rfl, rfl, saved_old rfl rfl⟩ rfl rfl rfl, hprog⟩
  | neverStarted e =>
    have hcov : Covered R 1 v e := hv ▸ hs
    exact ⟨sound_handleEvent R ht e (some 1), progresses_handleEvent R ht hpt e (some 1) fun n hn => Option.some.inj hn ▸ hcov⟩
  | fireIfSettled note => exact ⟨sound_applyFireIfSettled ht note, progresses_applyFireIfSettled ht hpt note⟩
  | deadline i =>
    simp only [act]
    split
    · exact ⟨ht, hpt⟩
    next timer _ =>
      have hdrop : Sound specs (dropDeadline v i) :=
        ht.frame ⟨rfl, rfl, rfl, rfl, rfl, rfl, rfl, rfl, saved_old rfl rfl⟩ rfl rfl rfl
      have hpdrop : Progresses (dropDeadline v i) := hpt
      rcases fireDeadline_cases (dropDeadline v i) timer with hd | hd | ⟨k, cond, due, -, -, -, -, -, -, hd⟩ <;> rw [hd]
      · exact ⟨hdrop, hpdrop⟩
      · exact ⟨hdrop.frame ⟨rfl, rfl, rfl, rfl, rfl, rfl, rfl, rfl, saved_old rfl rfl⟩ rfl rfl rfl, hpdrop⟩
      · exact ⟨sound_fireAlone hdrop k _, progresses_fireAlone hdrop hpdrop k _⟩
  | callWake =>
    simp only [act, callWake]
    split
    · exact ⟨ht, hpt⟩
    next task rest hchain =>
      refine ⟨ht.frame ⟨rfl, rfl, rfl, rfl, rfl, rfl, rfl, rfl, saved_old rfl rfl⟩ rfl (by simp [hchain]) rfl, ?_⟩
      exact fun _ _ => .inl (by simp)
  | wakeResult r => exact wakeResult_progress ht hpt r
  | retryWake i => exact retryWake_progress ht hpt i
  | unpin ok =>
    have hok : ok = true := hs
    subst hok
    exact ⟨sound_unpin ht, progresses_unpin hpt true⟩
  | write ok => exact ⟨sound_write ht ok, progresses_write hpt ok⟩
  | flush =>
    simp only [act, flush]
    split_ifs
    · exact ⟨sound_persistLive ht, hpt⟩
    · exact ⟨ht, hpt⟩
  | steer t busy =>
    exact ⟨ht.frame ⟨rfl, rfl, rfl, rfl, rfl, rfl, rfl, rfl, saved_old rfl rfl⟩ rfl rfl rfl, hpt⟩

/-- The live watch that `init` makes of an active ledger. -/
def rehydrated (w : ActiveWatch ρ) (resolved : List (ResolvedCondition ρ)) (subjectOk targetOk : Bool) : ActiveWatch ρ :=
  { resolved, record := { w.disk with pinned := w.disk.pinned && subjectOk }, disk := w.disk
    subjectClaim := w.disk.pinned && subjectOk, clock := w.clock
    targetClaim := w.disk.targetPinned && w.disk.onFire.isSome && targetOk
    deadlineTimers := armDeadlines { w.disk with pinned := w.disk.pinned && subjectOk } fun due => due ≤ w.clock
    nextRef := w.nextRef, calls := w.calls }

theorem boot_cases {resolved : List (ResolvedCondition ρ)} {c : ResolvedCondition ρ}
    (h : resolveConditions R (w.disk.conditions.map (·.spec)) = .ok (c :: resolved)) (subjectOk targetOk : Bool) :
    (w.disk.status ≠ .active ∧ boot R w subjectOk targetOk = unattached w w.disk) ∨
      (w.disk.status = .active ∧ boot R w subjectOk targetOk =
        if w.disk.onFire.isNone && allOneShotConditionsFired w.disk then
          completeWatch (rehydrated w (c :: resolved) subjectOk targetOk)
        else rehydrated w (c :: resolved) subjectOk targetOk) := by
  by_cases hs : w.disk.status = .active
  · refine .inr ⟨hs, ?_⟩
    rw [boot]
    dsimp only
    rw [if_neg (not_not.mpr hs), h]
    rfl
  · refine .inl ⟨hs, ?_⟩
    rw [boot]
    dsimp only
    rw [if_pos hs]

theorem boot_progress (h : Sound specs w) (hr : Recoverable w.disk) {resolved : List (ResolvedCondition ρ)}
    (hres : resolveConditions R specs = .ok resolved) (hne : resolved ≠ []) (subjectOk targetOk : Bool) :
    Sound specs (boot R w subjectOk targetOk) ∧ Progresses (boot R w subjectOk targetOk) := by
  have hdisk := h.payload w.disk (by simp)
  obtain ⟨c, rest, rfl⟩ := exists_cons_of_ne_nil hne
  rw [← hdisk.specs_eq] at hres
  rcases boot_cases R hres subjectOk targetOk with ⟨hs, hb⟩ | ⟨hs, hb⟩ <;> rw [hb]
  · refine ⟨⟨fun p hp => ?_, fun a ha hpending => absurd hpending (hr.settled a ha), fun _ => by simp [InFlight, unattached],
      nofun, nofun, fun _ _ => ⟨rfl, rfl⟩, fun _ => rfl, fun _ => rfl⟩,
      fun hactive => absurd hactive hs⟩
    simp only [unattached, mem_cons, not_mem_nil, or_false, or_self] at hp
    exact hp ▸ hdisk
  · have hsound : Sound specs (rehydrated w (c :: rest) subjectOk targetOk) := by
      refine ⟨fun p hp => ?_, fun a ha hpending => absurd hpending (hr.settled a ha), fun _ => by simp [InFlight, rehydrated],
        id, fun ht => ?_, fun hdone => ?_, fun hrel => (by rcases hrel with hrel | hrel <;> cases hrel),
        nofun⟩
      · simp only [rehydrated, mem_cons, not_mem_nil, or_false] at hp
        rcases hp with rfl | rfl
        · exact ⟨hdisk.specs_eq, hdisk.live⟩
        · exact hdisk
      · simp only [rehydrated, Bool.and_eq_true] at ht
        exact ht.1
      · rw [show (rehydrated w (c :: rest) subjectOk targetOk).record.status = w.disk.status from rfl, hs] at hdone
        cases hdone
    split_ifs with hfinished
    · exact ⟨sound_completeWatch hsound, progresses_completeWatch hsound⟩
    · refine ⟨hsound, fun hactive hfired => absurd ?_ hfinished⟩
      have hfired' : allOneShotConditionsFired w.disk = true := hfired
      simp [hr.observer hs hfired', hfired']

theorem life_progress (h : Sound specs w ∧ Progresses w) {s : LifeStep} (hs : Recovers R w s)
    {resolved : List (ResolvedCondition ρ)} (hres : resolveConditions R specs = .ok resolved) (hne : resolved ≠ []) :
    Sound specs (life R w s) ∧ Progresses (life R w s) := by
  cases s with
  | step s => exact recovers_act R h.1 h.2 hs
  | restart subjectOk targetOk => exact boot_progress R h.1 hs hres hne subjectOk targetOk

/-- Registration claims the target only for an action that asks for it. -/
def targetPinned (onFire : Option WatchOnFireAction) (granted : Bool) : Bool := onFire.any (·.pinTarget) && granted

theorem sound_registered (resolved : List (ResolvedCondition ρ)) (onFire : Option WatchOnFireAction) (pinned granted : Bool)
    (clock : ℕ) : Sound (resolved.map (·.spec)) (registered resolved onFire pinned (targetPinned onFire granted) clock) := by
  have hpayload : Payload (resolved.map (·.spec))
      (registered resolved onFire pinned (targetPinned onFire granted) clock).record :=
    ⟨by simp [registered, conditionState], .inl rfl⟩
  refine ⟨fun p hp => ?_, by simp [registered], fun _ => by simp [InFlight, registered], id, fun ht => ⟨ht, ?_⟩,
    (fun h => by cases h), fun hr => (by rcases hr with hr | hr <;> cases hr), (fun h => by cases h)⟩
  · have hp' : p = (registered resolved onFire pinned (targetPinned onFire granted) clock).record := by
      simpa [registered] using hp
    exact hp' ▸ hpayload
  · cases onFire with
    | none => cases ht
    | some action => rfl

/-- In a life whose steps lose no completion, a pending attempt has its dispatch in flight,
    and a watch whose list has fired with nothing in flight is done; its two release calls
    leave no claim on the subject or the target. -/
theorem recovered_watches_complete {specs : List WatchConditionSpec} {resolved : List (ResolvedCondition ρ)}
    (h : resolveConditions R specs = .ok resolved) (hne : specs ≠ []) (onFire : Option WatchOnFireAction)
    (pinned granted : Bool) (clock : ℕ) (ss : List LifeStep)
    (hss : Run.Along (life R) (Recovers R) (registered resolved onFire pinned (targetPinned onFire granted) clock) ss) :
    let w := ss.foldl (life R) (registered resolved onFire pinned (targetPinned onFire granted) clock)
    (w.wakeChain = [] → ∀ a ∈ w.record.wakeAttempts, a.status ≠ .pending) ∧
      (allOneShotConditionsFired w.record = true → w.wakeChain = [] → w.wakeRetryTimers = [] →
        w.record.status = .done ∧ (unpin (unpin w true) true).subjectClaim = false ∧
          (unpin (unpin w true) true).targetClaim = false) := by
  obtain ⟨again, hagain, hlen⟩ := resolveConditions_again R h
  have hne' : again ≠ [] := by
    rw [← length_pos_iff, hlen, (resolveConditions_get R h).1]
    exact length_pos_iff.mpr hne
  have hstart : Progresses (registered resolved onFire pinned (targetPinned onFire granted) clock) := by
    intro _ hfired
    exfalso
    simp only [allOneShotConditionsFired, registered, Bool.and_eq_true, all_eq_true, mem_map, Bool.not_eq_true',
      isEmpty_eq_false_iff] at hfired
    obtain ⟨c, hc⟩ := exists_mem_of_ne_nil _ hfired.1
    have hnot := hfired.2 c (mem_map.mp hc)
    obtain ⟨r, -, rfl⟩ := mem_map.mp hc
    simp [oneShotFired, conditionState] at hnot
  obtain ⟨hsound, hprog⟩ := Run.invariant (I := fun w => Sound (resolved.map (·.spec)) w ∧ Progresses w)
    (fun w s hw hs => life_progress R hw hs hagain hne') ⟨sound_registered resolved onFire pinned granted clock, hstart⟩ hss
  intro w
  refine ⟨fun hchain a ha hpending => ?_, fun hfired hchain htimers => ?_⟩
  · have hmem := hsound.inChain a ha hpending
    rw [show w.wakeChain = [] from hchain] at hmem
    cases hmem
  · have hdone : w.record.status = .done := by
      refine (hsound.payload w.record mem_cons_self).live.resolve_left fun hactive => ?_
      rcases hprog hactive hfired with hc | ht
      · exact hc hchain
      · exact ht htimers
    exact ⟨hdone, released_unpin hsound hdone⟩

/-- The wake of the only condition is delivered, the claims are released and the ledger is
    written before the crash. -/
theorem crash_after_release : let ss := [.step (1, .event { type := js "agent_end" }), .step (0, .write true), .step (0, .callWake),
      .step (0, .wakeResult (.dispatched none none)), .step (0, .write true), .step (0, .unpin true),
      .step (0, .unpin true), .step (0, .write true), .restart true true]
    let w := ss.foldl (life noPatterns)
      (registered [resolvedAgentEnd (js "c0")] (some oneWake) true (targetPinned (some oneWake) true) 1000)
    (w.wakeChain = [] → ∀ a ∈ w.record.wakeAttempts, a.status ≠ .pending) ∧
      (allOneShotConditionsFired w.record = true → w.wakeChain = [] → w.wakeRetryTimers = [] →
        w.record.status = .done ∧ (unpin (unpin w true) true).subjectClaim = false ∧
          (unpin (unpin w true) true).targetClaim = false) := by
  have hres : resolveConditions noPatterns [agentEnd none] = .ok [resolvedAgentEnd (js "c0")] := by rfl
  refine recovered_watches_complete noPatterns hres (by simp) (some oneWake) true true 1000 _ ?_
  exact ⟨trivial, trivial, trivial, trivial, trivial, rfl, rfl, trivial, ⟨by decide +kernel, by decide +kernel⟩, trivial⟩

/-- The ledger of the firing is on disk when the process crashes: its wake is pending in the
    next process, and the watch stays active with both claims. -/
theorem crash_while_pending : let ss := [.step (1, .event { type := js "agent_end" }), .step (0, .write true), .restart true true]
    let w := ss.foldl (life noPatterns)
      (registered [resolvedAgentEnd (js "c0")] (some oneWake) true (targetPinned (some oneWake) true) 1000)
    w.wakeChain = [] ∧ w.wakeRetryTimers = [] ∧ w.deadlineTimers.length = 0 ∧ allOneShotConditionsFired w.record = true ∧
      ¬ (w.record.status = .done ∧ w.subjectClaim = false ∧ w.targetClaim = false) ∧
      ¬ ∀ a ∈ w.record.wakeAttempts, a.status ≠ .pending := by
  refine ⟨rfl, rfl, ?_, ?_, ?_, ?_⟩ <;> decide +kernel

end PiWebUi.Watch.ActiveWatch
