/-
  PiWebUi.Watch.WakeBudget — how often a watch wakes its target.

  The policy counts over `wakeAttempts`, which holds the last 50 attempts, suppressed ones
  included. `calls` is every attempt that was not suppressed. As long as truncation drops
  suppressed attempts only (`NoLoss`), the two agree, and then (`wakes_within_budget`) at
  most `maxWakeups` attempts end dispatched or failed for good, and decisions are at least
  the cooldown apart. If moreover no wake is decided while an earlier one is pending
  (`NoOverlap`), a decision is at least the cooldown after every earlier outcome.
-/

import PiWebUi.Watch.Routing

namespace PiWebUi.Watch.ActiveWatch

open Lib List

variable {ρ : Type} (R : RegExps ρ)

def counted (a : WatchWakeAttempt) : Bool := a.status ≠ .suppressed

/-! ## The log -/

/-- `p` more attempts fit without dropping one that was not suppressed. -/
def Slack (w : ActiveWatch ρ) (p : ℕ) : Prop :=
  p ≤ MAX_WAKE_ATTEMPTS_RECORDED ∧
    ∀ a ∈ w.record.wakeAttempts.take (w.record.wakeAttempts.length + p - MAX_WAKE_ATTEMPTS_RECORDED), a.status = .suppressed

instance (w : ActiveWatch ρ) (p : ℕ) : Decidable (Slack w p) := by unfold Slack; infer_instance

variable {p : ℕ} {w v : ActiveWatch ρ}

theorem Slack.mono {q : ℕ} (h : Slack w p) (hq : q ≤ p) : Slack w q := by
  refine ⟨hq.trans h.1, fun a ha => h.2 a ?_⟩
  exact ( take_prefix_take_left (by omega)).subset ha

theorem Slack.congr (h : Slack w p) (hv : v.record.wakeAttempts = w.record.wakeAttempts) : Slack v p := by
  rw [Slack, hv]
  exact h

/-- Recording an attempt drops at most one, a suppressed one. -/
theorem push_log {log : List WatchWakeAttempt} (a : WatchWakeAttempt)
    (hlen : log.length ≤ MAX_WAKE_ATTEMPTS_RECORDED) (hp : p + 1 ≤ MAX_WAKE_ATTEMPTS_RECORDED)
    (h : ∀ b ∈ log.take (log.length + (p + 1) - MAX_WAKE_ATTEMPTS_RECORDED), b.status = .suppressed) :
    ∃ dropped kept, log = dropped ++ kept ∧ lastRecorded (log ++ [a]) = kept ++ [a] ∧
      (∀ b ∈ dropped, b.status = .suppressed) ∧ (kept ++ [a]).length ≤ MAX_WAKE_ATTEMPTS_RECORDED ∧
      ∀ b ∈ (kept ++ [a]).take ((kept ++ [a]).length + p - MAX_WAKE_ATTEMPTS_RECORDED), b.status = .suppressed := by
  unfold MAX_WAKE_ATTEMPTS_RECORDED at *
  by_cases hlt : log.length < 50
  · refine ⟨[], log, rfl, ?_, by simp, by simp; omega, ?_⟩
    · simp [lastRecorded, MAX_WAKE_ATTEMPTS_RECORDED, Nat.sub_eq_zero_of_le (show log.length + 1 ≤ 50 by omega)]
    · intro b hb
      rw [take_append_of_le_length (by simp; omega)] at hb
      refine h b ?_
      rw [length_append, length_singleton] at hb
      rwa [show log.length + (p + 1) - 50 = log.length + 1 + p - 50 by omega]
  · cases log with
    | nil => simp at hlt
    | cons d kept =>
      simp only [length_cons] at hlen hlt h
      have hk : kept.length = 49 := by omega
      refine ⟨[d], kept, rfl, ?_, ?_, by simp [hk], ?_⟩
      · simp [lastRecorded, MAX_WAKE_ATTEMPTS_RECORDED, hk]
      · intro b hb
        rw [mem_singleton] at hb
        subst hb
        exact h b (by rw [show kept.length + 1 + (p + 1) - 50 = p + 1 by omega]; simp)
      · intro b hb
        rw [length_append, length_singleton, hk, show 49 + 1 + p - 50 = p by omega,
          take_append_of_le_length (by omega)] at hb
        refine h b ?_
        rw [show kept.length + 1 + (p + 1) - 50 = p + 1 by omega, take_succ_cons]
        exact mem_cons_of_mem _ hb

theorem le_foldl_max : ∀ (ts : List ℕ) (b : ℕ), b ≤ ts.foldl max b ∧ ∀ t ∈ ts, t ≤ ts.foldl max b
  | [], b => ⟨Nat.le_refl _, by simp⟩
  | t :: ts, b => by
    obtain ⟨hb, hts⟩ := le_foldl_max ts (max b t)
    refine ⟨(Nat.le_max_left _ _).trans hb, fun u hu => ?_⟩
    rcases mem_cons.mp hu with rfl | hu
    · exact (Nat.le_max_right _ _).trans hb
    · exact hts u hu

/-! ## The invariant -/

def cooldownMs (action : WatchOnFireAction) : ℕ := action.cooldownSeconds * 1000

structure Budgeted (action : WatchOnFireAction) (w : ActiveWatch ρ) : Prop where
  onFire_eq : w.record.onFire = some action
  savedOnFire : ∀ p ∈ w.disk :: w.saves, p.onFire = some action
  short : w.record.wakeAttempts.length ≤ MAX_WAKE_ATTEMPTS_RECORDED
  recorded : w.record.wakeAttempts.filter counted = w.calls.map (·.attempt)
  within : w.record.wakeAttempts.countP consumesWakeBudget ≤ action.maxWakeups
  refs : ∀ a ∈ w.record.wakeAttempts, a.ref < w.nextRef
  tasks : ∀ r ∈ w.wakeChain.map (·.attempt), r < w.nextRef ∧ ∀ a ∈ w.record.wakeAttempts, a.ref = r → a.status = .pending
  distinct : (w.wakeChain.map (·.attempt)).Nodup
  times : ∀ c ∈ w.calls, 0 < c.decidedAt ∧ c.decidedAt ≤ c.attempt.attemptedAt ∧ c.attempt.attemptedAt ≤ w.clock
  spaced : w.calls.Pairwise fun c d => c.decidedAt + cooldownMs action ≤ d.decidedAt
  started : 0 < w.clock

/-- Nothing the invariant is about differs; new payloads carry the same action. -/
structure SameWakes (w v : ActiveWatch ρ) : Prop where
  onFire_eq : v.record.onFire = w.record.onFire
  log_eq : v.record.wakeAttempts = w.record.wakeAttempts
  calls_eq : v.calls = w.calls
  chain_eq : v.wakeChain.map (·.attempt) = w.wakeChain.map (·.attempt)
  nextRef_eq : v.nextRef = w.nextRef
  clock_eq : v.clock = w.clock
  saved : ∀ p ∈ v.disk :: v.saves, p ∈ w.disk :: w.saves ∨ p.onFire = w.record.onFire

theorem SameWakes.refl (w : ActiveWatch ρ) : SameWakes w w := ⟨rfl, rfl, rfl, rfl, rfl, rfl, fun _ h => .inl h⟩

theorem SameWakes.trans {u : ActiveWatch ρ} (h : SameWakes u v) (k : SameWakes v w) : SameWakes u w := by
  refine ⟨k.onFire_eq.trans h.onFire_eq, k.log_eq.trans h.log_eq, k.calls_eq.trans h.calls_eq, k.chain_eq.trans h.chain_eq,
    k.nextRef_eq.trans h.nextRef_eq, k.clock_eq.trans h.clock_eq, fun p hp => ?_⟩
  rcases k.saved p hp with hp | hp
  · exact h.saved p hp
  · exact .inr (hp.trans h.onFire_eq)

variable {action : WatchOnFireAction}

theorem Budgeted.same (h : Budgeted action w) (k : SameWakes w v) : Budgeted action v where
  onFire_eq := k.onFire_eq.trans h.onFire_eq
  savedOnFire p hp := by
    rcases k.saved p hp with hp | hp
    · exact h.savedOnFire p hp
    · exact hp.trans h.onFire_eq
  short := k.log_eq ▸ h.short
  recorded := by rw [k.log_eq, k.calls_eq]; exact h.recorded
  within := by rw [k.log_eq]; exact h.within
  refs := by rw [k.log_eq, k.nextRef_eq]; exact h.refs
  tasks := by rw [k.log_eq, k.nextRef_eq, k.chain_eq]; exact h.tasks
  distinct := by rw [k.chain_eq]; exact h.distinct
  times := by rw [k.calls_eq, k.clock_eq]; exact h.times
  spaced := by rw [k.calls_eq]; exact h.spaced
  started := by rw [k.clock_eq]; exact h.started

theorem sameWakes_persistLive (w : ActiveWatch ρ) : SameWakes w (persistLive w) := by
  refine ⟨rfl, rfl, rfl, rfl, rfl, rfl, fun p hp => ?_⟩
  simp only [persistLive, mem_cons, mem_append, not_mem_nil, or_false] at hp ⊢
  rcases hp with hp | hp | rfl
  · exact .inl (.inl hp)
  · exact .inl (.inr hp)
  · exact .inr rfl

theorem sameWakes_completeWatch (w : ActiveWatch ρ) : SameWakes w (completeWatch w) := by
  rcases completeWatch_cases w with h | ⟨-, -, -, h⟩ <;> rw [h]
  · exact SameWakes.refl w
  · exact ⟨rfl, rfl, rfl, rfl, rfl, rfl, fun _ hp => .inl hp⟩

theorem sameWakes_addFiring (w : ActiveWatch ρ) (k : ℕ) (cond : WatchConditionState) (input : FiringInput) :
    SameWakes w (addFiring w k cond input) := ⟨rfl, rfl, rfl, rfl, rfl, rfl, fun _ hp => .inl hp⟩

theorem sameWakes_finishFirings (w : ActiveWatch ρ) (f : Bool) : SameWakes w (finishFirings w f) := by
  have htouch : SameWakes w { w with record := { w.record with updatedAt := w.clock } } :=
    ⟨rfl, rfl, rfl, rfl, rfl, rfl, fun _ hp => .inl hp⟩
  have hcomplete : ∀ (b : Bool) (v : ActiveWatch ρ), SameWakes v (if b then completeWatch v else v) := fun b v => by
    cases b
    · exact SameWakes.refl v
    · exact sameWakes_completeWatch v
  have hdirty : ∀ v : ActiveWatch ρ, SameWakes v { v with snapshotDirty := true } := fun v =>
    ⟨rfl, rfl, rfl, rfl, rfl, rfl, fun _ hp => .inl hp⟩
  cases f
  · exact (htouch.trans (hcomplete false _)).trans (hdirty _)
  · exact (htouch.trans (hcomplete _ _)).trans (sameWakes_persistLive _)

theorem sameWakes_unpin (w : ActiveWatch ρ) (ok : Bool) : SameWakes w (unpin w ok) := by
  rw [unpin]
  split
  · exact SameWakes.refl w
  · exact SameWakes.refl w
  · split_ifs <;> exact ⟨rfl, rfl, rfl, rfl, rfl, rfl, fun _ hp => .inl hp⟩
  · dsimp only
    split_ifs
    all_goals
      refine ⟨rfl, rfl, rfl, rfl, rfl, rfl, fun p hp => ?_⟩
      simp only [mem_cons, mem_append, not_mem_nil, or_false] at hp ⊢
      rcases hp with hp | hp | rfl
      · exact .inl (.inl hp)
      · exact .inl (.inr hp)
      · exact .inr rfl

theorem sameWakes_write (w : ActiveWatch ρ) (ok : Bool) : SameWakes w (write w ok) := by
  rw [write]
  split
  · exact SameWakes.refl w
  next payload rest hsaves =>
    split_ifs
    · refine ⟨rfl, rfl, rfl, rfl, rfl, rfl, fun p hp => .inl ?_⟩
      rw [hsaves]
      exact mem_cons_of_mem _ hp
    · refine ⟨rfl, rfl, rfl, rfl, rfl, rfl, fun p hp => .inl ?_⟩
      rw [hsaves]
      rcases mem_cons.mp hp with rfl | hp
      · exact mem_cons_self
      · exact mem_cons_of_mem _ (mem_cons_of_mem _ hp)

/-! ## Attempts -/

theorem countP_dropped {dropped : List WatchWakeAttempt} (h : ∀ b ∈ dropped, b.status = .suppressed) :
    dropped.countP consumesWakeBudget = 0 ∧ dropped.filter counted = [] := by
  constructor
  · rw [countP_eq_zero]
    intro b hb
    simp [consumesWakeBudget, h b hb]
  · rw [filter_eq_nil_iff]
    intro b hb
    simp [counted, h b hb]

theorem budgeted_suppressed (h : Budgeted action w) (hs : Slack w (p + 1)) {a : WatchWakeAttempt}
    (ha : a.status = .suppressed) (href : a.ref = w.nextRef) : Budgeted action (pushAttempt w a) ∧ Slack (pushAttempt w a) p := by
  obtain ⟨dropped, kept, hlog, hlast, hdrop, hlen, hslack⟩ := push_log a h.short hs.1 hs.2
  obtain ⟨hzero, hnil⟩ := countP_dropped hdrop
  have hcons : consumesWakeBudget a = false := by simp [consumesWakeBudget, ha]
  have hcount : counted a = false := by simp [counted, ha]
  refine ⟨⟨h.onFire_eq, h.savedOnFire, ?_, ?_, ?_, ?_, ?_, h.distinct, h.times, h.spaced, h.started⟩, ?_⟩
  · change (lastRecorded (w.record.wakeAttempts ++ [a])).length ≤ _
    rw [hlast]
    exact hlen
  · change (lastRecorded (w.record.wakeAttempts ++ [a])).filter counted = w.calls.map (·.attempt)
    rw [hlast, ← h.recorded, hlog, filter_append, filter_append, hnil]
    simp [hcount]
  · change (lastRecorded (w.record.wakeAttempts ++ [a])).countP consumesWakeBudget ≤ _
    have := h.within
    rw [hlog, countP_append, hzero] at this
    rw [hlast, countP_append]
    simpa [hcons] using this
  · intro b hb
    change b ∈ lastRecorded (w.record.wakeAttempts ++ [a]) at hb
    rw [hlast, mem_append, mem_singleton] at hb
    change b.ref < w.nextRef + 1
    rcases hb with hb | rfl
    · have := h.refs b (hlog ▸ mem_append_right _ hb)
      omega
    · omega
  · intro t ht
    obtain ⟨hlt, hpend⟩ := h.tasks t ht
    refine ⟨Nat.lt_succ_of_lt hlt, fun b hb hbt => ?_⟩
    change b ∈ lastRecorded (w.record.wakeAttempts ++ [a]) at hb
    rw [hlast, mem_append, mem_singleton] at hb
    rcases hb with hb | rfl
    · exact hpend b (hlog ▸ mem_append_right _ hb) hbt
    · omega
  · refine ⟨by have := hs.1; omega, ?_⟩
    change ∀ b ∈ (lastRecorded (w.record.wakeAttempts ++ [a])).take ((lastRecorded (w.record.wakeAttempts ++ [a])).length + p - _), _
    rw [hlast]
    exact hslack

/-- What the policy has checked when it lets a wake through. -/
theorem wakeRefusal_none (h : wakeRefusal w action = none) : dispatchedCount w.record < action.maxWakeups ∧
      (lastDispatchedAt w.record = 0 ∨ lastDispatchedAt w.record + cooldownMs action ≤ w.clock) := by
  rw [wakeRefusal] at h
  split_ifs at h with h1 h2 h3
  exact ⟨by omega, by rw [cooldownMs]; omega⟩

theorem lastDispatchedAt_ge (h : Budgeted action w) {c : WakeCall} (hc : c ∈ w.calls) :
    c.attempt.attemptedAt ≤ lastDispatchedAt w.record := by
  have hlog : w.record.wakeAttempts.filter (fun a => a.status ≠ .suppressed) = w.calls.map (·.attempt) := h.recorded
  rw [lastDispatchedAt, hlog]
  exact (le_foldl_max _ 0).2 _ (mem_map_of_mem (mem_map_of_mem hc))

/-- The next wake is decided the cooldown after every earlier attempt. -/
theorem decided_after (h : Budgeted action w) (hr : wakeRefusal w action = none) {c : WakeCall}
    (hc : c ∈ w.calls) : c.attempt.attemptedAt + cooldownMs action ≤ w.clock := by
  have hge := lastDispatchedAt_ge h hc
  obtain ⟨hpos, hle, -⟩ := h.times c hc
  rcases (wakeRefusal_none hr).2 with hz | hcool <;> omega

theorem budgeted_dispatch (h : Budgeted action w) (hs : Slack w (p + 1))
    (hr : wakeRefusal w action = none) (c : JsString) (isRetry : Bool) :
    Budgeted action (dispatch w action c isRetry) ∧ Slack (dispatch w action c isRetry) p := by
  obtain ⟨dropped, kept, hlog, hlast, hdrop, hlen, hslack⟩ := push_log (pending w action c) h.short hs.1 hs.2
  obtain ⟨hzero, hnil⟩ := countP_dropped hdrop
  refine ⟨⟨h.onFire_eq, h.savedOnFire, ?_, ?_, ?_, ?_, ?_, ?_, ?_, ?_, h.started⟩, ?_⟩
  · change (lastRecorded (w.record.wakeAttempts ++ [pending w action c])).length ≤ _
    rw [hlast]
    exact hlen
  · change (lastRecorded (w.record.wakeAttempts ++ [pending w action c])).filter counted =
      (w.calls ++ [({ decidedAt := w.clock, attempt := pending w action c } : WakeCall)]).map (·.attempt)
    rw [hlast, map_append, ← h.recorded, hlog, filter_append, filter_append, hnil]
    rfl
  · change (lastRecorded (w.record.wakeAttempts ++ [pending w action c])).countP consumesWakeBudget ≤ _
    have hlt := (wakeRefusal_none hr).1
    rw [dispatchedCount, hlog, countP_append, hzero] at hlt
    rw [hlast, countP_append, countP_singleton]
    split_ifs <;> omega
  · intro b hb
    change b ∈ lastRecorded (w.record.wakeAttempts ++ [pending w action c]) at hb
    rw [hlast, mem_append, mem_singleton] at hb
    change b.ref < w.nextRef + 1
    rcases hb with hb | rfl
    · have := h.refs b (hlog ▸ mem_append_right _ hb)
      omega
    · exact Nat.lt_succ_self _
  · intro r hr'
    change r ∈ (w.wakeChain ++ [({ attempt := w.nextRef, conditionId := c, isRetry } : WakeTask)]).map (·.attempt) at hr'
    change r < w.nextRef + 1 ∧ ∀ b ∈ lastRecorded (w.record.wakeAttempts ++ [pending w action c]), _
    rw [hlast]
    rw [map_append, mem_append, map_singleton, mem_singleton] at hr'
    have hold : ∀ b ∈ kept, b.ref < w.nextRef := fun b hb => h.refs b (hlog ▸ mem_append_right _ hb)
    rcases hr' with hr' | rfl
    · obtain ⟨hlt, hpend⟩ := h.tasks r hr'
      refine ⟨Nat.lt_succ_of_lt hlt, fun b hb hbt => ?_⟩
      rcases mem_append.mp hb with hb | hb
      · exact hpend b (hlog ▸ mem_append_right _ hb) hbt
      · rw [mem_singleton] at hb
        subst hb
        rfl
    · refine ⟨Nat.lt_succ_self _, fun b hb hbt => ?_⟩
      rcases mem_append.mp hb with hb | hb
      · have := hold b hb
        change b.ref = w.nextRef at hbt
        omega
      · rw [mem_singleton] at hb
        subst hb
        rfl
  · change ((w.wakeChain ++ [({ attempt := w.nextRef, conditionId := c, isRetry } : WakeTask)]).map (·.attempt)).Nodup
    rw [map_append, nodup_append]
    refine ⟨h.distinct, by simp, ?_⟩
    rintro r hr' s hs' rfl
    have := (h.tasks r hr').1
    simp at hs'
    omega
  · intro d hd
    change d ∈ w.calls ++ [({ decidedAt := w.clock, attempt := pending w action c } : WakeCall)] at hd
    rw [mem_append, mem_singleton] at hd
    rcases hd with hd | rfl
    · exact h.times d hd
    · exact ⟨h.started, Nat.le_refl _, Nat.le_refl _⟩
  · change (w.calls ++ [({ decidedAt := w.clock, attempt := pending w action c } : WakeCall)]).Pairwise _
    rw [pairwise_append]
    refine ⟨h.spaced, by simp, fun d hd e he => ?_⟩
    rw [mem_singleton] at he
    subst he
    have := decided_after h hr hd
    have := (h.times d hd).2.1
    dsimp only
    omega
  · refine ⟨by have := hs.1; omega, ?_⟩
    change ∀ b ∈ (lastRecorded (w.record.wakeAttempts ++ [pending w action c])).take
      ((lastRecorded (w.record.wakeAttempts ++ [pending w action c])).length + p - _), _
    rw [hlast]
    exact hslack

/-! ## What every wake of a step goes through -/

/-- A property with room for `p` more attempts: it survives a suppressed attempt and a
    dispatch, each of which takes one. -/
structure WakeRule (action : WatchOnFireAction) (P : ℕ → ActiveWatch ρ → Prop) : Prop where
  onFire_eq : ∀ {p : ℕ} {w : ActiveWatch ρ}, P p w → w.record.onFire = some action
  same : ∀ {p : ℕ} {w v : ActiveWatch ρ}, P p w → SameWakes w v → P p v
  mono : ∀ {p q : ℕ} {w : ActiveWatch ρ}, P p w → q ≤ p → P q w
  suppressed : ∀ {p : ℕ} {w : ActiveWatch ρ} {a : WatchWakeAttempt}, P (p + 1) w → a.status = .suppressed →
    a.ref = w.nextRef → P p (pushAttempt w a)
  dispatched : ∀ {p : ℕ} {w : ActiveWatch ρ} (c : JsString) (isRetry : Bool), P (p + 1) w → wakeRefusal w action = none →
    P p (dispatch w action c isRetry)

theorem budgeted_rule : WakeRule action fun p (w : ActiveWatch ρ) => Budgeted action w ∧ Slack w p where
  onFire_eq h := h.1.onFire_eq
  same h k := ⟨h.1.same k, h.2.congr k.log_eq⟩
  mono h hq := ⟨h.1, h.2.mono hq⟩
  suppressed h ha href := budgeted_suppressed h.1 h.2 ha href
  dispatched c isRetry h hr := budgeted_dispatch h.1 h.2 hr c isRetry

section WakeRule

variable {P : ℕ → ActiveWatch ρ → Prop} (hP : WakeRule action P)

include hP

variable {w : ActiveWatch ρ}

section

variable {p : ℕ} (h : P (p + 1) w)
include h

theorem rule_suppress (c reason : JsString) : P p (suppress w action c reason) := by
  have hpush := hP.same (hP.suppressed (a := suppressed w action c reason) h rfl rfl) (sameWakes_persistLive _)
  rw [suppress]
  split_ifs
  · exact hP.same hpush (sameWakes_completeWatch _)
  · exact hpush

theorem rule_dispatchWakeForFiring (c : JsString) (isRetry : Bool) : P p (dispatchWakeForFiring w c isRetry) := by
  rcases dispatchWakeForFiring_cases w c isRetry with ⟨hn, -⟩ | ⟨a, ha, ⟨r, hr, hd⟩ | ⟨hr, hd⟩⟩
  · rw [hP.onFire_eq h] at hn
    cases hn
  all_goals
    obtain rfl : action = a := Option.some.inj ((hP.onFire_eq h).symm.trans ha)
    rw [hd]
  · exact rule_suppress hP h c r
  · exact hP.dispatched c isRetry h hr

theorem rule_wakeForFiring (c : JsString) (b : Option ℕ) : P p (wakeForFiring w c b).1 := by
  rcases wakeForFiring_cases w c b with ⟨hn, -⟩ | ⟨a, ha, -, hw⟩ | ⟨-, -, hw⟩
  · rw [hP.onFire_eq h] at hn
    cases hn
  all_goals rw [hw]
  · exact hP.same (hP.suppressed (a := suppressed w a c (js "coalesced_restart_reconciliation")) h rfl rfl)
      (sameWakes_persistLive _)
  · exact rule_dispatchWakeForFiring hP h c false

theorem rule_recordFiring (k : ℕ) (input : FiringInput) (b : Option ℕ) : P p (recordFiring w k input b).1 := by
  rcases recordFiring_cases w k input b with ⟨-, hr⟩ | ⟨cond, -, -, hr⟩ <;> rw [hr]
  · exact hP.mono h (Nat.le_succ p)
  · exact rule_wakeForFiring hP (hP.same h (sameWakes_addFiring w k cond input)) cond.id b

end

end WakeRule

/-! ## Open firings -/

/-- A firing of the condition this id finds would be recorded. -/
def isOpen (r : PersistedWatch) (id : JsString) : Bool := (find r id).any fun k => r.conditions[k]?.any (admits r)

theorem admits_addFiring {j k : ℕ} {cond : WatchConditionState} (input : FiringInput) (hk : w.record.conditions[k]? = some cond)
    (h : (addFiring w k cond input).record.conditions[j]?.any (admits (addFiring w k cond input).record) = true) :
    w.record.conditions[j]?.any (admits w.record) = true := by
  have hlt := (List.getElem?_eq_some_iff.mp hk).1
  rw [Option.any_eq_true] at h ⊢
  obtain ⟨c, hc, ha⟩ := h
  have hfirings : (addFiring w k cond input).record.firings.length = w.record.firings.length + 1 := by simp [addFiring]
  simp only [admits, hfirings, Bool.and_eq_true, decide_eq_true_eq] at ha
  by_cases hkj : k = j
  · subst hkj
    refine ⟨cond, hk, ?_⟩
    have hset : (addFiring w k cond input).record.conditions[k]? = some (markFired cond input.firedAt) := by
      simp [addFiring, hlt]
    cases hset.symm.trans hc
    have honce : cond.spec.once = some false := by
      by_contra hne
      simp [markFired, hne] at ha
    have hcount : cond.fireCount + 1 < DEFAULT_MAX_PER_CONDITION := ha.1.2
    simp only [admits, honce, Bool.and_eq_true, decide_eq_true_eq]
    exact ⟨⟨by simp, by omega⟩, by omega⟩
  · refine ⟨c, by simpa [addFiring, getElem?_set_ne hkj] using hc, ?_⟩
    simp only [admits, Bool.and_eq_true, decide_eq_true_eq]
    exact ⟨ha.1, by omega⟩

/-- A firing opens nothing. -/
theorem admits_recordFiring {j k : ℕ} {input : FiringInput} {b : Option ℕ}
    (h : (recordFiring w k input b).1.record.conditions[j]?.any (admits (recordFiring w k input b).1.record) = true) :
    w.record.conditions[j]?.any (admits w.record) = true := by
  rcases recordFiring_cases w k input b with ⟨-, hr⟩ | ⟨cond, hk, -, hr⟩ <;> rw [hr] at h
  · exact h
  · refine admits_addFiring input hk ?_
    have hadm : admits (wakeForFiring (addFiring w k cond input) cond.id b).1.record =
        admits (addFiring w k cond input).record := by
      funext c
      rw [admits, admits, (wakeForFiring_frame ..).2.1]
    rwa [hadm, (wakeForFiring_frame ..).1] at h

theorem isOpen_recordFiring {k : ℕ} {input : FiringInput} {b : Option ℕ} {id : JsString}
    (h : isOpen (recordFiring w k input b).1.record id = true) : isOpen w.record id = true := by
  rw [isOpen, find_kept (kept_recordFiring w k input b), Option.any_eq_true] at h
  obtain ⟨j, hj, hadm⟩ := h
  rw [isOpen, Option.any_eq_true]
  exact ⟨j, hj, admits_recordFiring hadm⟩

/-- The conditions a registration that finds its subject settled fires. -/
def openSettled (w : ActiveWatch ρ) (ks : List ℕ) : ℕ :=
  ks.countP fun k => w.record.conditions[k]?.any settles

theorem settles_of_same {c c' : WatchConditionState} (h : Same c c') (hs : settles c' = true) : settles c = true := by
  simp only [settles, Bool.and_eq_true, Bool.not_eq_true', h.type_eq, h.spec_eq, Bool.and_eq_false_iff] at hs ⊢
  refine ⟨hs.1, ?_⟩
  rcases hs.2 with ho | hf
  · exact .inl ho
  · refine .inr ?_
    by_contra hfired
    rw [h.stays (by simpa using hfired)] at hf
    cases hf

theorem openSettled_recordFiring (w : ActiveWatch ρ) (k : ℕ) (input : FiringInput) (b : Option ℕ) (ks : List ℕ) :
    openSettled (recordFiring w k input b).1 ks ≤ openSettled w ks := by
  refine countP_mono_left fun j _ hj => ?_
  have hkept := kept_recordFiring w k input b
  rw [Option.any_eq_true] at hj ⊢
  obtain ⟨c', hc', hsettles⟩ := hj
  have hlt : j < w.record.conditions.length := by
    rw [← hkept.2.1]
    exact (List.getElem?_eq_some_iff.mp hc').1
  obtain ⟨c'', hc'', hsame⟩ := hkept.2.2 j _ (getElem?_eq_getElem hlt)
  cases hc''.symm.trans hc'
  exact ⟨_, getElem?_eq_getElem hlt, settles_of_same hsame hsettles⟩

/-- At most how many attempts a step records. -/
def openFirings (w : ActiveWatch ρ) : Step → ℕ
  | .event e | .reconcileRestart e | .reconcileGoalEnd e | .neverStarted e =>
    (eventMatches R w e).countP fun m => isOpen w.record m.conditionId
  | .fireIfSettled _ => openSettled w (List.range w.record.conditions.length)
  | .deadline i => if (w.deadlineTimers[i]?.any fun t => isOpen w.record t.conditionId) = true then 1 else 0
  | .retryWake i => if i < w.wakeRetryTimers.length then 1 else 0
  | _ => 0

section WakeRule

variable {P : ℕ → ActiveWatch ρ → Prop} (hP : WakeRule action P)

include hP

theorem rule_recordMatches {t : JsNumber} : ∀ (ms : List ConditionMatch) {w : ActiveWatch ρ} (b : Option ℕ) (f : Bool),
    P (ms.countP fun m => isOpen w.record m.conditionId) w → P 0 (recordMatches t ms w b f).1
  | [], _, _, _, h => h
  | m :: ms, w, b, f, h => by
    have htail : P (ms.countP fun m => isOpen w.record m.conditionId) w :=
      hP.mono h (by rw [countP_cons]; exact Nat.le_add_right _ _)
    rw [recordMatches]
    split
    · exact rule_recordMatches ms b f htail
    next k hk =>
      split
      · exact hP.mono h (Nat.zero_le _)
      · generalize ({ eventType := m.eventType, evidence := m.evidence, firedAt := t } : FiringInput) = input
        dsimp only
        have hopen : ∀ n : ConditionMatch, isOpen (recordFiring w k input b).1.record n.conditionId = true →
            isOpen w.record n.conditionId = true := fun n hn => isOpen_recordFiring hn
        have hcount := countP_mono_left (l := ms) fun n _ => hopen n
        rcases recordFiring_cases w k input b with ⟨-, hr⟩ | ⟨cond, hcond, hadm, -⟩
        · rw [hr]
          exact rule_recordMatches ms _ _ htail
        · have hthis : isOpen w.record m.conditionId = true := by simp [isOpen, hk, hcond, hadm]
          rw [countP_cons, if_pos hthis] at h
          exact rule_recordMatches ms _ _ (hP.mono (rule_recordFiring hP h k _ b) hcount)

theorem rule_recordSettled {evidence : JsString} : ∀ (ks : List ℕ) {w : ActiveWatch ρ} (f : Bool),
    P (openSettled w ks) w → P 0 (recordSettled evidence ks w f).1
  | [], _, _, h => h
  | k :: ks, w, f, h => by
    rw [openSettled, countP_cons] at h
    have htail : P (openSettled w ks) w := hP.mono h (Nat.le_add_right _ _)
    rw [recordSettled]
    split
    · exact rule_recordSettled ks f htail
    next cond hcond =>
      split_ifs with hset
      · exact rule_recordSettled ks f htail
      · dsimp only
        rw [hcond, if_pos (by simpa using hset)] at h
        exact rule_recordSettled ks _ (hP.mono (rule_recordFiring hP h k _ none) (openSettled_recordFiring w k _ none ks))

variable {w : ActiveWatch ρ}

theorem rule_handleEvent {e : NormalizedEvent} (b : Option ℕ)
    (h : P ((eventMatches R w e).countP fun m => isOpen w.record m.conditionId) w) : P 0 (handleEvent R w e b).1 := by
  rw [handleEvent]
  split_ifs
  · exact hP.mono h (Nat.zero_le _)
  · have hobserved : SameWakes w (observed R w e) := ⟨rfl, rfl, rfl, rfl, rfl, rfl, fun _ hp => .inl hp⟩
    have hm : P 0 (recordMatches e.timestamp (eventMatches R w e) (observed R w e) b false).1 :=
      rule_recordMatches hP (eventMatches R w e) b false (hP.same h hobserved)
    exact hP.same hm (sameWakes_finishFirings _ _)

theorem rule_fireAlone (h : P 1 w) (k : ℕ) (input : FiringInput) : P 0 (fireAlone w k input) := by
  rw [fireAlone]
  dsimp only
  split_ifs
  · exact hP.same (rule_recordFiring hP h k input none) (sameWakes_finishFirings _ _)
  · exact rule_recordFiring hP h k input none

/-- Every step but the outcome of a dispatch goes through the rule. -/
theorem rule_act {s : Step} (hs : ∀ r, s ≠ .wakeResult r) (h : P (openFirings R w s) w) : P 0 (act R w s) := by
  have hzero : P 0 w := hP.mono h (Nat.zero_le _)
  cases s with
  | event e => exact rule_handleEvent R hP none h
  | reconcileRestart e =>
    exact hP.same (rule_handleEvent R hP (some 1) h) ⟨rfl, rfl, rfl, rfl, rfl, rfl, fun _ hp => .inl hp⟩
  | reconcileGoalEnd e =>
    exact hP.same (rule_handleEvent R hP (some w.restartBudget) h) ⟨rfl, rfl, rfl, rfl, rfl, rfl, fun _ hp => .inl hp⟩
  | neverStarted e => exact rule_handleEvent R hP (some 1) h
  | fireIfSettled note =>
    simp only [act, applyFireIfSettled]
    split_ifs
    · exact hzero
    · exact hP.same (rule_recordSettled hP _ _ h) (sameWakes_finishFirings _ _)
    · exact rule_recordSettled hP _ _ h
  | deadline i =>
    simp only [act]
    split
    · exact hzero
    next timer ht =>
      have herase : SameWakes w (dropDeadline w i) :=
        ⟨rfl, rfl, rfl, rfl, rfl, rfl, fun _ hp => .inl hp⟩
      rcases fireDeadline_cases (dropDeadline w i) timer with
        hd | hd | ⟨k, cond, due, -, hf, hk, -, hfired, -, hd⟩ <;> rw [hd]
      · exact hP.same hzero herase
      · exact hP.same hzero ⟨rfl, rfl, rfl, rfl, rfl, rfl, fun _ hp => .inl hp⟩
      · cases hadm : admits w.record cond with
        | true =>
          have hopen : isOpen w.record timer.conditionId = true := by
            change find w.record timer.conditionId = some k at hf
            change w.record.conditions[k]? = some cond at hk
            simp [isOpen, hf, hk, hadm]
          have hone : P 1 w := by simpa [openFirings, ht, hopen] using h
          exact rule_fireAlone hP (hP.same hone herase) k _
        | false =>
          rcases recordFiring_cases (dropDeadline w i) k (deadlineInput (dropDeadline w i) timer cond due) none with
            ⟨-, hr⟩ | ⟨cond', hk', hadm', -⟩
          · rw [fireAlone, hr]
            exact hP.same hzero herase
          · cases hk.symm.trans hk'
            exact absurd (hadm.symm.trans hadm') (by simp)
  | callWake =>
    simp only [act, callWake]
    split
    · exact hzero
    next task rest hchain =>
      exact hP.same hzero ⟨rfl, rfl, rfl, by simp [hchain], rfl, rfl, fun _ hp => .inl hp⟩
  | wakeResult r => exact absurd rfl (hs r)
  | retryWake i =>
    simp only [act, retryWake]
    split
    · exact hzero
    next c hc =>
      have hone : P 1 w := by simpa [openFirings, (List.getElem?_eq_some_iff.mp hc).1] using h
      have hdrop : SameWakes w (dropRetry w i) := ⟨rfl, rfl, rfl, rfl, rfl, rfl, fun _ hp => .inl hp⟩
      exact rule_dispatchWakeForFiring hP (hP.same hone hdrop) c true
  | unpin ok => exact hP.same hzero (sameWakes_unpin w ok)
  | write ok => exact hP.same hzero (sameWakes_write w ok)
  | flush =>
    simp only [act, flush]
    split_ifs
    · exact hP.same hzero (sameWakes_persistLive w)
    · exact hzero
  | steer t busy => exact hP.same hzero ⟨rfl, rfl, rfl, rfl, rfl, rfl, fun _ hp => .inl hp⟩

end WakeRule

/-! ## Outcomes -/

section

variable (r : WatchWakeDispatchResult) (clock : ℕ) (a : WatchWakeAttempt)
include r clock a

theorem settle_ref : (settle r clock a).ref = a.ref := by
  cases r <;> rfl

theorem settle_attemptedAt : (settle r clock a).attemptedAt = clock := by
  cases r <;> rfl

theorem settle_status : (settle r clock a).status = .dispatched ∨ (settle r clock a).status = .failed := by
  cases r
  · exact .inl rfl
  · exact .inr rfl

end

def settled (w : ActiveWatch ρ) (ref : ℕ) (r : WatchWakeDispatchResult) (rest : List WakeTask) : ActiveWatch ρ :=
  { updateAttempt w ref (settle r w.clock) with wakeChain := rest }

/-- The outcome of the head of the chain changes its attempt in the log and in the history
    alike. -/
theorem budgeted_settled (h : Budgeted action w) {task : WakeTask} {rest : List WakeTask}
    (hchain : w.wakeChain = task :: rest) (r : WatchWakeDispatchResult) : Budgeted action (settled w task.attempt r rest) := by
  have htask := h.tasks
  have hdistinct := h.distinct
  rw [hchain, map_cons] at htask hdistinct
  obtain ⟨-, hpend⟩ := htask task.attempt (by simp)
  have hpending : ∀ a ∈ w.record.wakeAttempts, a.ref = task.attempt → consumesWakeBudget a = true ∧ counted a = true :=
    fun a ha href => by simp [consumesWakeBudget, counted, hpend a ha href]
  have hcounted : ∀ a, counted (settle r w.clock a) = true := fun a => by
    rcases settle_status r w.clock a with h | h <;> simp [counted, h]
  refine ⟨h.onFire_eq, h.savedOnFire, ?_, ?_, ?_, ?_, ?_, ?_, ?_, ?_, h.started⟩
  · change (w.record.wakeAttempts.map _).length ≤ _
    rw [length_map]
    exact h.short
  · change (w.record.wakeAttempts.map fun a => if a.ref = task.attempt then settle r w.clock a else a).filter counted =
      (w.calls.map fun c => if c.attempt.ref = task.attempt then { c with attempt := settle r w.clock c.attempt } else c).map
        (·.attempt)
    have hfilter : w.record.wakeAttempts.filter (counted ∘ fun a => if a.ref = task.attempt then settle r w.clock a else a) =
        w.record.wakeAttempts.filter counted := by
      refine filter_congr fun a ha => ?_
      by_cases href : a.ref = task.attempt
      · simp [href, hcounted, (hpending a ha href).2]
      · simp [href]
    rw [filter_map, hfilter, h.recorded, List.map_map, List.map_map]
    refine map_congr_left fun c _ => ?_
    by_cases href : c.attempt.ref = task.attempt <;> simp [href]
  · change (w.record.wakeAttempts.map fun a => if a.ref = task.attempt then settle r w.clock a else a).countP
      consumesWakeBudget ≤ _
    rw [countP_map]
    refine Nat.le_trans (countP_mono_left fun a ha hc => ?_) h.within
    by_cases href : a.ref = task.attempt
    · exact (hpending a ha href).1
    · simpa [href] using hc
  · intro a ha
    obtain ⟨b, hb, rfl⟩ := mem_map.mp ha
    have href := h.refs b hb
    split_ifs
    · rw [settle_ref]
      exact href
    · exact href
  · intro ref href
    change ref ∈ rest.map (·.attempt) at href
    obtain ⟨hlt, hstill⟩ := htask ref (mem_cons_of_mem _ href)
    refine ⟨hlt, fun a ha haref => ?_⟩
    obtain ⟨b, hb, rfl⟩ := mem_map.mp ha
    have hne : ref ≠ task.attempt := fun heq => (nodup_cons.mp hdistinct).1 (heq ▸ href)
    split_ifs at haref ⊢ with hbt
    · rw [settle_ref, hbt] at haref
      exact absurd haref.symm hne
    · exact hstill b hb haref
  · exact (nodup_cons.mp hdistinct).2
  · intro c hc
    obtain ⟨d, hd, rfl⟩ := mem_map.mp hc
    have htimes := h.times d hd
    split_ifs
    · refine ⟨htimes.1, ?_, ?_⟩
      · dsimp only
        rw [settle_attemptedAt]
        exact htimes.2.1.trans htimes.2.2
      · dsimp only
        rw [settle_attemptedAt]
        exact Nat.le_refl _
    · exact htimes
  · change (w.calls.map _).Pairwise _
    rw [pairwise_map]
    refine h.spaced.imp fun {c d} hcd => ?_
    split_ifs <;> exact hcd

theorem wakeResult_cases (w : ActiveWatch ρ) (r : WatchWakeDispatchResult) : wakeResult w r = w ∨
    ∃ task rest, w.wakeChain = task :: rest ∧ SameWakes (settled w task.attempt r rest) (wakeResult w r) := by
  cases hchain : w.wakeChain with
  | nil => exact .inl (by simp [wakeResult, hchain])
  | cons task rest =>
    by_cases hcalled : task.called = true
    swap
    · exact .inl (by simp [wakeResult, hchain, hcalled])
    refine .inr ⟨task, rest, rfl, ?_⟩
    have hsettled : SameWakes (settled w task.attempt r rest)
        { persistLive (updateAttempt w task.attempt (settle r w.clock)) with
          wakeChain := rest, pendingSteerTargets := steerDone (persistLive (updateAttempt w task.attempt (settle r w.clock))) } := by
      refine ⟨rfl, rfl, rfl, rfl, rfl, rfl, fun p hp => ?_⟩
      exact (sameWakes_persistLive (settled w task.attempt r rest)).saved p hp
    simp only [wakeResult, hchain, hcalled, Bool.not_true, Bool.false_eq_true, if_false]
    split_ifs
    · exact hsettled.trans ⟨rfl, rfl, rfl, rfl, rfl, rfl, fun _ hp => .inl hp⟩
    · exact hsettled.trans (sameWakes_completeWatch _)
    · exact hsettled

theorem budgeted_wakeResult (h : Budgeted action w) (r : WatchWakeDispatchResult) : Budgeted action (wakeResult w r) := by
  rcases wakeResult_cases w r with hr | ⟨task, rest, hchain, hsame⟩
  · rw [hr]
    exact h
  · exact (budgeted_settled h hchain r).same hsame

theorem budgeted_tick (h : Budgeted action w) (d : ℕ) : Budgeted action (tick w d) :=
  ⟨h.onFire_eq, h.savedOnFire, h.short, h.recorded, h.within, h.refs, h.tasks, h.distinct,
    fun c hc => ⟨(h.times c hc).1, (h.times c hc).2.1, (h.times c hc).2.2.trans (Nat.le_add_right _ _)⟩, h.spaced,
    h.started.trans_le (Nat.le_add_right _ _)⟩

/-! ## The life of a generation -/

inductive LifeStep where
  | step (s : ℕ × Step)
  /-- The process ends and the next one boots from the ledger on disk. -/
  | restart (subjectOk targetOk : Bool)

def life (w : ActiveWatch ρ) : LifeStep → ActiveWatch ρ
  | .step s => step R w s
  | .restart subjectOk targetOk => boot R w subjectOk targetOk

/-- What the step records pushes only suppressed attempts out of the log, and a restart finds
    every attempt on disk. -/
def NoLoss (w : ActiveWatch ρ) : LifeStep → Prop
  | .step s => Slack w (openFirings R (tick w s.1) s.2)
  | .restart _ _ => w.disk.wakeAttempts = w.record.wakeAttempts

/-- No wake is decided while an earlier attempt is pending. -/
def NoOverlap (w : ActiveWatch ρ) : LifeStep → Prop
  | .step s => openFirings R (tick w s.1) s.2 = 0 ∨ ∀ a ∈ w.record.wakeAttempts, a.status ≠ .pending
  | .restart _ _ => True

instance (w : ActiveWatch ρ) : ∀ s : LifeStep, Decidable (NoLoss R w s)
  | .step s => inferInstanceAs (Decidable (Slack w (openFirings R (tick w s.1) s.2)))
  | .restart _ _ => inferInstanceAs (Decidable (w.disk.wakeAttempts = w.record.wakeAttempts))

/-- A boot keeps the history, and takes the ledger of the disk. -/
theorem boot_wakes (w : ActiveWatch ρ) (subjectOk targetOk : Bool) :
    (boot R w subjectOk targetOk).record.wakeAttempts = w.disk.wakeAttempts ∧
      (boot R w subjectOk targetOk).record.onFire = w.disk.onFire ∧ (boot R w subjectOk targetOk).calls = w.calls ∧
      (boot R w subjectOk targetOk).wakeChain = [] ∧ (boot R w subjectOk targetOk).nextRef = w.nextRef ∧
      (boot R w subjectOk targetOk).clock = w.clock ∧ (boot R w subjectOk targetOk).saves = [] ∧
      (boot R w subjectOk targetOk).disk.onFire = w.disk.onFire := by
  by_cases hs : w.disk.status = .active
  swap
  · rw [boot]
    dsimp only
    rw [if_pos hs]
    exact ⟨rfl, rfl, rfl, rfl, rfl, rfl, rfl, rfl⟩
  rw [boot]
  dsimp only
  rw [if_neg (not_not.mpr hs)]
  split
  · exact ⟨rfl, rfl, rfl, rfl, rfl, rfl, rfl, rfl⟩
  · exact ⟨rfl, rfl, rfl, rfl, rfl, rfl, rfl, rfl⟩
  · split
    · rcases completeWatch_cases _ with h | ⟨-, -, -, h⟩ <;> rw [h] <;> exact ⟨rfl, rfl, rfl, rfl, rfl, rfl, rfl, rfl⟩
    · exact ⟨rfl, rfl, rfl, rfl, rfl, rfl, rfl, rfl⟩

theorem budgeted_boot (h : Budgeted action w) (subjectOk targetOk : Bool)
    (hdisk : w.disk.wakeAttempts = w.record.wakeAttempts) : Budgeted action (boot R w subjectOk targetOk) := by
  obtain ⟨hlog, honFire, hcalls, hchain, href, hclock, hsaves, hdiskOnFire⟩ := boot_wakes R w subjectOk targetOk
  have hd : w.disk.onFire = some action := h.savedOnFire _ mem_cons_self
  refine ⟨honFire.trans hd, ?_, ?_, ?_, ?_, ?_, ?_, ?_, ?_, ?_, ?_⟩
  · rw [hsaves]
    intro p hp
    rw [mem_singleton] at hp
    exact hp ▸ hdiskOnFire.trans hd
  · rw [hlog, hdisk]
    exact h.short
  · rw [hlog, hdisk, hcalls]
    exact h.recorded
  · rw [hlog, hdisk]
    exact h.within
  · rw [hlog, hdisk, href]
    exact h.refs
  · rw [hchain]
    simp
  · rw [hchain]
    simp
  · rw [hcalls, hclock]
    exact h.times
  · rw [hcalls]
    exact h.spaced
  · rw [hclock]
    exact h.started

theorem budgeted_life {s : LifeStep} (h : Budgeted action w) (hs : NoLoss R w s) : Budgeted action (life R w s) := by
  cases s with
  | step s =>
    by_cases hr : ∃ r, s.2 = .wakeResult r
    · obtain ⟨r, hr⟩ := hr
      simp only [life, step, hr, act]
      exact budgeted_wakeResult (budgeted_tick h s.1) r
    · have hslack : Slack (tick w s.1) (openFirings R (tick w s.1) s.2) := hs
      exact (rule_act R budgeted_rule (fun r hsr => hr ⟨r, hsr⟩) ⟨budgeted_tick h s.1, hslack⟩).1
  | restart subjectOk targetOk => exact budgeted_boot R h subjectOk targetOk hs

theorem budgeted_registered (resolved : List (ResolvedCondition ρ)) (action : WatchOnFireAction) (pinned targetPinned : Bool)
    {clock : ℕ} (hclock : 0 < clock) : Budgeted action (registered resolved (some action) pinned targetPinned clock) := by
  refine ⟨rfl, ?_, by simp [registered], rfl, by simp [registered], by simp [registered], by simp [registered],
    by simp [registered], by simp [registered], by simp [registered], hclock⟩
  intro p hp
  simp only [registered, mem_singleton] at hp
  rw [hp]

/-- The attempt ended dispatched, or failed for good. -/
def spent (c : WakeCall) : Bool :=
  c.attempt.status = .dispatched ||
    (c.attempt.status = .failed && !(TRANSIENT_WAKE_ERRORS.contains (c.attempt.errorCode.getD [])))

theorem spent_le (h : Budgeted action w) : w.calls.countP spent ≤ action.maxWakeups := by
  have hcount : (w.calls.map (·.attempt)).countP consumesWakeBudget ≤ action.maxWakeups := by
    rw [← h.recorded, countP_filter]
    exact Nat.le_trans (countP_mono_left fun a _ ha => by simpa using (Bool.and_eq_true_iff.mp ha).1) h.within
  rw [countP_map] at hcount
  refine Nat.le_trans (countP_mono_left fun c _ hc => ?_) hcount
  simp only [spent, Bool.or_eq_true] at hc
  simp only [Function.comp_apply, consumesWakeBudget, Bool.or_eq_true]
  exact .inl hc

/-! ## Outcomes and decisions -/

/-- Every attempt but the last has its outcome, at least the cooldown before the next
    decision. -/
def SpacedOutcomes (action : WatchOnFireAction) (w : ActiveWatch ρ) : Prop :=
  w.calls.Pairwise fun c d => c.attempt.status ≠ .pending ∧ c.attempt.attemptedAt + cooldownMs action ≤ d.decidedAt

/-- No attempt is pending, or one was decided or answered in this very millisecond. -/
def ClearOrNow (w : ActiveWatch ρ) : Prop :=
  (∀ c ∈ w.calls, c.attempt.status ≠ .pending) ∨ ∃ c ∈ w.calls, c.attempt.attemptedAt = w.clock

def Separate (action : WatchOnFireAction) (p : ℕ) (w : ActiveWatch ρ) : Prop :=
  (Budgeted action w ∧ Slack w p) ∧ SpacedOutcomes action w ∧ ClearOrNow w

theorem separate_dispatch (hpos : 0 < action.cooldownSeconds) (h : Separate action (p + 1) w)
    (hr : wakeRefusal w action = none) (c : JsString) (isRetry : Bool) : Separate action p (dispatch w action c isRetry) := by
  obtain ⟨⟨hb, hs⟩, hspaced, hclear⟩ := h
  have hcool : 0 < cooldownMs action := Nat.mul_pos hpos (by decide)
  have hdone : ∀ d ∈ w.calls, d.attempt.status ≠ .pending := by
    rcases hclear with hclear | ⟨d, hd, hnow⟩
    · exact hclear
    · have := decided_after hb hr hd
      omega
  refine ⟨budgeted_dispatch hb hs hr c isRetry, ?_, .inr ⟨⟨w.clock, pending w action c⟩, ?_, rfl⟩⟩
  · change (w.calls ++ [({ decidedAt := w.clock, attempt := pending w action c } : WakeCall)]).Pairwise _
    rw [pairwise_append]
    refine ⟨hspaced, by simp, fun d hd e he => ?_⟩
    rw [mem_singleton] at he
    subst he
    exact ⟨hdone d hd, decided_after hb hr hd⟩
  · exact mem_append_right _ (mem_singleton.mpr rfl)

theorem separate_rule (hpos : 0 < action.cooldownSeconds) : WakeRule action (Separate action : ℕ → ActiveWatch ρ → Prop) where
  onFire_eq h := h.1.1.onFire_eq
  same h k := by
    refine ⟨⟨h.1.1.same k, h.1.2.congr k.log_eq⟩, ?_, ?_⟩
    · rw [SpacedOutcomes, k.calls_eq]
      exact h.2.1
    · rw [ClearOrNow, k.calls_eq, k.clock_eq]
      exact h.2.2
  mono h hq := ⟨⟨h.1.1, h.1.2.mono hq⟩, h.2⟩
  suppressed h ha href := ⟨budgeted_suppressed h.1.1 h.1.2 ha href, h.2⟩
  dispatched c isRetry h hr := separate_dispatch hpos h hr c isRetry

/-- A step without open firings decides nothing. -/
theorem idle_rule (calls : List WakeCall) : WakeRule action fun p (w : ActiveWatch ρ) =>
    w.record.onFire = some action ∧ w.calls = calls ∧ p = 0 where
  onFire_eq h := h.1
  same h k := ⟨k.onFire_eq.trans h.1, k.calls_eq.trans h.2.1, h.2.2⟩
  mono h hq := ⟨h.1, h.2.1, by omega⟩
  suppressed h _ _ := absurd h.2.2 (Nat.succ_ne_zero _)
  dispatched _ _ h _ := absurd h.2.2 (Nat.succ_ne_zero _)

theorem calls_pending (h : Budgeted action w) {task : WakeTask} {rest : List WakeTask}
    (hchain : w.wakeChain = task :: rest) {c : WakeCall} (hc : c ∈ w.calls) (href : c.attempt.ref = task.attempt) :
    c.attempt.status = .pending := by
  have hmem : c.attempt ∈ w.record.wakeAttempts.filter counted := h.recorded ▸ mem_map_of_mem hc
  exact (h.tasks task.attempt (by simp [hchain])).2 _ (mem_of_mem_filter hmem) href

/-- The pending attempt is the last one, so its outcome changes no pair's first part. -/
theorem spaced_wakeResult (h : Budgeted action w) (hs : SpacedOutcomes action w)
    (r : WatchWakeDispatchResult) : SpacedOutcomes action (wakeResult w r) := by
  rcases wakeResult_cases w r with hr | ⟨task, rest, hchain, hsame⟩
  · rw [hr]
    exact hs
  · rw [SpacedOutcomes, hsame.calls_eq]
    change (w.calls.map _).Pairwise _
    rw [pairwise_map]
    refine hs.imp_of_mem fun {c d} hc _ hcd => ?_
    have hne : c.attempt.ref ≠ task.attempt := fun href => hcd.1 (calls_pending h hchain hc href)
    rw [if_neg hne]
    split_ifs <;> exact hcd

theorem spaced_life (hpos : 0 < action.cooldownSeconds) {s : LifeStep} (h : Budgeted action w)
    (hs : SpacedOutcomes action w) (hn : NoLoss R w s) (ho : NoOverlap R w s) : SpacedOutcomes action (life R w s) := by
  cases s with
  | restart subjectOk targetOk =>
    rw [life, SpacedOutcomes, (boot_wakes R w subjectOk targetOk).2.2.1]
    exact hs
  | step s =>
    by_cases hr : ∃ r, s.2 = .wakeResult r
    · obtain ⟨r, hr⟩ := hr
      simp only [life, step, hr, act]
      exact spaced_wakeResult (budgeted_tick h s.1) hs r
    · have hact : ∀ r, s.2 ≠ .wakeResult r := fun r hsr => hr ⟨r, hsr⟩
      rcases ho with hzero | hclear
      · have hidle := rule_act R (w := tick w s.1) (idle_rule (tick w s.1).calls) hact ⟨h.onFire_eq, rfl, hzero⟩
        rw [life, step, SpacedOutcomes, hidle.2.1]
        exact hs
      · have hdone : ∀ c ∈ (tick w s.1).calls, c.attempt.status ≠ .pending := fun c hc => by
          have hmem : c.attempt ∈ w.record.wakeAttempts.filter counted := h.recorded ▸ mem_map_of_mem hc
          exact hclear _ (mem_of_mem_filter hmem)
        exact (rule_act R (separate_rule hpos) hact ⟨⟨budgeted_tick h s.1, hn⟩, hs, .inl hdone⟩).2.1

/-- Over a life in which truncation and restarts lose no attempt that was not suppressed, at
    most `maxWakeups` attempts are spent and decisions are the cooldown apart; where no wake
    is decided over a pending attempt either, every decision is also the cooldown after the
    outcomes before it. -/
theorem wakes_within_budget (resolved : List (ResolvedCondition ρ)) (action : WatchOnFireAction) (pinned targetPinned : Bool)
    {clock : ℕ} (hclock : 0 < clock) (ss : List LifeStep)
    (h : Run.Along (life R) (NoLoss R) (registered resolved (some action) pinned targetPinned clock) ss) :
    let w := ss.foldl (life R) (registered resolved (some action) pinned targetPinned clock)
    w.calls.countP spent ≤ action.maxWakeups ∧
      (w.calls.Pairwise fun c d => c.decidedAt + cooldownMs action ≤ d.decidedAt) ∧
      (0 < action.cooldownSeconds →
        Run.Along (life R) (NoOverlap R) (registered resolved (some action) pinned targetPinned clock) ss →
        w.calls.Pairwise fun c d => c.attempt.attemptedAt + cooldownMs action ≤ d.decidedAt) := by
  have hb := Run.invariant (I := Budgeted action) (fun w s hw hs => budgeted_life R hw hs)
    (budgeted_registered resolved action pinned targetPinned hclock) h
  refine ⟨spent_le hb, hb.spaced, fun hpos ho => ?_⟩
  have hboth : Run.Along (life R) (fun w s => NoLoss R w s ∧ NoOverlap R w s)
      (registered resolved (some action) pinned targetPinned clock) ss := Run.along_and.mpr ⟨h, ho⟩
  have hs := Run.invariant (I := fun w => Budgeted action w ∧ SpacedOutcomes action w)
    (fun w s hw hs => ⟨budgeted_life R hw.1 hs.1, spaced_life R hpos hw.1 hw.2 hs.1 hs.2⟩)
    ⟨budgeted_registered resolved action pinned targetPinned hclock, List.Pairwise.nil⟩ hboth
  exact hs.2.imp fun hcd => hcd.2

def onEvent (id type : JsString) : WatchConditionSpec :=
  { id := some id, type := js "event_type", eventType := some type, once := some false }

def resolvedOnEvent (id type : JsString) : ResolvedCondition Unit :=
  { id, type := js "event_type", spec := onEvent id type, once := false, regex := none }

def plainEvent (type : JsString) : ℕ × Step := (1, .event { type })

/-- A wake that ends dispatched: its decision, its turn on the chain, its result. -/
def wakeDelivered (type : JsString) : List (ℕ × Step) :=
  [plainEvent type, (0, .callWake), (0, .wakeResult (.dispatched none none))]

def oneWake : WatchOnFireAction := { targetSessionId := js "t1" }

/-- One wake is delivered, and the next event finds the budget used. -/
theorem one_wake_within_budget : let ss := (wakeDelivered (js "x") ++ [plainEvent (js "x")]).map LifeStep.step
    let w := ss.foldl (life noPatterns) (registered [resolvedOnEvent (js "c0") (js "x")] (some oneWake) true true 1000)
    w.calls.countP spent ≤ 1 :=
  (wakes_within_budget noPatterns [resolvedOnEvent (js "c0") (js "x")] oneWake true true (by decide)
    ((wakeDelivered (js "x") ++ [plainEvent (js "x")]).map LifeStep.step) (by decide +kernel)).1

/-- Two repeating conditions and one wake: after 25 more events only suppressed attempts are
    left in the log, and a second wake is delivered within the cooldown of the first. -/
theorem budget_overrun : let resolved := [resolvedOnEvent (js "c0") (js "x"), resolvedOnEvent (js "c1") (js "x")]
    let ss := (wakeDelivered (js "x") ++ List.replicate 24 (plainEvent (js "x")) ++ wakeDelivered (js "x")).map
      LifeStep.step
    let w : ActiveWatch Unit := ss.foldl (life noPatterns) (registered resolved (some oneWake) true true 1000)
    resolveConditions noPatterns [onEvent (js "c0") (js "x"), onEvent (js "c1") (js "x")] = .ok resolved ∧
      ¬ w.calls.countP spent ≤ oneWake.maxWakeups ∧
      ¬ w.calls.Pairwise fun c d => c.decidedAt + cooldownMs oneWake ≤ d.decidedAt := by
  refine ⟨by rfl, ?_, ?_⟩ <;> decide +kernel

end PiWebUi.Watch.ActiveWatch
