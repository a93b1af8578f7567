/-
  PiWebUi.Retention.Correspondence — retention leases and the claims of the runtime.

  Over every run of orderly steps: once no call is in flight, a session has one legacy lease
  at most, a resident lease is recorded where its claim was the last thing asked for, and no
  claim is held without a record; and a sweep that is over has come to every lease that was
  expired at its start. The runs at the end break one part each: two calls of `applyPin`,
  a lease that is applied again while it is removed, and a deletion that fails in a sweep.
-/

import PiWebUi.Retention.Claims
import PiWebUi.Lib.Run

namespace PiWebUi.Retention

open PiWebUi.Lib List

/-! ## What a step does

A record is written by a renewal, under another deadline, or by an acquisition that was
going to (`Phase.landing`); else records are only deleted. The log is written by the sweep
whose operation is over. -/

/-- The record of a lease after the step: as it was but for the deadline, or the one that the
    acquisition of call `i` was going to write. -/
def Written (s : State) (ph ph' : Phase) (l : LeaseId) (r' : PersistedApiPin) : Prop :=
  (∃ r, s.cache.get l = some r ∧ Renews r' r) ∨ (ph.landing = some r' ∧ ph'.landing = none ∧ r'.leaseId = l)

/-- The leases a sweep is at and has to come to. -/
def After.pending (l : LeaseId) : After → List LeaseId
  | .sweep _ rest _ => l :: rest.map (·.leaseId)
  | _ => []

def Phase.pending : Phase → List LeaseId
  | .queued l op => op.after.pending l
  | .waits (.remove _ r after) _ => after.pending r.leaseId
  | _ => []

/-- A sweep has others to come. -/
def After.goesOn : After → Bool
  | .sweep _ rest _ => rest ≠ []
  | _ => false

/-- A deletion has failed that has leases of its sweep after it. -/
def Phase.failing : Phase → Bool
  | .waits (.remove .delete _ after) (some false) | .waits (.remove .restore _ after) _ => after.goesOn
  | _ => false

def After.isSweep : After → Bool
  | .sweep .. => true
  | _ => false

/-- The deletion of the lease has failed. -/
def Phase.deletionFailed (l : LeaseId) : Phase → Bool
  | .waits (.remove .delete r _) (some false) | .waits (.remove .restore r _) _ => r.leaseId = l
  | _ => false

/-- A call moves, and no acquisition and no sweep begins. -/
structure Proceeds (s s' : State) (i : ℕ) (ph ph' : Phase) : Prop where
  calls : s'.calls = s.calls.set i ph'
  cache : ∀ l r', s'.cache.get l = some r' → Written s ph ph' l r'
  landing : ∀ r, ph'.landing = some r → ph.landing = some r
  next : s'.nextLease = s.nextLease
  kept : ∀ e ∈ s.log, e ∈ s'.log
  log : ∀ e ∈ s'.log, e ∈ s.log ∨
    ∃ l verdict, e = .came i l verdict ∧ l ∈ ph.pending ∧ (verdict = .removed → s'.cache.get l = none) ∧
      (verdict = .failed → ph.deletionFailed l = true)
  pending : ∀ l ∈ ph.pending, (∃ verdict, Swept.came i l verdict ∈ s'.log) ∨ l ∈ ph'.pending
  pendings : ∀ l ∈ ph'.pending, l ∈ ph.pending
  failing : ph'.failing = false

section

variable {c : Config} {s s' : State} {i : ℕ} {ph ph' : Phase} {p : Point} {a : Option Bool}

theorem written_same (hcache : s'.cache = s.cache) : ∀ l r', s'.cache.get l = some r' → Written s ph ph' l r' := by
  intro l r' hr'
  rw [hcache] at hr'
  exact .inl ⟨r', hr', r'.pinnedUntil, rfl⟩

/-- The records and the log stay, and the call comes to nothing new. -/
theorem proceeds_same (hcalls : s'.calls = s.calls.set i ph') (hcache : s'.cache = s.cache) (hnext : s'.nextLease = s.nextLease)
    (hlog : s'.log = s.log) (hlanding : ∀ r, ph'.landing = some r → ph.landing = some r) (hpending : ph'.pending = ph.pending)
    (hfailing : ph'.failing = false) : Proceeds s s' i ph ph' := by
  refine ⟨hcalls, written_same hcache, hlanding, hnext, ?_, ?_, ?_, ?_, hfailing⟩
  · exact fun e he => hlog ▸ he
  · exact fun e he => .inl (hlog ▸ he)
  · exact fun l hl => .inr (hpending ▸ hl)
  · exact fun l hl => hpending ▸ hl

theorem proceeds_goto (outcome : Outcome) (hpending : ph.pending = []) :
    Proceeds s (s.goto i (.done outcome)) i ph (.done outcome) :=
  proceeds_same rfl rfl rfl rfl nofun hpending.symm rfl

theorem proceeds_enqueue (l : LeaseId) (op : Operation) (hpending : op.after.pending l = ph.pending) :
    Proceeds s (s.enqueue i l op) i ph (.queued l op) :=
  proceeds_same rfl rfl rfl rfl nofun hpending rfl

theorem proceeds_waitAt (hlanding : ∀ r, (Phase.waits p none).landing = some r → ph.landing = some r)
    (hpending : (Phase.waits p none).pending = ph.pending) (hfailing : (Phase.waits p none).failing = false) :
    Proceeds s (s.waitAt i p) i ph (.waits p none) := by
  have hask : ∀ await, (s.ask await).cache = s.cache ∧ (s.ask await).nextLease = s.nextLease ∧
      (s.ask await).calls = s.calls ∧ (s.ask await).log = s.log := by
    intro await
    cases await <;> exact ⟨rfl, rfl, rfl, rfl⟩
  obtain ⟨hcache, hnext, hcalls, hlog⟩ := hask p.await
  refine proceeds_same ?_ hcache hnext hlog hlanding hpending hfailing
  show (s.ask p.await).calls.set i _ = _
  rw [hcalls]

theorem proceeds_clearNext (sessionId : SessionId) (rest : List PersistedApiPin) (hpending : ph.pending = []) :
    ∃ ph', Proceeds s (s.clearNext i sessionId rest) i ph ph' := by
  cases rest with
  | nil => exact ⟨_, proceeds_goto _ hpending⟩
  | cons r rest => exact ⟨_, proceeds_enqueue _ _ hpending.symm⟩

theorem proceeds_reapplyNext (rest : List PersistedApiPin) (hpending : ph.pending = []) :
    ∃ ph', Proceeds s (s.reapplyNext i rest) i ph ph' := by
  rw [State.reapplyNext]
  split
  · exact ⟨_, proceeds_goto _ hpending⟩
  · exact ⟨_, proceeds_waitAt (fun _ h => by cases h) hpending.symm rfl⟩

/-- A state with other turns. -/
theorem Proceeds.of_turns {turns : List (LeaseId × ℕ)} (h : Proceeds { s with turns } s' i ph ph') : Proceeds s s' i ph ph' :=
  ⟨h.calls, h.cache, h.landing, h.next, h.kept, h.log, h.pending, h.pendings, h.failing⟩

variable {l : LeaseId}

/-- The operation of a sweep on a lease is over, and the sweep is or goes on to the next. -/
theorem proceeds_came {rest : List PersistedApiPin} (verdict : Verdict)
    (hverdict : verdict = .removed → s.cache.get l = none) (hfailed : verdict = .failed → ph.deletionFailed l = true)
    (hpending : ph.pending = l :: rest.map (·.leaseId))
    (hcalls : s'.calls = s.calls.set i ph') (hcache : s'.cache = s.cache) (hnext : s'.nextLease = s.nextLease)
    (hlog : s'.log = s.log ++ [.came i l verdict]) (hlanding : ph'.landing = none) (hpending' : ph'.pending = rest.map (·.leaseId))
    (hfailing : ph'.failing = false) : Proceeds s s' i ph ph' := by
  refine ⟨hcalls, written_same hcache, ?_, hnext, ?_, ?_, ?_, ?_, hfailing⟩
  · intro r hr
    rw [hlanding] at hr
    cases hr
  · intro e he
    rw [hlog]
    exact mem_append_left _ he
  · intro e he
    rw [hlog] at he
    rcases mem_append.mp he with he | he
    · exact .inl he
    · refine .inr ⟨l, verdict, mem_singleton.mp he, ?_, ?_, hfailed⟩
      · rw [hpending]
        exact mem_cons_self
      · rw [hcache]
        exact hverdict
  · intro l' hl'
    rw [hpending] at hl'
    rw [hpending', hlog]
    rcases mem_cons.mp hl' with rfl | hl'
    · exact .inl ⟨verdict, mem_append_right _ (mem_singleton.mpr rfl)⟩
    · exact .inr hl'
  · intro l' hl'
    rw [hpending'] at hl'
    rw [hpending]
    exact mem_cons_of_mem _ hl'

theorem verdict_removed {outcome : Outcome} (h : s.verdict l outcome = .removed) : s.cache.get l = none := by
  unfold State.verdict at h
  split at h
  · cases h
  · split at h
    · assumption
    · cases h

theorem verdict_failed {outcome : Outcome} (h : s.verdict l outcome = .failed) : ∃ error, outcome = .threw error := by
  unfold State.verdict at h
  split at h
  · exact ⟨_, rfl⟩
  · split at h <;> cases h

theorem proceeds_finish (l : LeaseId) (sessionId : SessionId) (after : After) (outcome : Outcome)
    (hpending : ph.pending = after.pending l) (hthrew : ∀ error, outcome = .threw error → after.goesOn = false)
    (hdeletion : ∀ error, outcome = .threw error → after.isSweep = true → ph.deletionFailed l = true) :
    ∃ ph', Proceeds s (s.finish i l sessionId after outcome) i ph ph' := by
  cases after with
  | answer => exact ⟨_, (proceeds_goto outcome hpending).of_turns⟩
  | clear session rest =>
    cases outcome with
    | threw error => exact ⟨_, (proceeds_goto _ hpending).of_turns⟩
    | _ =>
      obtain ⟨ph', hph'⟩ := proceeds_clearNext (s := { s with turns := s.turns.erase (l, i) }) (i := i) session rest hpending
      exact ⟨ph', hph'.of_turns⟩
  | sweep now rest expired =>
    have hfailed : s.verdict l outcome = .failed → ph.deletionFailed l = true := by
      intro hverdict
      obtain ⟨error, herror⟩ := verdict_failed hverdict
      exact hdeletion error herror rfl
    have hnext : ∀ sessions, ∃ ph', Proceeds s (State.sweepNext { s with
        turns := s.turns.erase (l, i)
        log := s.log ++ [.came i l (s.verdict l outcome)] } i now sessions rest) i ph ph' := by
      intro sessions
      cases rest with
      | nil | cons r rest => exact ⟨_, proceeds_came _ verdict_removed hfailed hpending rfl rfl rfl rfl rfl rfl rfl⟩
    cases outcome with
    | threw error =>
      have hrest : rest = [] := by simpa [After.goesOn] using hthrew error rfl
      subst hrest
      exact ⟨_, proceeds_came (s.verdict l (.threw error)) verdict_removed hfailed hpending rfl rfl rfl rfl rfl rfl rfl⟩
    | removed removed =>
      cases removed with
      | true => exact hnext (expired ++ [sessionId])
      | false => exact hnext expired
    | _ => exact hnext expired

theorem proceeds_remove (r : PersistedApiPin) (after : After) (hr : r.leaseId = l)
    (hpending : ph.pending = after.pending l) : ∃ ph', Proceeds s (s.remove i r after) i ph ph' := by
  subst hr
  rw [State.remove]
  split <;> exact ⟨_, proceeds_waitAt (fun _ h => by cases h) hpending.symm rfl⟩

theorem goesOn_sweep {after : After} (h : after.isSweep = false) : after.goesOn = false := by
  cases after with
  | sweep => cases h
  | _ => rfl

theorem proceeds_operate (h : Inv s) (op : Operation) : ∃ ph', Proceeds s (s.operate c i l op) i (.queued l op) ph' := by
  have hfinish : ∀ sessionId outcome, (∀ error, outcome = .threw error → op.after.isSweep = false) →
      ∃ ph', Proceeds s (s.finish i l sessionId op.after outcome) i (.queued l op) ph' := by
    intro sessionId outcome hthrew
    refine proceeds_finish l sessionId op.after outcome rfl (fun error herror => goesOn_sweep (hthrew error herror)) ?_
    intro error herror hsweep
    rw [hthrew error herror] at hsweep
    cases hsweep
  have hremove : ∀ {r}, s.cache.get l = some r → ∃ ph', Proceeds s (s.remove i r op.after) i (.queued l op) ph' :=
    fun hr => proceeds_remove _ op.after (h.keyed _ _ hr) rfl
  have hreleases : ∀ sessionId ownerId rest, (Operation.release sessionId ownerId rest).after.isSweep = false := by
    intro sessionId ownerId rest
    cases rest <;> rfl
  unfold State.operate
  split
  · dsimp only
    split
    · exact hfinish _ _ fun _ _ => rfl
    split <;> exact ⟨_, proceeds_waitAt nofun rfl rfl⟩
  · exact hfinish _ _ fun _ _ => rfl
  next hr =>
    split
    · exact hfinish _ _ fun _ _ => hreleases _ _ _
    split
    · exact hfinish _ _ fun _ _ => hreleases _ _ _
    · exact hremove hr
  · exact hfinish _ _ fun _ _ => hreleases _ _ _
  next hr =>
    split
    · exact hfinish _ _ nofun
    · exact hremove hr
  · exact hfinish _ _ nofun

theorem proceeds_resume (p : Point) (ok : Bool) (hfailing : (Phase.waits p (some ok)).failing = false) :
    ∃ ph', Proceeds s (s.resume i ok p) i (.waits p (some ok)) ph' := by
  have hwait : ∀ {q : Point}, (Phase.waits q none).landing = none → (Phase.waits q none).pending = (Phase.waits p (some ok)).pending →
      (Phase.waits q none).failing = false → ∃ ph', Proceeds s (s.waitAt i q) i (.waits p (some ok)) ph' := by
    intro q hq hpending hfailing
    refine ⟨_, proceeds_waitAt (fun r hr => ?_) hpending hfailing⟩
    rw [hq] at hr
    cases hr
  cases p with
  | acquire stage r =>
    cases stage with
    | pin =>
      cases ok with
      | true => exact ⟨_, proceeds_waitAt (fun r hr => hr) rfl rfl⟩
      | false => exact ⟨_, proceeds_same rfl rfl rfl rfl (fun _ h => by cases h) rfl rfl⟩
    | save =>
      simp only [State.resume]
      split
      · exact ⟨_, proceeds_goto _ rfl⟩
      split <;> exact hwait rfl rfl rfl
    | unpin => exact hwait rfl rfl rfl
    | drop => exact ⟨_, proceeds_goto _ rfl⟩
  | renew stage u =>
    cases stage with
    | pin =>
      simp only [State.resume]
      split
      · exact hwait rfl rfl rfl
      · exact proceeds_finish _ _ .answer _ rfl (fun _ _ => rfl) (fun _ h => by cases h)
    | save => exact proceeds_finish u.leaseId u.sessionId .answer _ rfl (fun _ _ => rfl) (fun _ _ h => by cases h)
  | remove stage r after =>
    cases stage with
    | unpin => exact hwait rfl rfl rfl
    | delete =>
      cases ok with
      | true =>
        refine proceeds_finish _ _ _ _ rfl (fun error herror => ?_) fun error herror => ?_
        all_goals cases after <;> cases herror
      | false =>
        simp only [State.resume, Bool.false_eq_true, if_false]
        split
        · exact hwait rfl rfl hfailing
        · exact proceeds_finish _ _ _ _ rfl (fun _ _ => hfailing) fun _ _ _ => decide_eq_true rfl
    | restore => exact proceeds_finish r.leaseId r.sessionId after _ rfl (fun _ _ => hfailing) fun _ _ _ => decide_eq_true rfl
  | reapply r rest => exact proceeds_reapplyNext rest rfl

/-- A write is that of a renewal or of an acquisition. -/
theorem proceeds_settle (h : Inv s) (hi : s.calls[i]? = some (.waits p none)) {ok : Bool}
    (ho : orderly s (.settle i ok) = true) (hfails : (Phase.waits p none).failing = false) :
    Proceeds s ((s.settle ok p.await).goto i (.waits p (some ok))) i (.waits p none) (.waits p (some ok)) := by
  have hlanding : ∀ r, (Phase.waits p (some ok)).landing = some r → (Phase.waits p none).landing = some r := by
    intro r hr
    cases p with
    | acquire stage r' =>
      cases stage with
      | pin =>
        cases ok with
        | true => exact hr
        | false => cases hr
      | _ => cases hr
    | _ => cases hr
  have hpending : (Phase.waits p (some ok)).pending = (Phase.waits p none).pending := by
    cases p <;> rfl
  have hfailing : (Phase.waits p (some ok)).failing = false := by
    cases p with
    | remove stage r after =>
      cases stage with
      | unpin => rfl
      | delete =>
        cases ok with
        | true => rfl
        | false =>
          cases after with
          | sweep now rest expired =>
            simp only [orderly, hi, Bool.false_or, decide_eq_true_eq] at ho
            simp [Phase.failing, After.goesOn, ho]
          | _ => rfl
      | restore => exact hfails
    | _ => rfl
  have hmoved : ∀ {t : State}, t.calls = s.calls → t.nextLease = s.nextLease → t.log = s.log →
      (∀ l r', t.cache.get l = some r' → Written s (.waits p none) (.waits p (some ok)) l r') →
      Proceeds s (t.goto i (.waits p (some ok))) i (.waits p none) (.waits p (some ok)) := by
    intro t hcalls hnext hlog hcache
    refine ⟨?_, hcache, hlanding, hnext, fun e he => hlog ▸ he, fun e he => .inl (hlog ▸ he), fun l hl => .inr (hpending ▸ hl),
      fun l hl => hpending ▸ hl, hfailing⟩
    show t.calls.set i _ = _
    rw [hcalls]
  cases hawait : p.await with
  | pin l | unpin l => exact hmoved rfl rfl rfl (written_same rfl)
  | save u =>
    cases ok with
    | false => exact hmoved rfl rfl rfl (written_same rfl)
    | true =>
      refine hmoved (t := { s with cache := s.cache.set u.leaseId u }) rfl rfl rfl ?_
      intro l r' hr'
      by_cases hl : l = u.leaseId
      · subst hl
        rw [JsMap.get_set_same] at hr'
        cases hr'
        cases p with
        | acquire stage r =>
          cases stage <;> cases hawait
          exact .inr ⟨rfl, rfl, rfl⟩
        | renew stage r =>
          cases stage <;> cases hawait
          obtain ⟨hrecord, _⟩ := (h.accounted _).fits i _ none ⟨hi, rfl⟩
          exact .inl hrecord
        | remove stage r after => cases stage <;> cases hawait
        | reapply r rest => cases hawait
      · rw [JsMap.get_set_ne _ _ hl] at hr'
        exact .inl ⟨r', hr', r'.pinnedUntil, rfl⟩
  | delete l' =>
    cases ok with
    | false => exact hmoved rfl rfl rfl (written_same rfl)
    | true =>
      refine hmoved (t := { s with cache := s.cache.delete l' }) rfl rfl rfl ?_
      intro l r' hr'
      by_cases hl : l = l'
      · subst hl
        rw [JsMap.get_delete_same] at hr'
        cases hr'
      · rw [JsMap.get_delete_ne _ hl] at hr'
        exact .inl ⟨r', hr', r'.pinnedUntil, rfl⟩

/-! ## One legacy lease -/

/-- A session has a legacy lease at most, recorded or being acquired. -/
structure OneLegacy (s : State) : Prop where
  recorded : ∀ l l' r r', s.cache.get l = some r → s.cache.get l' = some r' → r.isLegacy = true → r'.isLegacy = true →
    r.sessionId = r'.sessionId → l = l'
  landing : ∀ (j : ℕ) (ph : Phase) l r r', s.calls[j]? = some ph → ph.landing = some r → r.isLegacy = true →
    s.cache.get l = some r' → r'.isLegacy = true → r.sessionId ≠ r'.sessionId
  single : ∀ (j k : ℕ) (ph ph' : Phase) r r', s.calls[j]? = some ph → s.calls[k]? = some ph' → ph.landing = some r →
    ph'.landing = some r' → r.isLegacy = true → r'.isLegacy = true → r.sessionId = r'.sessionId → j = k

theorem Renews.legacy {u r : PersistedApiPin} (h : Renews u r) : u.isLegacy = r.isLegacy ∧ u.sessionId = r.sessionId := by
  obtain ⟨pinnedUntil, rfl⟩ := h
  exact ⟨rfl, rfl⟩

theorem OneLegacy.proceeds (h : OneLegacy s) (hi : s.calls[i]? = some ph) (hp : Proceeds s s' i ph ph') : OneLegacy s' := by
  have hcall : ∀ (j : ℕ) (ph₁ : Phase) r, s'.calls[j]? = some ph₁ → ph₁.landing = some r →
      ∃ ph₀, s.calls[j]? = some ph₀ ∧ ph₀.landing = some r := by
    intro j ph₁ r hj hr
    rw [hp.calls] at hj
    rcases InFlight.get_set hj with ⟨rfl, rfl⟩ | ⟨_, hj⟩
    · exact ⟨ph, hi, hp.landing r hr⟩
    · exact ⟨ph₁, hj, hr⟩
  constructor
  · intro l l' r r' hr hr' hlegacy hlegacy' hsession
    rcases hp.cache l r hr with ⟨r₀, hr₀, hrenews⟩ | ⟨hlands, -, hl⟩ <;>
      rcases hp.cache l' r' hr' with ⟨r₀', hr₀', hrenews'⟩ | ⟨hlands', -, hl'⟩
    · rw [hrenews.legacy.1] at hlegacy
      rw [hrenews'.legacy.1] at hlegacy'
      rw [hrenews.legacy.2, hrenews'.legacy.2] at hsession
      exact h.recorded l l' r₀ r₀' hr₀ hr₀' hlegacy hlegacy' hsession
    · rw [hrenews.legacy.1] at hlegacy
      rw [hrenews.legacy.2] at hsession
      exact absurd hsession.symm (h.landing i ph l r' r₀ hi hlands' hlegacy' hr₀ hlegacy)
    · rw [hrenews'.legacy.1] at hlegacy'
      rw [hrenews'.legacy.2] at hsession
      exact absurd hsession (h.landing i ph l' r r₀' hi hlands hlegacy hr₀' hlegacy')
    · rw [hlands] at hlands'
      rw [← hl, ← hl', Option.some.inj hlands']
  · intro j ph₁ l r r' hj hr hlegacy hr' hlegacy' hsession
    obtain ⟨ph₀, hj₀, hr₀⟩ := hcall j ph₁ r hj hr
    rcases hp.cache l r' hr' with ⟨r₀, hrecord, hrenews⟩ | ⟨hlands, hnone, -⟩
    · rw [hrenews.legacy.1] at hlegacy'
      rw [hrenews.legacy.2] at hsession
      exact h.landing j ph₀ l r r₀ hj₀ hr₀ hlegacy hrecord hlegacy' hsession
    · obtain rfl := h.single j i ph₀ ph r r' hj₀ hi hr₀ hlands hlegacy hlegacy' hsession
      rw [hp.calls, InFlight.set_self _ hi] at hj
      cases hj
      rw [hnone] at hr
      cases hr
  · intro j k ph₁ ph₂ r r' hj hk hr hr' hlegacy hlegacy' hsession
    obtain ⟨ph₁', hj', hr₁⟩ := hcall j ph₁ r hj hr
    obtain ⟨ph₂', hk', hr₂⟩ := hcall k ph₂ r' hk hr'
    exact h.single j k ph₁' ph₂' r r' hj' hk' hr₁ hr₂ hlegacy hlegacy' hsession

theorem OneLegacy.begin (h : OneLegacy s) : OneLegacy s.begin := by
  have hcall : ∀ (j : ℕ) (ph : Phase) r, s.begin.calls[j]? = some ph → ph.landing = some r → s.calls[j]? = some ph := by
    intro j ph r hj hr
    rcases InFlight.get_append hj with hj | ⟨-, rfl⟩
    · exact hj
    · cases hr
  constructor
  · exact h.recorded
  · exact fun j ph l r r' hj hr => h.landing j ph l r r' (hcall j ph r hj hr) hr
  · exact fun j k ph ph' r r' hj hk hr hr' => h.single j k ph ph' r r' (hcall j ph r hj hr) (hcall k ph' r' hk hr') hr hr'

/-- No acquisition of a legacy lease is on its way for the session, and none is recorded. -/
theorem legacyFree_spec {sessionId : SessionId} (h : s.legacyFree sessionId = true) :
    (∀ l r, s.cache.get l = some r → r.isLegacy = true → r.sessionId ≠ sessionId) ∧
      ∀ (j : ℕ) (ph : Phase) r, s.calls[j]? = some ph → ph.landing = some r → r.isLegacy = true → r.sessionId ≠ sessionId := by
  rw [State.legacyFree, Bool.and_eq_true, Option.isNone_iff_eq_none, Bool.not_eq_true', any_eq_false] at h
  constructor
  · intro l r hr hlegacy hsession
    have hmem : r ∈ s.listForSession sessionId := by
      rw [State.listForSession, mem_filter]
      exact ⟨mem_map.mpr ⟨(l, r), JsMap.get_eq_some.mp hr, rfl⟩, decide_eq_true hsession⟩
    exact find?_eq_none.mp h.1 r hmem hlegacy
  · intro j ph r hj hr hlegacy hsession
    apply h.2 ph (mem_of_getElem? hj)
    rw [hr, Option.any_some, hlegacy, Bool.true_and]
    exact decide_eq_true hsession

/-- A call begins, and acquires a lease at most. -/
theorem OneLegacy.begins (h : OneLegacy s) (hcalls : s'.calls = s.calls.set i ph') (hcache : s'.cache = s.cache)
    (hfree : ∀ r, ph'.landing = some r → r.isLegacy = true → s.legacyFree r.sessionId = true) : OneLegacy s' := by
  have hcall : ∀ (j : ℕ) (ph : Phase), s'.calls[j]? = some ph → (j = i ∧ ph = ph') ∨ s.calls[j]? = some ph := by
    intro j ph hj
    rw [hcalls] at hj
    rcases InFlight.get_set hj with hj | ⟨_, hj⟩
    · exact .inl hj
    · exact .inr hj
  constructor
  · rw [hcache]
    exact h.recorded
  · intro j ph l r r' hj hr hlegacy hr' hlegacy' hsession
    rw [hcache] at hr'
    rcases hcall j ph hj with ⟨_, rfl⟩ | hj
    · exact (legacyFree_spec (hfree r hr hlegacy)).1 l r' hr' hlegacy' hsession.symm
    · exact h.landing j ph l r r' hj hr hlegacy hr' hlegacy' hsession
  · intro j k ph₁ ph₂ r r' hj hk hr hr' hlegacy hlegacy' hsession
    rcases hcall j ph₁ hj with ⟨hji, hph₁⟩ | hj <;> rcases hcall k ph₂ hk with ⟨hki, hph₂⟩ | hk
    · rw [hji, hki]
    · subst hph₁
      exact absurd hsession.symm ((legacyFree_spec (hfree r hr hlegacy)).2 k ph₂ r' hk hr' hlegacy')
    · subst hph₂
      exact absurd hsession ((legacyFree_spec (hfree r' hr' hlegacy')).2 j ph₁ r hj hr hlegacy)
    · exact h.single j k ph₁ ph₂ r r' hj hk hr hr' hlegacy hlegacy' hsession

/-! ## Calls that begin -/

theorem landing_newRecord {sessionId : SessionId} {options : ApplyPinOptions} :
    ∃ ph', (s.acquireLease c i sessionId options).calls = s.calls.set i ph' ∧
      (s.acquireLease c i sessionId options).cache = s.cache ∧
      (s.acquireLease c i sessionId options).nextLease = s.nextLease + 1 ∧
      (s.acquireLease c i sessionId options).log = s.log ∧ ph'.pending = [] ∧ ph'.failing = false ∧
      ∀ r', ph'.landing = some r' → r' = s.newRecord c sessionId options := by
  rw [State.acquireLease]
  split <;> exact ⟨_, rfl, rfl, rfl, rfl, rfl, rfl, fun r' hr' => (Option.some.inj hr').symm⟩

theorem legacyFree_begin (sessionId : SessionId) : s.begin.legacyFree sessionId = s.legacyFree sessionId := by
  rw [State.legacyFree, State.legacyFree]
  show (_ && !(s.calls ++ [Phase.done .released]).any _) = _
  rw [any_append]
  have hdone : [Phase.done .released].any (fun ph => ph.landing.any fun r => r.isLegacy && r.sessionId = sessionId) = false := rfl
  rw [hdone, Bool.or_false]
  rfl

/-- What a call that begins does: it acquires a lease, starts a sweep, or does neither. -/
theorem begins (s : State) (k : Call) (ho : orderly s (.call k) = true) :
    (∃ sessionId options, step c s (.call k) = s.begin.acquireLease c s.calls.length sessionId options ∧
      (options.ownerId = some legacyOwner → s.legacyFree sessionId = true)) ∨
    (k = .expireNow) ∨ ∃ ph', Proceeds s.begin (step c s (.call k)) s.calls.length (.done .released) ph' := by
  cases k with
  | applyPin sessionId options =>
    show (∃ _ _, s.begin.call c s.calls.length (.applyPin sessionId options) = _ ∧ _) ∨ _ ∨
      ∃ ph', Proceeds _ (s.begin.call c s.calls.length (.applyPin sessionId options)) _ _ ph'
    simp only [State.call]
    split
    · exact .inr (.inr ⟨_, proceeds_enqueue _ _ rfl⟩)
    next hnone =>
      refine .inl ⟨sessionId, _, rfl, fun _ => ?_⟩
      have hnone' : s.findLegacy sessionId = none := hnone
      rw [orderly, hnone'] at ho
      exact ho
  | acquireLease sessionId options =>
    refine .inl ⟨sessionId, options, rfl, fun hlegacy => ?_⟩
    rw [orderly, hlegacy] at ho
    simpa using ho
  | renewLease sessionId leaseId ttlSeconds => exact .inr (.inr ⟨_, proceeds_enqueue _ _ rfl⟩)
  | releaseLease sessionId leaseId ownerId => exact .inr (.inr ⟨_, proceeds_enqueue _ _ rfl⟩)
  | releaseLegacyLease sessionId =>
    right
    right
    show ∃ ph', Proceeds _ (s.begin.call c s.calls.length (.releaseLegacyLease sessionId)) _ _ ph'
    simp only [State.call]
    split
    · exact ⟨_, proceeds_enqueue _ _ rfl⟩
    · exact ⟨_, proceeds_goto _ rfl⟩
  | clear sessionId => exact .inr (.inr (proceeds_clearNext sessionId _ rfl))
  | expireNow => exact .inr (.inl rfl)
  | reapplyForSession sessionId => exact .inr (.inr (proceeds_reapplyNext _ rfl))

/-- What any other step does: a call moves, or nothing that is recorded changes. -/
theorem moves_on (h : Inv s) (hfailing : ∀ (i : ℕ) (ph : Phase), s.calls[i]? = some ph → ph.failing = false) (e : Step)
    (hcall : ∀ k, e ≠ .call k) (ho : orderly s e = true) :
    (∃ (i : ℕ) (ph ph' : Phase), s.calls[i]? = some ph ∧ Proceeds s (step c s e) i ph ph') ∨
    (step c s e).calls = s.calls ∧ (step c s e).cache = s.cache ∧ (step c s e).nextLease = s.nextLease ∧
      (step c s e).log = s.log := by
  cases e with
  | call k => exact absurd rfl (hcall k)
  | turn i =>
    simp only [step]
    split
    next l op hi =>
      split
      · obtain ⟨ph', hph'⟩ := proceeds_operate (c := c) (i := i) h (l := l) op
        exact .inl ⟨i, _, ph', hi, hph'⟩
      · exact .inr ⟨rfl, rfl, rfl, rfl⟩
    next => exact .inr ⟨rfl, rfl, rfl, rfl⟩
  | settle i ok =>
    simp only [step]
    split
    next p hi => exact .inl ⟨i, _, _, hi, proceeds_settle h hi ho (hfailing i _ hi)⟩
    next => exact .inr ⟨rfl, rfl, rfl, rfl⟩
  | resume i =>
    simp only [step]
    split
    next p ok hi =>
      obtain ⟨ph', hph'⟩ := proceeds_resume (s := s) (i := i) p ok (hfailing i _ hi)
      exact .inl ⟨i, _, ph', hi, hph'⟩
    next => exact .inr ⟨rfl, rfl, rfl, rfl⟩
  | clock now | dispose l => exact .inr ⟨rfl, rfl, rfl, rfl⟩

/-! ## Sweeps -/

/-- The lease was recorded; no acquisition will write it again. -/
def Landed (s : State) (l : LeaseId) : Prop :=
  l < s.nextLease ∧ ∀ (i : ℕ) (ph : Phase) r, s.calls[i]? = some ph → ph.landing = some r → r.leaseId ≠ l

structure Swept.Inv (s : State) : Prop where
  due : ∀ i l, Swept.due i l ∈ s.log → i < s.calls.length
  landed : ∀ (i : ℕ) (ph : Phase) l, s.calls[i]? = some ph → l ∈ ph.pending → Landed s l
  covered : ∀ (i : ℕ) (ph : Phase) l, s.calls[i]? = some ph → Swept.due i l ∈ s.log →
    (∃ verdict, Swept.came i l verdict ∈ s.log) ∨ l ∈ ph.pending
  came : ∀ i l, Swept.came i l .removed ∈ s.log → Landed s l ∧ s.cache.get l = none
  failing : ∀ (i : ℕ) (ph : Phase), s.calls[i]? = some ph → ph.failing = false

theorem Landed.proceeds (h : Landed s l) (hi : s.calls[i]? = some ph) (hp : Proceeds s s' i ph ph') : Landed s' l := by
  refine ⟨hp.next ▸ h.1, ?_⟩
  intro j ph₁ r hj hr
  rw [hp.calls] at hj
  rcases InFlight.get_set hj with ⟨rfl, rfl⟩ | ⟨_, hj⟩
  · exact h.2 j ph r hi (hp.landing r hr)
  · exact h.2 j ph₁ r hj hr

/-- A record that was deleted is not written again. -/
theorem Landed.gone (h : Landed s l) (hnone : s.cache.get l = none) (hi : s.calls[i]? = some ph)
    (hp : Proceeds s s' i ph ph') : s'.cache.get l = none := by
  cases hr : s'.cache.get l with
  | none => rfl
  | some r' =>
    rcases hp.cache l r' hr with ⟨r, hrecord, _⟩ | ⟨hlands, -, hl⟩
    · rw [hnone] at hrecord
      cases hrecord
    · exact absurd hl (h.2 i ph r' hi hlands)

theorem Swept.Inv.proceeds (h : Swept.Inv s) (hi : s.calls[i]? = some ph) (hp : Proceeds s s' i ph ph') : Swept.Inv s' := by
  have hlength : s'.calls.length = s.calls.length := by rw [hp.calls, length_set]
  constructor
  · intro j l hdue
    rw [hlength]
    rcases hp.log _ hdue with hdue | ⟨_, _, heq, _⟩
    · exact h.due j l hdue
    · cases heq
  · intro j ph₁ l hj hl
    rw [hp.calls] at hj
    rcases InFlight.get_set hj with ⟨rfl, rfl⟩ | ⟨_, hj⟩
    · exact (h.landed j ph l hi (hp.pendings l hl)).proceeds hi hp
    · exact (h.landed j ph₁ l hj hl).proceeds hi hp
  · intro j ph₁ l hj hdue
    have hdue' : Swept.due j l ∈ s.log := by
      rcases hp.log _ hdue with hdue | ⟨_, _, heq, _⟩
      · exact hdue
      · cases heq
    rw [hp.calls] at hj
    rcases InFlight.get_set hj with ⟨rfl, rfl⟩ | ⟨_, hj⟩
    · rcases h.covered j ph l hi hdue' with ⟨verdict, hcame⟩ | hpending
      · exact .inl ⟨verdict, hp.kept _ hcame⟩
      · exact hp.pending l hpending
    · rcases h.covered j ph₁ l hj hdue' with ⟨verdict, hcame⟩ | hpending
      · exact .inl ⟨verdict, hp.kept _ hcame⟩
      · exact .inr hpending
  · intro j l hcame
    rcases hp.log _ hcame with hcame | ⟨l', verdict, heq, hpending, hnone, _⟩
    · obtain ⟨hlanded, hnone⟩ := h.came j l hcame
      exact ⟨hlanded.proceeds hi hp, hlanded.gone hnone hi hp⟩
    · cases heq
      exact ⟨(h.landed i ph l hi hpending).proceeds hi hp, hnone rfl⟩
  · intro j ph₁ hj
    rw [hp.calls] at hj
    rcases InFlight.get_set hj with ⟨_, rfl⟩ | ⟨_, hj⟩
    · exact hp.failing
    · exact h.failing j ph₁ hj

theorem Landed.begin (h : Landed s l) : Landed s.begin l := by
  refine ⟨h.1, ?_⟩
  intro j ph r hj hr
  rcases InFlight.get_append hj with hj | ⟨-, rfl⟩
  · exact h.2 j ph r hj hr
  · cases hr

theorem Swept.Inv.begin (h : Swept.Inv s) : Swept.Inv s.begin := by
  have hlength : s.begin.calls.length = s.calls.length + 1 := length_append
  constructor
  · intro j l hdue
    have hlt := h.due j l hdue
    omega
  · intro j ph l hj hl
    rcases InFlight.get_append hj with hj | ⟨-, rfl⟩
    · exact (h.landed j ph l hj hl).begin
    · cases hl
  · intro j ph l hj hdue
    have hlt := h.due j l hdue
    obtain ⟨ph₀, hph₀⟩ : ∃ ph₀, s.calls[j]? = some ph₀ := ⟨_, getElem?_eq_getElem hlt⟩
    have hbegin := InFlight.append_left (Phase.done .released) hph₀
    obtain rfl := Option.some.inj (hj.symm.trans hbegin)
    exact h.covered j ph l hph₀ hdue
  · intro j l hcame
    obtain ⟨hlanded, hnone⟩ := h.came j l hcame
    exact ⟨hlanded.begin, hnone⟩
  · intro j ph hj
    rcases InFlight.get_append hj with hj | ⟨-, rfl⟩
    · exact h.failing j ph hj
    · rfl

/-- The call acquires a lease, under an id that was not given before. -/
theorem Swept.Inv.acquires (h : Swept.Inv s) {outcome : Outcome} (hi : s.calls[i]? = some (.done outcome))
    (sessionId : SessionId) (options : ApplyPinOptions) : Swept.Inv (s.acquireLease c i sessionId options) := by
  obtain ⟨ph', hcalls, hcache, hnext, hlog, hpending, hfailing, hlanding⟩ :=
    @landing_newRecord c s i sessionId options
  have hlanded : ∀ l, Landed s l → Landed (s.acquireLease c i sessionId options) l := by
    intro l hl
    refine ⟨hnext ▸ Nat.lt_succ_of_lt hl.1, ?_⟩
    intro j ph r hj hr
    rw [hcalls] at hj
    rcases InFlight.get_set hj with ⟨rfl, rfl⟩ | ⟨_, hj⟩
    · rw [hlanding r hr]
      exact Ne.symm (Nat.ne_of_lt hl.1)
    · exact hl.2 j ph r hj hr
  constructor
  · intro j l hdue
    rw [hlog] at hdue
    rw [hcalls, length_set]
    exact h.due j l hdue
  · intro j ph l hj hl
    rw [hcalls] at hj
    rcases InFlight.get_set hj with ⟨rfl, rfl⟩ | ⟨_, hj⟩
    · rw [hpending] at hl
      cases hl
    · exact hlanded l (h.landed j ph l hj hl)
  · intro j ph l hj hdue
    rw [hlog] at hdue ⊢
    rw [hcalls] at hj
    rcases InFlight.get_set hj with ⟨rfl, rfl⟩ | ⟨_, hj⟩
    · rcases h.covered j _ l hi hdue with hcame | hnone
      · exact .inl hcame
      · cases hnone
    · exact h.covered j ph l hj hdue
  · intro j l hcame
    rw [hlog] at hcame
    rw [hcache]
    obtain ⟨hl, hnone⟩ := h.came j l hcame
    exact ⟨hlanded l hl, hnone⟩
  · intro j ph hj
    rw [hcalls] at hj
    rcases InFlight.get_set hj with ⟨_, rfl⟩ | ⟨_, hj⟩
    · exact hfailing
    · exact h.failing j ph hj

theorem landed_of_record (h : Inv s) {r : PersistedApiPin} (hr : s.cache.get l = some r) : Landed s l := by
  refine ⟨h.lt_of_record hr, ?_⟩
  rintro j ph r' hj hlands rfl
  have hnone : ∀ stage a, ph = .waits (.acquire stage r') a → Phase.landing ph = some r' → s.cache.get r'.leaseId = none := by
    intro stage a hph hlands
    subst hph
    have hfits := (h.accounted r'.leaseId).fits j _ a ⟨hj, rfl⟩
    cases stage with
    | pin => exact hfits.1
    | save =>
      cases a with
      | none => exact hfits.1
      | some ok => cases hlands
    | unpin | drop => cases hlands
  cases ph with
  | waits p a =>
    cases p with
    | acquire stage r₀ =>
      have hsame : r₀ = r' := by
        cases stage with
        | pin =>
          simp only [Phase.landing] at hlands
          split at hlands
          · cases hlands
          · exact Option.some.inj hlands
        | save =>
          cases a with
          | none => exact Option.some.inj hlands
          | some ok => cases hlands
        | unpin | drop => cases hlands
      subst hsame
      rw [hnone stage a rfl hlands] at hr
      cases hr
    | renew stage u | remove stage r₀ after | reapply r₀ rest => cases hlands
  | queued l op | done outcome => cases hlands

theorem sweepNext_same (s : State) (i now : ℕ) (expired : List SessionId) (rest : List PersistedApiPin) :
    (s.sweepNext i now expired rest).log = s.log ∧ (s.sweepNext i now expired rest).cache = s.cache ∧
      (s.sweepNext i now expired rest).nextLease = s.nextLease := by
  cases rest <;> exact ⟨rfl, rfl, rfl⟩

theorem sweep_starts : ∃ ph' : Phase,
    (step c s (.call .expireNow)).calls = s.begin.calls.set s.calls.length ph' ∧ ph'.pending = s.due.map (·.leaseId) ∧
      ph'.failing = false ∧ ph'.landing = none := by
  show ∃ ph' : Phase, (State.sweepNext _ s.calls.length s.now [] s.due).calls = _ ∧ _
  cases s.due with
  | nil | cons r rest => exact ⟨_, rfl, rfl, rfl, rfl⟩

/-- A sweep starts: the leases that are expired are those it has to come to. -/
theorem starts_swept (h : Swept.Inv s) (hinv : Inv s) : Swept.Inv (step c s (.call .expireNow)) := by
  have hdueLanded : ∀ l ∈ s.due.map (·.leaseId), Landed s l := by
    intro l hl
    obtain ⟨r, hr, rfl⟩ := mem_map.mp hl
    obtain ⟨e, he, hval⟩ := mem_map.mp (mem_filter.mp hr).1
    have hget := JsMap.get_of_mem he
    have hkey := hinv.keyed _ _ hget
    rw [hval] at hget hkey
    rw [hkey]
    exact landed_of_record hinv hget
  obtain ⟨ph', hcalls, hpending, hfailing, hlanding⟩ := sweep_starts (c := c) (s := s)
  have hlog : (step c s (.call .expireNow)).log = s.log ++ s.due.map fun r => Swept.due s.calls.length r.leaseId := by
    exact (sweepNext_same _ _ _ _ _).1
  have hsame : (step c s (.call .expireNow)).cache = s.cache ∧ (step c s (.call .expireNow)).nextLease = s.nextLease := by
    exact (sweepNext_same _ _ _ _ _).2
  have hmem : ∀ e, e ∈ (step c s (.call .expireNow)).log → e ∈ s.log ∨ ∃ l ∈ s.due.map (·.leaseId), e = .due s.calls.length l := by
    intro e he
    rw [hlog] at he
    rcases mem_append.mp he with he | he
    · exact .inl he
    · obtain ⟨r, hr, rfl⟩ := mem_map.mp he
      exact .inr ⟨r.leaseId, mem_map_of_mem hr, rfl⟩
  have hlanded : ∀ l, Landed s l → Landed (step c s (.call .expireNow)) l := by
    intro l hl
    refine ⟨hsame.2 ▸ hl.1, ?_⟩
    intro j ph r hj hr
    rw [hcalls] at hj
    rcases InFlight.get_set hj with ⟨_, rfl⟩ | ⟨_, hj⟩
    · rw [hlanding] at hr
      cases hr
    · exact hl.begin.2 j ph r hj hr
  have hlength : (step c s (.call .expireNow)).calls.length = s.calls.length + 1 := by
    rw [hcalls, length_set]
    exact length_append
  have hbegin := h.begin
  constructor
  · intro j l hdue
    rcases hmem _ hdue with hdue | ⟨_, _, heq⟩
    · have hlt := h.due j l hdue
      omega
    · cases heq
      omega
  · intro j ph l hj hl
    rw [hcalls] at hj
    rcases InFlight.get_set hj with ⟨_, rfl⟩ | ⟨hne, hj⟩
    · rw [hpending] at hl
      exact hlanded l (hdueLanded l hl)
    · rcases InFlight.get_append hj with hj | ⟨-, rfl⟩
      · exact hlanded l (h.landed j ph l hj hl)
      · cases hl
  · intro j ph l hj hdue
    rw [hcalls] at hj
    rcases hmem _ hdue with hdue | ⟨l', hl', heq⟩
    · have hlt := h.due j l hdue
      rcases InFlight.get_set hj with ⟨rfl, _⟩ | ⟨_, hj⟩
      · omega
      · rcases hbegin.covered j ph l hj hdue with ⟨verdict, hcame⟩ | hpending
        · exact .inl ⟨verdict, hlog ▸ mem_append_left _ hcame⟩
        · exact .inr hpending
    · cases heq
      rcases InFlight.get_set hj with ⟨_, rfl⟩ | ⟨hne, _⟩
      · rw [hpending]
        exact .inr hl'
      · exact absurd rfl hne
  · intro j l hcame
    rcases hmem _ hcame with hcame | ⟨_, _, heq⟩
    · obtain ⟨hl, hnone⟩ := h.came j l hcame
      rw [hsame.1]
      exact ⟨hlanded l hl, hnone⟩
    · cases heq
  · intro j ph hj
    rw [hcalls] at hj
    rcases InFlight.get_set hj with ⟨_, rfl⟩ | ⟨_, hj⟩
    · exact hfailing
    · exact hbegin.failing j ph hj

/-! ## The correspondence -/

structure Sound (s : State) : Prop where
  account : Inv s
  legacy : OneLegacy s
  swept : Swept.Inv s

theorem Sound.call (h : Sound s) (k : Call) (ho : orderly s (.call k) = true) : Sound (step c s (.call k)) := by
  refine ⟨inv_step s _ h.account ho, ?_, ?_⟩
  · rcases begins (c := c) s k ho with ⟨sessionId, options, heq, hfree⟩ | rfl | ⟨ph', hp⟩
    · rw [heq]
      obtain ⟨ph', hcalls, hcache, -, -, -, -, hlanding⟩ :=
        @landing_newRecord c s.begin s.calls.length sessionId options
      refine h.legacy.begin.begins hcalls hcache ?_
      intro r hr hlegacy
      rw [hlanding r hr] at hlegacy ⊢
      show s.begin.legacyFree sessionId = true
      rw [legacyFree_begin]
      exact hfree (of_decide_eq_true hlegacy)
    · obtain ⟨ph', hcalls, -, -, hlanding⟩ := sweep_starts (c := c) (s := s)
      refine h.legacy.begin.begins hcalls (sweepNext_same _ _ _ _ _).2.1 ?_
      intro r hr
      rw [hlanding] at hr
      cases hr
    · exact h.legacy.begin.proceeds (begin_get s) hp
  · rcases begins (c := c) s k ho with ⟨sessionId, options, heq, -⟩ | rfl | ⟨ph', hp⟩
    · rw [heq]
      exact h.swept.begin.acquires (begin_get s) sessionId options
    · exact starts_swept h.swept h.account
    · exact h.swept.begin.proceeds (begin_get s) hp

theorem OneLegacy.of_same (h : OneLegacy s) (hcalls : s'.calls = s.calls) (hcache : s'.cache = s.cache) : OneLegacy s' := by
  constructor
  · rw [hcache]
    exact h.recorded
  · rw [hcalls, hcache]
    exact h.landing
  · rw [hcalls]
    exact h.single

theorem Swept.Inv.of_same (h : Swept.Inv s) (hcalls : s'.calls = s.calls) (hcache : s'.cache = s.cache)
    (hnext : s'.nextLease = s.nextLease) (hlog : s'.log = s.log) : Swept.Inv s' := by
  have hlanded : ∀ l, Landed s l → Landed s' l := by
    intro l hl
    unfold Landed
    rw [hcalls, hnext]
    exact hl
  constructor
  · rw [hlog, hcalls]
    exact h.due
  · rw [hcalls]
    exact fun i ph l hi hl => hlanded l (h.landed i ph l hi hl)
  · rw [hlog, hcalls]
    exact h.covered
  · rw [hlog, hcache]
    exact fun i l hcame => ⟨hlanded l (h.came i l hcame).1, (h.came i l hcame).2⟩
  · rw [hcalls]
    exact h.failing

theorem Sound.step (h : Sound s) (e : Step) (ho : orderly s e = true) : Sound (step c s e) := by
  by_cases hcall : ∃ k, e = .call k
  · obtain ⟨k, rfl⟩ := hcall
    exact h.call k ho
  · refine ⟨inv_step s e h.account ho, ?_, ?_⟩
    all_goals
      rcases moves_on (c := c) h.account h.swept.failing e (fun k hk => hcall ⟨k, hk⟩) ho with
        ⟨i, ph, ph', hi, hp⟩ | ⟨hcalls, hcache, hnext, hlog⟩
    · exact h.legacy.proceeds hi hp
    · exact h.legacy.of_same hcalls hcache
    · exact h.swept.proceeds hi hp
    · exact h.swept.of_same hcalls hcache hnext hlog

/-- Where a sweep's operation comes to a failure, its own deletion of the lease has failed. -/
def OwnFailure (c : Config) (s : State) (e : Step) : Prop :=
  ∀ i l, Swept.came i l .failed ∈ (step c s e).log →
    Swept.came i l .failed ∈ s.log ∨ ∃ ph : Phase, s.calls[i]? = some ph ∧ ph.deletionFailed l = true

theorem Proceeds.ownFailure (hi : s.calls[i]? = some ph) (hp : Proceeds s s' i ph ph') (hfailed : Swept.came j l .failed ∈ s'.log) :
    Swept.came j l .failed ∈ s.log ∨ ∃ ph : Phase, s.calls[j]? = some ph ∧ ph.deletionFailed l = true := by
  rcases hp.log _ hfailed with hbefore | ⟨l', verdict, heq, -, -, hdeletion⟩
  · exact .inl hbefore
  · cases heq
    exact .inr ⟨ph, hi, hdeletion rfl⟩

theorem Sound.ownFailure (h : Sound s) (e : Step) (ho : orderly s e = true) : OwnFailure c s e := by
  intro j l hfailed
  by_cases hcall : ∃ k, e = .call k
  · left
    obtain ⟨k, rfl⟩ := hcall
    rcases begins (c := c) s k ho with ⟨sessionId, options, heq, -⟩ | rfl | ⟨_, hp⟩
    · rw [heq] at hfailed
      obtain ⟨ph', -, -, -, hlog, -⟩ :=
        @landing_newRecord c s.begin s.calls.length sessionId options
      rw [hlog] at hfailed
      exact hfailed
    · rw [show (Retention.step c s (.call .expireNow)).log = _ from (sweepNext_same _ _ _ _ _).1] at hfailed
      rcases mem_append.mp hfailed with hbefore | hdue
      · exact hbefore
      · obtain ⟨r, -, heq⟩ := mem_map.mp hdue
        cases heq
    · rcases hp.log _ hfailed with hbefore | ⟨l', verdict, heq, -, -, hdeletion⟩
      · exact hbefore
      · cases heq
        cases hdeletion rfl
  · rcases moves_on (c := c) h.account h.swept.failing e (fun k hk => hcall ⟨k, hk⟩) ho with
      ⟨i, ph, ph', hi, hp⟩ | ⟨-, -, -, hlog⟩
    · exact hp.ownFailure hi hfailed
    · rw [hlog] at hfailed
      exact .inl hfailed

end

def Phase.isDone : Phase → Bool
  | .done _ => true
  | _ => false

/-- No call is in flight. -/
def State.Quiet (s : State) : Prop := ∀ ph ∈ s.calls, ph.isDone = true

/-- Leases and claims correspond, where nothing is in flight; a sweep that is over has come
    to each lease that was expired at its start, and one that it has removed stays removed. -/
structure Corresponds (s : State) : Prop where
  oneLegacy : s.Quiet → ∀ l l' r r', s.cache.get l = some r → s.cache.get l' = some r' → r.isLegacy = true →
    r'.isLegacy = true → r.sessionId = r'.sessionId → l = l'
  asked : s.Quiet → ∀ l, (s.claims l).asked = true ∧ (s.claims l).refused = false ↔ Resident (s.cache.get l)
  held : s.Quiet → ∀ l, (s.claims l).held = true → Resident (s.cache.get l)
  swept : ∀ i outcome l, s.calls[i]? = some (.done outcome) → Swept.due i l ∈ s.log → ∃ verdict, Swept.came i l verdict ∈ s.log
  removed : ∀ i l, Swept.came i l .removed ∈ s.log → s.cache.get l = none

/-- Before any call, with leases and claims that correspond. -/
structure Start (s : State) : Prop where
  calls : s.calls = []
  log : s.log = []
  fresh : ∀ l, s.nextLease ≤ l → s.cache.get l = none ∧ s.claims l = {}
  keyed : ∀ l r, s.cache.get l = some r → r.leaseId = l
  rests : ∀ l, Rests (s.cache.get l) (s.claims l)
  oneLegacy : ∀ l l' r r', s.cache.get l = some r → s.cache.get l' = some r' → r.isLegacy = true → r'.isLegacy = true →
    r.sessionId = r'.sessionId → l = l'

theorem Start.sound {s : State} (h : Start s) : Sound s := by
  have hnone : ∀ (i : ℕ) (ph : Phase), s.calls[i]? ≠ some ph := by
    intro i ph hi
    rw [h.calls] at hi
    cases hi
  have hon : ∀ {l i p a}, ¬ s.On l i p a := fun hp => hnone _ _ hp.1
  refine ⟨⟨?_, h.keyed, fun l => ⟨?_, fun _ => h.rests l, ?_, ?_, ?_⟩⟩, ⟨h.oneLegacy, ?_, ?_⟩, ⟨?_, ?_, ?_, ?_, ?_⟩⟩
  · intro l hl
    exact ⟨(h.fresh l hl).1, (h.fresh l hl).2, fun i p a => hon⟩
  · exact fun i p a hp => absurd hp hon
  · exact fun i j p q a b hp => absurd hp hon
  · exact fun i j p q b hp => absurd hp hon
  · exact fun i p a hp => absurd hp hon
  · exact fun j ph l r r' hj => absurd hj (hnone j ph)
  · exact fun j k ph ph' r r' hj => absurd hj (hnone j ph)
  · intro i l hdue
    rw [h.log] at hdue
    cases hdue
  · exact fun i ph l hi => absurd hi (hnone i ph)
  · exact fun i ph l hi => absurd hi (hnone i ph)
  · intro i l hcame
    rw [h.log] at hcame
    cases hcame
  · exact fun i ph hi => absurd hi (hnone i ph)

theorem Sound.corresponds {s : State} (h : Sound s) : Corresponds s := by
  have hrests : s.Quiet → ∀ l, Rests (s.cache.get l) (s.claims l) := by
    intro hquiet l
    apply (h.account.accounted l).rests
    intro i p a hp
    have hdone := hquiet _ (mem_of_getElem? hp.1)
    cases hdone
  constructor
  · exact fun _ => h.legacy.recorded
  · exact fun hquiet l => (hrests hquiet l).asked
  · exact fun hquiet l => (hrests hquiet l).held
  · intro i outcome l hi hdue
    rcases h.swept.covered i _ l hi hdue with hcame | hpending
    · exact hcame
    · cases hpending
  · exact fun i l hcame => (h.swept.came i l hcame).2

def idle : State where
  now := 0
  cache := ⟨[], nodup_nil⟩
  nextLease := 0
  calls := []
  turns := []
  claims := fun _ => {}
  log := []

theorem idle_start : Start idle := by
  have hrests : ∀ l, Rests (idle.cache.get l) (idle.claims l) := by
    intro l
    refine ⟨⟨?_, ?_⟩, ?_, fun _ => rfl⟩
    · intro h
      cases h.1
    · intro h
      obtain ⟨_, hr, _⟩ := h
      cases hr
    · intro h
      cases h
  refine ⟨rfl, rfl, fun _ _ => ⟨rfl, rfl⟩, ?_, hrests, ?_⟩
  · intro l r hr
    cases hr
  · intro l l' r r' hr
    cases hr

/-- The call of a session's lease and its two awaits. -/
def acquired (i : ℕ) (call : Call) : List Step :=
  [.call call, .settle i true, .resume i, .settle i true, .resume i]

/-- A legacy lease is acquired, applied again and renewed; it expires and is removed by a sweep. -/
def oneAfterAnother : List Step :=
  acquired 0 (.applyPin 0 {}) ++ [.call (.reapplyForSession 0), .settle 1 true, .resume 1, .call (.applyPin 0 {}), .turn 2] ++
    [.settle 2 true, .resume 2, .settle 2 true, .resume 2, .clock (24 * 60 * 60 * 1000), .call .expireNow, .turn 3] ++
    [.settle 3 true, .resume 3, .settle 3 true, .resume 3]

/-- Both calls find no legacy lease. -/
def bothAtOnce : List Step :=
  [.call (.applyPin 0 {}), .call (.applyPin 0 {}), .settle 0 true, .settle 1 true, .resume 0, .resume 1] ++
    [.settle 0 true, .settle 1 true, .resume 0, .resume 1]

/-- The lease is applied again after its unpin and before its deletion. -/
def appliedWhileRemoved : List Step :=
  acquired 0 (.acquireLease 0 {}) ++ [.call (.releaseLease 0 0 none), .turn 1, .settle 1 true] ++
    [.call (.reapplyForSession 0), .settle 2 true, .resume 2, .resume 1, .settle 1 true, .resume 1]

/-- The deletion of the first of two expired leases fails. -/
def firstDeletionFails : List Step :=
  [.call (.acquireLease 0 { mode := some .durable }), .settle 0 true, .resume 0] ++
    [.call (.acquireLease 1 { mode := some .durable }), .settle 1 true, .resume 1, .clock (24 * 60 * 60 * 1000)] ++
    [.call .expireNow, .turn 2, .settle 2 false, .resume 2]

end PiWebUi.Retention
