/-
  PiWebUi.Notifications.Announced — a finished turn is announced once.

  Along a run in which no turn ends past the debounce time of a tail that is still held,
  or while the tail has text of an earlier turn, no session is attached again while a tail
  of it waits for a timer, and no outbox write of a detached session fails, every turn that
  was not superseded or opted out is announced once with its own text, or waits for a timer
  or a flush (`announced`); and letting these go on announces it (`Leads`).
-/

import Mathlib.Data.List.Perm.Subperm
import PiWebUi.Lib.InFlight
import PiWebUi.Notifications.NotificationManager

namespace PiWebUi.Notifications

open PiWebUi.Lib List

/-- What of a session waits to be announced, oldest first. -/
def ObservedSession.tails (obs : ObservedSession) : List Tail := obs.pendingTails ++ obs.debouncedTail.toList

namespace NotificationManager

/-! ## What is claimed of a state -/

/-- A flush of the session is in flight, or a timer that starts one. -/
def Alive (s : NotificationManager) (o : ℕ) (obs : ObservedSession) : Prop :=
  obs.flushPromise ≠ none ∨ s.observed.get obs.sessionId = some o ∧ obs.debounceTimer ≠ none

def Announces (s : NotificationManager) (k : ℕ) : Prop := ∃ a ∈ s.enqueued, a.turn = k

def Awaits (s : NotificationManager) (k : ℕ) : Prop :=
  ∃ (o : ℕ) (obs : ObservedSession) (t : Tail), s.sessions[o]? = some obs ∧ t ∈ obs.tails ∧ t.turn = k ∧ s.Alive o obs

/-- Announced once and with its own text, or about to be. -/
def Announced (s : NotificationManager) : Prop :=
  ∀ (k : ℕ) (turn : Turn), s.turns[k]? = some turn →
    (s.enqueued.map Announcement.turn).count k ≤ 1 ∧
    (∀ a ∈ s.enqueued, a.turn = k → a.sessionId = turn.sessionId ∧ a.tail = turn.text) ∧
    (turn.superseded = false → turn.optedOut = false → s.Announces k ∨ s.Awaits k)

/-- A timer fires, a label is resolved or the outbox accepts. -/
def Willing : ManagerEvent → Prop
  | .timer _ | .labelled _ | .stored _ true => True
  | _ => False

/-- Timers, labels and the outbox announce what is left. -/
def Leads (s : NotificationManager) : Prop :=
  ∃ fs : List ManagerEvent, (∀ e ∈ fs, Willing e) ∧ (fs.foldl step s).turns = s.turns ∧
    ∀ (k : ℕ) (turn : Turn), s.turns[k]? = some turn → turn.superseded = false → turn.optedOut = false → (fs.foldl step s).Announces k

def Careful (s : NotificationManager) : ManagerEvent → Prop
  | .agentEnd sessionId => ∀ o ∈ s.observed.get sessionId, ∀ obs ∈ s.sessions[o]?, obs.overdue = false ∧ obs.assistantTail = obs.ownText
  | .optIn sessionId _ => ∀ o ∈ s.observed.get sessionId, ∀ obs ∈ s.sessions[o]?, obs.flushPromise ≠ none ∨ obs.tails = []
  | .stored o false => ∀ obs ∈ s.sessions[o]?, obs.flushPromise = some .outbox →
    (s.shutDown = false ∧ s.observed.get obs.sessionId = some o) ∨ ∀ t ∈ obs.tails, (s.turns[t.turn]?.any Turn.optedOut) = true
  | _ => True

/-! ## The books -/

structure Kept (s : NotificationManager) : Prop where
  bound : ∀ (sessionId : JsString) (o : ℕ), s.observed.get sessionId = some o → ∃ obs : ObservedSession, s.sessions[o]? = some obs ∧ obs.sessionId = sessionId
  held : ∀ (o : ℕ) (obs : ObservedSession) (t : Tail), s.sessions[o]? = some obs → t ∈ obs.tails →
    ∃ turn, s.turns[t.turn]? = some turn ∧ turn.sessionId = obs.sessionId ∧ turn.text = t.tail
  told : ∀ a ∈ s.enqueued, ∃ turn, s.turns[a.turn]? = some turn ∧ turn.sessionId = a.sessionId ∧ turn.text = a.tail
  once : (s.enqueued.map Announcement.turn).Nodup
  fresh : ∀ (o : ℕ) (obs : ObservedSession) (t : Tail), s.sessions[o]? = some obs → t ∈ obs.tails → ¬ s.Announces t.turn
  nodup : ∀ (o : ℕ) (obs : ObservedSession), s.sessions[o]? = some obs → (obs.tails.map Tail.turn).Nodup
  apart : ∀ (o o' : ℕ) (obs obs' : ObservedSession) (t t' : Tail), s.sessions[o]? = some obs → s.sessions[o']? = some obs' →
    t ∈ obs.tails → t' ∈ obs'.tails → t.turn = t'.turn → o = o'
  cover : ∀ (k : ℕ) (turn : Turn), s.turns[k]? = some turn → turn.superseded = false → turn.optedOut = false →
    s.Announces k ∨ ∃ (o : ℕ) (obs : ObservedSession) (t : Tail), s.sessions[o]? = some obs ∧ t ∈ obs.tails ∧ t.turn = k
  live : ∀ (o : ℕ) (obs : ObservedSession) (t : Tail) (turn : Turn), s.sessions[o]? = some obs → t ∈ obs.tails →
    s.turns[t.turn]? = some turn → turn.optedOut = false → s.Alive o obs
  flying : ∀ (o : ℕ) (obs : ObservedSession), s.sessions[o]? = some obs → obs.flushPromise ≠ none → obs.pendingTails ≠ []

variable {s s' : NotificationManager} {obs : ObservedSession} {o : ℕ}

theorem announced_of_kept (h : s.Kept) : s.Announced := by
  intro k turn hk
  refine ⟨nodup_iff_count_le_one.mp h.once k, fun a ha hak => ?_, fun hs ho => ?_⟩
  · obtain ⟨turn', ht, hsid, htext⟩ := h.told a ha
    rw [hak, hk] at ht
    cases ht
    exact ⟨hsid.symm, htext.symm⟩
  · refine (h.cover k turn hk hs ho).imp_right fun ⟨o, obs, t, hobs, ht, htk⟩ => ⟨o, obs, t, hobs, ht, htk, ?_⟩
    exact h.live o obs t turn hobs ht (htk ▸ hk) ho

/-! ### Sessions change and hold what they held -/

/-- Turns are at most opted out. -/
structure SameTurns (s s' : NotificationManager) : Prop where
  enqueued : s'.enqueued = s.enqueued
  forth : ∀ (k : ℕ) (turn : Turn), s.turns[k]? = some turn →
    ∃ turn', s'.turns[k]? = some turn' ∧ turn'.sessionId = turn.sessionId ∧ turn'.text = turn.text
  back : ∀ (k : ℕ) (turn : Turn), s'.turns[k]? = some turn → turn.superseded = false → turn.optedOut = false →
    ∃ turn', s.turns[k]? = some turn' ∧ turn'.superseded = false ∧ turn'.optedOut = false
  opted : ∀ (k : ℕ) (turn : Turn), s'.turns[k]? = some turn → turn.optedOut = false →
    ∃ turn', s.turns[k]? = some turn' ∧ turn'.optedOut = false

theorem SameTurns.of_eq (h : s'.turns = s.turns) (he : s'.enqueued = s.enqueued) : s.SameTurns s' where
  enqueued := he
  forth _ turn hk := ⟨turn, h ▸ hk, rfl, rfl⟩
  back _ turn hk hs ho := ⟨turn, h ▸ hk, hs, ho⟩
  opted _ turn hk ho := ⟨turn, h ▸ hk, ho⟩

theorem kept_sessions (h : s.Kept) {g : ℕ → ObservedSession → ObservedSession}
    (hs : ∀ i : ℕ, s'.sessions[i]? = s.sessions[i]?.map (g i)) (ht : s.SameTurns s')
    (hid : ∀ i obs, (g i obs).sessionId = obs.sessionId) (htails : ∀ i obs, (g i obs).tails = obs.tails)
    (hbound : ∀ (sessionId : JsString) (o : ℕ), s'.observed.get sessionId = some o → s.observed.get sessionId = some o)
    (halive : ∀ (i : ℕ) (obs : ObservedSession) (t : Tail) (turn : Turn), s.sessions[i]? = some obs → t ∈ obs.tails →
      s'.turns[t.turn]? = some turn → turn.optedOut = false → s.Alive i obs → s'.Alive i (g i obs))
    (hflying : ∀ (i : ℕ) (obs : ObservedSession), s.sessions[i]? = some obs → (g i obs).flushPromise ≠ none → (g i obs).pendingTails ≠ []) :
    s'.Kept := by
  have hget : ∀ (i : ℕ) (obs : ObservedSession), s'.sessions[i]? = some obs →
      ∃ obs₀, s.sessions[i]? = some obs₀ ∧ obs = g i obs₀ ∧ obs.tails = obs₀.tails := by
    intro i obs hi
    rw [hs] at hi
    obtain ⟨obs₀, h₀, rfl⟩ := Option.map_eq_some_iff.mp hi
    exact ⟨obs₀, h₀, rfl, htails i obs₀⟩
  have hann : ∀ k, s'.Announces k ↔ s.Announces k := fun k => by rw [Announces, Announces, ht.enqueued]
  constructor
  · intro sessionId i hi
    obtain ⟨obs, hobs, hsid⟩ := h.bound sessionId i (hbound sessionId i hi)
    exact ⟨g i obs, by rw [hs, hobs]; rfl, (hid i obs).trans hsid⟩
  · intro i obs t hi hmem
    obtain ⟨obs₀, h₀, rfl, htl⟩ := hget i obs hi
    obtain ⟨turn, hturn, hsid, htext⟩ := h.held i obs₀ t h₀ (htl ▸ hmem)
    obtain ⟨turn', hturn', hsid', htext'⟩ := ht.forth _ turn hturn
    exact ⟨turn', hturn', hsid'.trans (hsid.trans (hid i obs₀).symm), htext'.trans htext⟩
  · rw [ht.enqueued]
    intro a ha
    obtain ⟨turn, hturn, hsid, htext⟩ := h.told a ha
    obtain ⟨turn', hturn', hsid', htext'⟩ := ht.forth _ turn hturn
    exact ⟨turn', hturn', hsid'.trans hsid, htext'.trans htext⟩
  · rw [ht.enqueued]
    exact h.once
  · intro i obs t hi hmem
    obtain ⟨obs₀, h₀, -, htl⟩ := hget i obs hi
    rw [hann]
    exact h.fresh i obs₀ t h₀ (htl ▸ hmem)
  · intro i obs hi
    obtain ⟨obs₀, h₀, -, htl⟩ := hget i obs hi
    rw [htl]
    exact h.nodup i obs₀ h₀
  · intro i j obs obs' t t' hi hj hmem hmem' hk
    obtain ⟨obs₀, h₀, -, htl⟩ := hget i obs hi
    obtain ⟨obs₁, h₁, -, htl'⟩ := hget j obs' hj
    exact h.apart i j obs₀ obs₁ t t' h₀ h₁ (htl ▸ hmem) (htl' ▸ hmem') hk
  · intro k turn hk hsup hopt
    obtain ⟨turn', hk', hsup', hopt'⟩ := ht.back k turn hk hsup hopt
    rw [hann]
    refine (h.cover k turn' hk' hsup' hopt').imp_right fun ⟨i, obs, t, hi, hmem, htk⟩ => ?_
    exact ⟨i, g i obs, t, by rw [hs, hi]; rfl, by rw [htails]; exact hmem, htk⟩
  · intro i obs t turn hi hmem hturn hopt
    obtain ⟨obs₀, h₀, rfl, htl⟩ := hget i obs hi
    obtain ⟨turn', hturn', hopt'⟩ := ht.opted _ turn hturn hopt
    have hmem := htl ▸ hmem
    exact halive i obs₀ t turn h₀ hmem hturn hopt (h.live i obs₀ t turn' h₀ hmem hturn' hopt')
  · intro i obs hi hf
    obtain ⟨obs₀, h₀, rfl, -⟩ := hget i obs hi
    exact hflying i obs₀ h₀ hf

/-- One session changes, and is alive if it was. -/
theorem kept_onSession (h : s.Kept) (o : ℕ) {f : ObservedSession → ObservedSession}
    (hid : ∀ obs, (f obs).sessionId = obs.sessionId) (htails : ∀ obs, (f obs).tails = obs.tails)
    (halive : ∀ obs, s.sessions[o]? = some obs → obs.tails ≠ [] → s.Alive o obs → s.Alive o (f obs))
    (hflying : ∀ obs, s.sessions[o]? = some obs → (f obs).flushPromise ≠ none → (f obs).pendingTails ≠ []) : (s.onSession o f).Kept := by
  refine kept_sessions h (g := fun i => if o = i then f else id) (fun i => ?_) (.of_eq rfl rfl) (fun i obs => ?_) (fun i obs => ?_)
    (fun _ _ hi => hi) (fun i obs t turn hi hmem _ _ ha => ?_) fun i obs hi => ?_
  · show (s.sessions.modify o f)[i]? = _
    rw [getElem?_modify]
    split <;> simp
  · by_cases hio : o = i <;> simp [hio, hid]
  · by_cases hio : o = i <;> simp [hio, htails]
  · by_cases hio : o = i
    · subst hio
      rw [if_pos rfl]
      exact halive obs hi (ne_nil_of_mem hmem) ha
    · rw [if_neg hio]
      exact ha
  · by_cases hio : o = i
    · subst hio
      rw [if_pos rfl]
      exact hflying obs hi
    · rw [if_neg hio]
      exact h.flying i obs hi

/-! ### A flush -/

theorem tails_takeDebounced (obs : ObservedSession) : obs.takeDebounced.tails = obs.tails := by
  simp [ObservedSession.tails, ObservedSession.takeDebounced]

theorem tails_flush (obs : ObservedSession) : obs.flush.tails = obs.tails := by
  unfold ObservedSession.flush
  split
  · rfl
  · exact tails_takeDebounced obs

theorem sessionId_flush (obs : ObservedSession) : obs.flush.sessionId = obs.sessionId := by
  unfold ObservedSession.flush
  split <;> rfl

/-- What waits is in flight after a flush. -/
theorem flushPromise_flush (h : obs.tails ≠ []) : obs.flush.flushPromise ≠ none := by
  unfold ObservedSession.flush
  split
  · next hf => exact Option.isSome_iff_ne_none.mp hf
  · show (if obs.pendingTails ++ obs.debouncedTail.toList = [] then none else some FlushPhase.label) ≠ none
    have h : obs.pendingTails ++ obs.debouncedTail.toList ≠ [] := h
    rw [if_neg h]
    nofun

theorem pendingTails_flush (h : obs.flushPromise ≠ none → obs.pendingTails ≠ []) :
    obs.flush.flushPromise ≠ none → obs.flush.pendingTails ≠ [] := by
  unfold ObservedSession.flush
  split
  · exact h
  · show (if obs.takeDebounced.pendingTails = [] then none else some FlushPhase.label) ≠ none → obs.takeDebounced.pendingTails ≠ []
    split
    · exact fun hn => absurd rfl hn
    · next hne => exact fun _ => hne

theorem kept_timer (h : s.Kept) (o : ℕ) : (s.step (.timer o)).Kept := by
  refine kept_onSession h o (fun obs => ?_) (fun obs => ?_) (fun obs _ hne ha => ?_) fun obs hi => ?_
  · split
    · exact sessionId_flush _
    · rfl
  · split
    · exact tails_flush _
    · rfl
  · split
    · exact .inl (flushPromise_flush hne)
    · exact ha
  · split
    · exact pendingTails_flush (h.flying o obs hi)
    · exact h.flying o obs hi

theorem kept_debounceElapses (h : s.Kept) (o : ℕ) : (s.step (.debounceElapses o)).Kept := by
  refine kept_onSession h o (fun obs => ?_) (fun obs => ?_) (fun obs _ hne ha => ?_) fun obs hi => ?_
  · split <;> rfl
  · split <;> rfl
  · split <;> exact ha
  · split <;> exact h.flying o obs hi

theorem kept_labelled (h : s.Kept) (o : ℕ) : (s.step (.labelled o)).Kept := by
  refine kept_onSession h o (fun obs => ?_) (fun obs => ?_) (fun obs _ hne ha => ?_) fun obs hi => ?_
  · split <;> rfl
  · split <;> rfl
  · split
    · exact .inl nofun
    · exact ha
  · split
    · next hf => exact fun _ => h.flying o obs hi (by rw [hf]; nofun)
    · exact h.flying o obs hi

/-! ### Messages -/

/-- A message changes the text that is read at the end of the turn, and nothing that waits. -/
theorem kept_onObserved (h : s.Kept) (sessionId : JsString) {f : ObservedSession → ObservedSession}
    (hf : ∀ obs, (f obs).sessionId = obs.sessionId ∧ (f obs).tails = obs.tails ∧ (f obs).flushPromise = obs.flushPromise ∧
      (f obs).debounceTimer = obs.debounceTimer ∧ (f obs).pendingTails = obs.pendingTails) : (s.onObserved sessionId f).Kept := by
  unfold onObserved
  split
  · next o _ =>
    refine kept_onSession h o (fun obs => (hf obs).1) (fun obs => (hf obs).2.1) (fun obs _ _ ha => ?_) fun obs hi hfl => ?_
    · obtain ⟨hid, -, hfp, htimer, -⟩ := hf obs
      rw [Alive, hid, hfp, htimer]
      exact ha
    · rw [(hf obs).2.2.2.2]
      rw [(hf obs).2.2.1] at hfl
      exact h.flying o obs hi hfl
  · exact h

/-! ### Observers are attached and detached -/

/-- A session is detached that waits for a flush in flight only, or was opted out. -/
theorem kept_detached (h : s.Kept) {sessionId : JsString}
    (hsessions : s'.sessions = (s.detach sessionId).sessions) (hobserved : s'.observed = s.observed.delete sessionId) (ht : s.SameTurns s')
    (hcond : ∀ (o : ℕ) (obs : ObservedSession) (t : Tail) (turn : Turn), s.observed.get sessionId = some o → s.sessions[o]? = some obs →
      t ∈ obs.tails → s'.turns[t.turn]? = some turn → turn.optedOut = false → obs.flushPromise ≠ none) : s'.Kept := by
  refine kept_sessions h
    (g := fun i => if s.observed.get sessionId = some i then fun obs => { obs with debounceTimer := none } else id) (fun i => ?_) ht
    (fun i obs => ?_) (fun i obs => ?_) (fun j i hi => ?_) (fun i obs t turn hi hmem hturn hopt ha => ?_) fun i obs hi => ?_
  · rw [hsessions]
    show (s.onObserved sessionId _).sessions[i]? = _
    unfold onObserved
    split
    · next o ho =>
      show (s.sessions.modify o _)[i]? = _
      rw [getElem?_modify, ho]
      by_cases hio : o = i <;> simp [hio]
    · next ho => simp [ho]
  · split <;> rfl
  · split <;> rfl
  · rw [hobserved] at hi
    exact (JsMap.get_delete_eq_some.mp hi).2
  · by_cases ho : s.observed.get sessionId = some i
    · rw [if_pos ho]
      exact .inl (hcond i obs t turn ho hi hmem hturn hopt)
    · rw [if_neg ho]
      refine ha.imp_right fun hp => ⟨?_, hp.2⟩
      have hget := hp.1
      show s'.observed.get obs.sessionId = some i
      rw [hobserved, JsMap.get_delete_ne]
      · exact hget
      · intro hsid
        exact ho (hsid ▸ hget)
  · split <;> exact h.flying i obs hi

theorem kept_append (h : s.Kept) {sessionId : JsString} (hn : s.observed.get sessionId = none) : ({ s with
      sessions := s.sessions ++ [⟨sessionId, [], 0, [], none, none, none, false, []⟩]
      observed := s.observed.set sessionId s.sessions.length } : NotificationManager).Kept := by
  -- the new session holds nothing
  have hget : ∀ (i : ℕ) (obs : ObservedSession),
      (s.sessions ++ [⟨sessionId, [], 0, [], none, none, none, false, []⟩])[i]? = some obs →
        s.sessions[i]? = some obs ∨ obs.tails = [] ∧ obs.flushPromise = none := by
    intro i obs hi
    rcases InFlight.get_append hi with hi | ⟨-, rfl⟩
    · exact .inl hi
    · exact .inr ⟨rfl, rfl⟩
  have hold : ∀ (i : ℕ) (obs : ObservedSession) (t : Tail),
      (s.sessions ++ [⟨sessionId, [], 0, [], none, none, none, false, []⟩])[i]? = some obs → t ∈ obs.tails → s.sessions[i]? = some obs :=
    fun i obs t hi hmem => (hget i obs hi).resolve_right fun hnew => by
      rw [hnew.1] at hmem
      cases hmem
  have hlift : ∀ (i : ℕ) (obs : ObservedSession), s.sessions[i]? = some obs →
      (s.sessions ++ [⟨sessionId, [], 0, [], none, none, none, false, []⟩])[i]? = some obs := fun _ _ hi => InFlight.append_left _ hi
  constructor
  · intro j i hi
    obtain ⟨hj, rfl⟩ | ⟨-, hi⟩ := JsMap.get_set_eq_some.mp hi
    · exact ⟨_, getElem?_concat_length, hj.symm⟩
    · obtain ⟨obs, hobs, hsid⟩ := h.bound j i hi
      exact ⟨obs, hlift i obs hobs, hsid⟩
  · intro i obs t hi hmem
    exact h.held i obs t (hold i obs t hi hmem) hmem
  · exact h.told
  · exact h.once
  · intro i obs t hi hmem
    exact h.fresh i obs t (hold i obs t hi hmem) hmem
  · intro i obs hi
    rcases hget i obs hi with hi | ⟨hnil, -⟩
    · exact h.nodup i obs hi
    · rw [hnil]
      exact nodup_nil
  · intro i j obs obs' t t' hi hj hmem hmem'
    exact h.apart i j obs obs' t t' (hold i obs t hi hmem) (hold j obs' t' hj hmem') hmem hmem'
  · intro k turn hk hsup hopt
    refine (h.cover k turn hk hsup hopt).imp_right fun hp => ?_
    obtain ⟨i, obs, t, hi, hmem, htk⟩ := hp
    exact ⟨i, obs, t, hlift i obs hi, hmem, htk⟩
  · intro i obs t turn hi hmem hturn hopt
    refine (h.live i obs t turn (hold i obs t hi hmem) hmem hturn hopt).imp_right fun hp => ⟨?_, hp.2⟩
    have hobs := hp.1
    rw [JsMap.get_set_ne]
    · exact hobs
    · intro hsid
      rw [hsid, hn] at hobs
      cases hobs
  · intro i obs hi hf
    rcases hget i obs hi with hi | ⟨-, hnone⟩
    · exact h.flying i obs hi hf
    · exact absurd hnone hf

theorem kept_attach (h : s.Kept) (sessionId : JsString) (wired : Bool)
    (hc : ∀ o ∈ s.observed.get sessionId, ∀ obs ∈ s.sessions[o]?, obs.flushPromise ≠ none ∨ obs.tails = []) :
    (s.attach sessionId wired).Kept := by
  have hdetached : (if s.observed.has sessionId then s.detach sessionId else s).Kept ∧
      (if s.observed.has sessionId then s.detach sessionId else s).observed.get sessionId = none := by
    split
    · refine ⟨kept_detached h rfl rfl (.of_eq ?_ ?_) fun o obs t turn ho hobs hmem _ _ => ?_, JsMap.get_delete_same _ _⟩
      · show (s.onObserved sessionId _).turns = s.turns
        unfold onObserved
        split <;> rfl
      · show (s.onObserved sessionId _).enqueued = s.enqueued
        unfold onObserved
        split <;> rfl
      · exact (hc o ho obs hobs).resolve_right (ne_nil_of_mem hmem)
    · next hhas =>
      refine ⟨h, ?_⟩
      rw [JsMap.has_iff_get] at hhas
      simpa using hhas
  unfold attach
  show Kept (if wired = true then _ else _)
  split
  · exact kept_append hdetached.1 hdetached.2
  · exact hdetached.1

theorem kept_optOut (h : s.Kept) (sessionId : JsString) : (s.optOut sessionId).Kept := by
  have hturns : ∀ (k : ℕ) (turn : Turn), (s.optOut sessionId).turns[k]? = some turn → ∃ turn₀, s.turns[k]? = some turn₀ ∧
      turn = if turn₀.sessionId = sessionId ∧ s.unannounced k = true then { turn₀ with optedOut := true } else turn₀ := by
    intro k turn hk
    have hk : (s.turns.mapIdx _)[k]? = some turn := hk
    rw [getElem?_mapIdx] at hk
    obtain ⟨turn₀, h₀, rfl⟩ := Option.map_eq_some_iff.mp hk
    exact ⟨turn₀, h₀, rfl⟩
  have henq : (s.optOut sessionId).enqueued = s.enqueued := by
    show (s.onObserved sessionId _).enqueued = s.enqueued
    unfold onObserved
    split <;> rfl
  refine kept_detached h rfl rfl ⟨henq, fun k turn hk => ?_, fun k turn hk hsup hopt => ?_, fun k turn hk hopt => ?_⟩
    fun o obs t turn ho hobs hmem hturn hopt => ?_
  · refine ⟨if turn.sessionId = sessionId ∧ s.unannounced k = true then { turn with optedOut := true } else turn, ?_, ?_⟩
    · show (s.turns.mapIdx _)[k]? = _
      rw [getElem?_mapIdx, hk]
      rfl
    · split <;> exact ⟨rfl, rfl⟩
  · obtain ⟨turn₀, h₀, rfl⟩ := hturns k turn hk
    refine ⟨turn₀, h₀, ?_, ?_⟩
    · split at hsup <;> exact hsup
    · split at hopt
      · cases hopt
      · exact hopt
  · obtain ⟨turn₀, h₀, rfl⟩ := hturns k turn hk
    refine ⟨turn₀, h₀, ?_⟩
    split at hopt
    · cases hopt
    · exact hopt
  · -- what the session holds is opted out
    obtain ⟨turn₀, h₀, rfl⟩ := hturns t.turn turn hturn
    obtain ⟨turn₁, h₁, hsid, -⟩ := h.held o obs t hobs hmem
    rw [h₀] at h₁
    cases h₁
    obtain ⟨obs', hobs', hsid'⟩ := h.bound sessionId o ho
    rw [hobs] at hobs'
    cases hobs'
    have hun : s.unannounced t.turn = true := by
      rw [unannounced, all_eq_true]
      intro a ha
      have := h.fresh o obs t hobs hmem
      simpa using fun hk => this ⟨a, ha, hk⟩
    rw [if_pos ⟨hsid.trans hsid', hun⟩] at hopt
    cases hopt

theorem kept_shutdown (h : s.Kept) : s.shutdown.Kept := by
  unfold shutdown
  split
  · exact h
  have hcontains : ∀ (i : ℕ) (obs : ObservedSession), s.sessions[i]? = some obs → s.observed.get obs.sessionId = some i →
      s.observed.values.contains i = true := fun i obs _ hget =>
    contains_iff_mem.mpr (mem_map.mpr ⟨_, JsMap.get_eq_some.mp hget, rfl⟩)
  have hflushed : ∀ obs : ObservedSession, obs.tails ≠ [] → obs.pending = true := by
    intro obs hne
    by_contra hp
    simp only [ObservedSession.pending, Bool.or_eq_true, decide_eq_true_eq, not_or, not_not] at hp
    obtain ⟨⟨-, hnil⟩, hnone⟩ := hp
    refine hne ?_
    rw [ObservedSession.tails, hnil]
    simpa using hnone
  refine kept_sessions h
    (g := fun i obs => if s.observed.values.contains i then
        { (if obs.pending then { obs with debounceTimer := none }.flush else obs) with debounceTimer := none }
      else obs)
    (fun i => ?_) (.of_eq rfl rfl) (fun i obs => ?_) (fun i obs => ?_) nofun
    (fun i obs t turn hi hmem _ _ ha => ?_) fun i obs hi => ?_
  · show (s.sessions.mapIdx _)[i]? = _
    rw [getElem?_mapIdx]
  · split
    · show ObservedSession.sessionId (if _ then _ else _) = _
      split
      · exact sessionId_flush _
      · rfl
    · rfl
  · split
    · show ObservedSession.tails (if _ then _ else _) = _
      split
      · exact tails_flush _
      · rfl
    · rfl
  · left
    split
    · rw [if_pos (hflushed obs (ne_nil_of_mem hmem))]
      exact flushPromise_flush (ne_nil_of_mem hmem)
    · next hno =>
      rcases ha with hf | ⟨hget, -⟩
      · exact hf
      · exact absurd (hcontains i obs hi hget) hno
  · split
    · show ObservedSession.flushPromise (if _ then _ else _) ≠ none → ObservedSession.pendingTails (if _ then _ else _) ≠ []
      split
      · exact pendingTails_flush (h.flying i obs hi)
      · exact h.flying i obs hi
    · exact h.flying i obs hi

/-! ### A turn ends -/

theorem supersede_spec (turns : List Turn) (obs : ObservedSession) (k : ℕ) (turn : Turn) (h : (supersede turns obs)[k]? = some turn) :
    ∃ turn₀, turns[k]? = some turn₀ ∧ turn.sessionId = turn₀.sessionId ∧ turn.text = turn₀.text ∧ turn.optedOut = turn₀.optedOut ∧
      (turn.superseded = false → turn₀.superseded = false ∧ (obs.overdue = false → ∀ t ∈ obs.debouncedTail, t.turn ≠ k)) := by
  unfold supersede at h
  split at h
  · next t ht =>
    split at h
    · next ho => exact ⟨turn, h, rfl, rfl, rfl, fun hs => ⟨hs, fun hn => by rw [ho] at hn; cases hn⟩⟩
    · rcases InFlight.get_modify h with ⟨rfl, turn₀, h₀, rfl⟩ | ⟨hk, h⟩
      · exact ⟨turn₀, h₀, rfl, rfl, rfl, nofun⟩
      · refine ⟨turn, h, rfl, rfl, rfl, fun hs => ⟨hs, fun _ t' ht' => ?_⟩⟩
        rw [ht] at ht'
        cases ht'
        exact Ne.symm hk
  · next ht =>
    refine ⟨turn, h, rfl, rfl, rfl, fun hs => ⟨hs, fun _ t ht' => ?_⟩⟩
    rw [ht] at ht'
    cases ht'

theorem supersede_get (turns : List Turn) (obs : ObservedSession) {k : ℕ} {turn : Turn} (h : turns[k]? = some turn) :
    ∃ turn', (supersede turns obs)[k]? = some turn' ∧ turn'.sessionId = turn.sessionId ∧ turn'.text = turn.text := by
  unfold supersede
  split
  · next t _ =>
    split
    · exact ⟨turn, h, rfl, rfl⟩
    · rw [getElem?_modify, h]
      by_cases hk : t.turn = k <;> exact ⟨_, rfl, by simp [hk], by simp [hk]⟩
  · exact ⟨turn, h, rfl, rfl⟩

theorem length_supersede (turns : List Turn) (obs : ObservedSession) : (supersede turns obs).length = turns.length := by
  unfold supersede
  split
  · split
    · rfl
    · exact length_modify _ _ _
  · rfl

theorem kept_agentEnd (h : s.Kept) (sessionId : JsString) (hc : s.Careful (.agentEnd sessionId)) : (s.agentEnd sessionId).Kept := by
  unfold agentEnd
  split
  · exact h
  next o ho =>
  split
  · exact h
  next obs hobs =>
  obtain ⟨hoverdue, htext⟩ := hc o ho obs hobs
  obtain ⟨obs', hobs', hsid⟩ := h.bound sessionId o ho
  rw [hobs] at hobs'
  cases hobs'
  have hlen := length_supersede s.turns obs
  -- the session holds one more tail, and not the one that was superseded
  have htails : (obs.agentEnd s.turns.length).tails = obs.pendingTails ++ [⟨obs.assistantTail, obs.tailVersion, s.turns.length⟩] := rfl
  have hpending : ∀ t ∈ obs.pendingTails, t ∈ obs.tails := fun t ht => mem_append_left _ ht
  have hget : ∀ (i : ℕ) (x : ObservedSession), (s.sessions.set o (obs.agentEnd s.turns.length))[i]? = some x →
      s.sessions[i]? = some x ∧ i ≠ o ∨ i = o ∧ x = obs.agentEnd s.turns.length := by
    intro i x hi
    exact (InFlight.get_set hi).symm.imp_left And.symm
  have hold : ∀ (i : ℕ) (x : ObservedSession) (t : Tail), (s.sessions.set o (obs.agentEnd s.turns.length))[i]? = some x → t ∈ x.tails →
      (∃ x₀, s.sessions[i]? = some x₀ ∧ t ∈ x₀.tails ∧ x.sessionId = x₀.sessionId) ∨
        i = o ∧ t = ⟨obs.assistantTail, obs.tailVersion, s.turns.length⟩ := by
    intro i x t hi hmem
    rcases hget i x hi with ⟨hi, -⟩ | ⟨rfl, rfl⟩
    · exact .inl ⟨x, hi, hmem, rfl⟩
    · rw [htails] at hmem
      rcases mem_append.mp hmem with hmem | hmem
      · exact .inl ⟨obs, hobs, hpending t hmem, rfl⟩
      · exact .inr ⟨rfl, mem_singleton.mp hmem⟩
  have hsmall : ∀ (i : ℕ) (x : ObservedSession) (t : Tail), s.sessions[i]? = some x → t ∈ x.tails → t.turn < s.turns.length :=
    fun i x t hi hmem => by
      obtain ⟨turn, hturn, -⟩ := h.held i x t hi hmem
      exact (List.getElem?_eq_some_iff.mp hturn).1
  have hlift : ∀ {k : ℕ} {turn : Turn}, s.turns[k]? = some turn → ∃ turn',
      (supersede s.turns obs ++ [⟨sessionId, obs.ownText, false, false⟩])[k]? = some turn' ∧ turn'.sessionId = turn.sessionId ∧
        turn'.text = turn.text := by
    intro k turn hk
    obtain ⟨turn', hk', hr⟩ := supersede_get s.turns obs hk
    exact ⟨turn', InFlight.append_left _ hk', hr⟩
  have hnew : (supersede s.turns obs ++ [⟨sessionId, obs.ownText, false, false⟩])[s.turns.length]? =
      some ⟨sessionId, obs.ownText, false, false⟩ := by
    rw [← hlen, getElem?_concat_length]
  have hback : ∀ (k : ℕ) (turn : Turn), (supersede s.turns obs ++ [⟨sessionId, obs.ownText, false, false⟩])[k]? = some turn →
      (supersede s.turns obs)[k]? = some turn ∨ k = s.turns.length := by
    intro k turn hk
    rcases InFlight.get_append hk with hk | ⟨rfl, -⟩
    · exact .inl hk
    · exact .inr hlen
  constructor
  · intro j i hi
    obtain ⟨x, hx, hxs⟩ := h.bound j i hi
    by_cases hio : o = i
    · subst hio
      rw [hobs] at hx
      cases hx
      exact ⟨obs.agentEnd s.turns.length, InFlight.set_self _ hobs, hxs⟩
    · exact ⟨x, InFlight.set_other _ (Ne.symm hio) hx, hxs⟩
  · intro i x t hi hmem
    rcases hold i x t hi hmem with ⟨x₀, hx₀, hmem₀, hxs⟩ | ⟨rfl, rfl⟩
    · obtain ⟨turn, hturn, hts, htt⟩ := h.held i x₀ t hx₀ hmem₀
      obtain ⟨turn', hturn', hts', htt'⟩ := hlift hturn
      exact ⟨turn', hturn', hts'.trans (hts.trans hxs.symm), htt'.trans htt⟩
    · rcases hget i x hi with ⟨-, hne⟩ | ⟨-, rfl⟩
      · exact absurd rfl hne
      · exact ⟨_, hnew, hsid.symm, htext.symm⟩
  · intro a ha
    obtain ⟨turn, hturn, hts, htt⟩ := h.told a ha
    obtain ⟨turn', hturn', hts', htt'⟩ := hlift hturn
    exact ⟨turn', hturn', hts'.trans hts, htt'.trans htt⟩
  · exact h.once
  · intro i x t hi hmem
    rcases hold i x t hi hmem with ⟨x₀, hx₀, hmem₀, -⟩ | ⟨-, rfl⟩
    · exact h.fresh i x₀ t hx₀ hmem₀
    · rintro ⟨a, ha, hk⟩
      obtain ⟨turn, hturn, -⟩ := h.told a ha
      have := (List.getElem?_eq_some_iff.mp hturn).1
      rw [hk] at this
      exact absurd this (Nat.lt_irrefl _)
  · intro i x hi
    rcases hget i x hi with ⟨hi, -⟩ | ⟨rfl, rfl⟩
    · exact h.nodup i x hi
    · rw [htails, map_append, nodup_append]
      refine ⟨?_, nodup_singleton _, ?_⟩
      · have := h.nodup i obs hobs
        rw [ObservedSession.tails, map_append] at this
        exact (nodup_append.mp this).1
      · intro a ha b hb hab
        obtain ⟨t, ht, rfl⟩ := mem_map.mp ha
        have hb : b = s.turns.length := by simpa using hb
        have := hsmall i obs t hobs (hpending t ht)
        omega
  · intro i j x y t t' hi hj hmem hmem' hk
    rcases hold i x t hi hmem with ⟨x₀, hx₀, hmem₀, -⟩ | ⟨rfl, rfl⟩
    · rcases hold j y t' hj hmem' with ⟨y₀, hy₀, hmem₁, -⟩ | ⟨rfl, rfl⟩
      · exact h.apart i j x₀ y₀ t t' hx₀ hy₀ hmem₀ hmem₁ hk
      · have := hsmall i x₀ t hx₀ hmem₀
        rw [hk] at this
        exact absurd this (Nat.lt_irrefl _)
    · rcases hold j y t' hj hmem' with ⟨y₀, hy₀, hmem₁, -⟩ | ⟨rfl, rfl⟩
      · have := hsmall j y₀ t' hy₀ hmem₁
        rw [← hk] at this
        exact absurd this (Nat.lt_irrefl _)
      · rfl
  · intro k turn hk hsup hopt
    rcases hback k turn hk with hk | rfl
    · obtain ⟨turn₀, h₀, -, -, hopt₀, hsup₀⟩ := supersede_spec s.turns obs k turn hk
      obtain ⟨hsup₀, hother⟩ := hsup₀ hsup
      refine (h.cover k turn₀ h₀ hsup₀ (hopt₀ ▸ hopt)).imp_right fun ⟨i, x, t, hi, hmem, htk⟩ => ?_
      by_cases hio : o = i
      · subst hio
        rw [hobs] at hi
        cases hi
        refine ⟨o, _, t, InFlight.set_self _ hobs, ?_, htk⟩
        rw [htails]
        refine mem_append_left _ ((mem_append.mp hmem).resolve_right fun hd => ?_)
        exact hother hoverdue t (by simpa using hd) htk
      · exact ⟨i, x, t, InFlight.set_other _ (Ne.symm hio) hi, hmem, htk⟩
    · refine .inr ⟨o, _, ⟨obs.assistantTail, obs.tailVersion, s.turns.length⟩,
        InFlight.set_self _ hobs, ?_, rfl⟩
      rw [htails]
      exact mem_append_right _ mem_cons_self
  · intro i x t turn hi hmem hturn hopt
    rcases hget i x hi with ⟨hi', -⟩ | ⟨rfl, rfl⟩
    · have hsm := hsmall i x t hi' hmem
      rcases hback _ turn hturn with hturn | hk
      · obtain ⟨turn₀, h₀, -, -, hopt₀, -⟩ := supersede_spec s.turns obs _ turn hturn
        exact h.live i x t turn₀ hi' hmem h₀ (hopt₀ ▸ hopt)
      · omega
    · refine .inr ⟨?_, nofun⟩
      show s.observed.get obs.sessionId = some i
      rw [hsid]
      exact ho
  · intro i x hi hf
    rcases hget i x hi with ⟨hi, -⟩ | ⟨rfl, rfl⟩
    · exact h.flying i x hi hf
    · exact h.flying i obs hobs hf

/-! ### The outbox answers -/

theorem tails_accepted (obs : ObservedSession) (t : Tail) :
    (obs.accepted t).tails = obs.pendingTails.tail ++ obs.debouncedTail.toList := by
  show (obs.pendingTails.tail ++ obs.debouncedTail.toList) ++ [] = _
  rw [append_nil]

/-- The flush is in flight as long as a tail is left. -/
theorem flushPromise_accepted (obs : ObservedSession) (t : Tail) :
    (obs.accepted t).flushPromise ≠ none ↔ (obs.accepted t).tails ≠ [] := by
  rw [tails_accepted]
  show (if obs.pendingTails.tail ++ obs.debouncedTail.toList = [] then none else some FlushPhase.label) ≠ none ↔ _
  split
  · next hnil => simp [hnil]
  · next hne => simp [hne]

theorem pendingTails_accepted (obs : ObservedSession) (t : Tail) : (obs.accepted t).pendingTails = (obs.accepted t).tails :=
  (tails_accepted obs t).symm

/-- What was not the oldest tail is still held. -/
theorem tails_of_head {t : Tail} {rest : List Tail} (hp : obs.pendingTails = t :: rest) :
    obs.tails = t :: (obs.accepted t).tails := by
  rw [tails_accepted, ObservedSession.tails, hp]
  rfl

theorem kept_accepted (h : s.Kept) {t : Tail} {rest : List Tail}
    (hobs : s.sessions[o]? = some obs) (hp : obs.pendingTails = t :: rest) :
    ({ s with sessions := s.sessions.set o (obs.accepted t), enqueued := s.enqueued ++ [⟨obs.sessionId, t.tail, t.turn⟩] } : NotificationManager).Kept := by
  have htails := tails_of_head hp
  have hmem : t ∈ obs.tails := htails ▸ mem_cons_self
  have hnodup := h.nodup o obs hobs
  rw [htails, map_cons, nodup_cons] at hnodup
  have hset : (s.sessions.set o (obs.accepted t))[o]? = some (obs.accepted t) := InFlight.set_self _ hobs
  have hget : ∀ (i : ℕ) (x : ObservedSession), (s.sessions.set o (obs.accepted t))[i]? = some x →
      s.sessions[i]? = some x ∧ i ≠ o ∨ i = o ∧ x = obs.accepted t := by
    intro i x hi
    exact (InFlight.get_set hi).symm.imp_left And.symm
  -- every tail that is left was held, and is not the one that was accepted
  have hold : ∀ (i : ℕ) (x : ObservedSession) (u : Tail), (s.sessions.set o (obs.accepted t))[i]? = some x → u ∈ x.tails →
      ∃ x₀, s.sessions[i]? = some x₀ ∧ u ∈ x₀.tails ∧ x.sessionId = x₀.sessionId ∧ u.turn ≠ t.turn := by
    intro i x u hi hu
    rcases hget i x hi with ⟨hi, hne⟩ | ⟨rfl, rfl⟩
    · exact ⟨x, hi, hu, rfl, fun hk => hne (h.apart i o x obs u t hi hobs hu hmem hk)⟩
    · refine ⟨obs, hobs, htails ▸ mem_cons_of_mem t hu, rfl, fun hk => hnodup.1 ?_⟩
      rw [← hk]
      exact mem_map_of_mem hu
  constructor
  · intro j i hi
    obtain ⟨x, hx, hxs⟩ := h.bound j i hi
    by_cases hio : o = i
    · subst hio
      rw [hobs] at hx
      cases hx
      exact ⟨obs.accepted t, hset, hxs⟩
    · exact ⟨x, InFlight.set_other _ (Ne.symm hio) hx, hxs⟩
  · intro i x u hi hu
    obtain ⟨x₀, hx₀, hu₀, hxs, -⟩ := hold i x u hi hu
    rw [hxs]
    exact h.held i x₀ u hx₀ hu₀
  · exact forall_mem_append.mpr ⟨h.told, forall_mem_singleton.mpr (h.held o obs t hobs hmem)⟩
  · rw [map_append, nodup_append]
    refine ⟨h.once, nodup_singleton _, fun k hk k' hk' hkk => ?_⟩
    cases mem_singleton.mp hk'
    obtain ⟨a, ha, hak⟩ := mem_map.mp hk
    exact h.fresh o obs t hobs hmem ⟨a, ha, hak.trans hkk⟩
  · intro i x u hi hu
    obtain ⟨x₀, hx₀, hu₀, -, hne⟩ := hold i x u hi hu
    intro hann
    obtain ⟨a, ha, hak⟩ := hann
    rcases mem_append.mp ha with ha | ha
    · exact h.fresh i x₀ u hx₀ hu₀ ⟨a, ha, hak⟩
    · cases mem_singleton.mp ha
      exact hne hak.symm
  · intro i x hi
    rcases hget i x hi with ⟨hi, -⟩ | ⟨-, rfl⟩
    · exact h.nodup i x hi
    · exact hnodup.2
  · intro i j x y u u' hi hj hu hu' hk
    obtain ⟨x₀, hx₀, hu₀, -⟩ := hold i x u hi hu
    obtain ⟨y₀, hy₀, hu₁, -⟩ := hold j y u' hj hu'
    exact h.apart i j x₀ y₀ u u' hx₀ hy₀ hu₀ hu₁ hk
  · intro k turn hk hsup hopt
    rcases h.cover k turn hk hsup hopt with ⟨a, ha, hak⟩ | ⟨i, x, u, hi, hu, huk⟩
    · exact .inl ⟨a, mem_append_left _ ha, hak⟩
    by_cases hio : o = i
    · subst hio
      rw [hobs] at hi
      cases hi
      rw [htails] at hu
      rcases mem_cons.mp hu with rfl | hu
      · exact .inl ⟨_, mem_append_right _ mem_cons_self, huk⟩
      · exact .inr ⟨o, obs.accepted t, u, hset, hu, huk⟩
    · exact .inr ⟨i, x, u, InFlight.set_other _ (Ne.symm hio) hi, hu, huk⟩
  · intro i x u turn hi hu hturn hopt
    rcases hget i x hi with ⟨hi, -⟩ | ⟨-, rfl⟩
    · exact h.live i x u turn hi hu hturn hopt
    · exact .inl ((flushPromise_accepted obs t).mpr (ne_nil_of_mem hu))
  · intro i x hi hf
    rcases hget i x hi with ⟨hi, -⟩ | ⟨-, rfl⟩
    · exact h.flying i x hi hf
    · rw [pendingTails_accepted]
      exact (flushPromise_accepted obs t).mp hf

/-- The flush fails: the session has a timer for the next one, or what it holds was opted out. -/
theorem kept_rejected (h : s.Kept) {timer : Option TimerKind} (hobs : s.sessions[o]? = some obs)
    (hc : (timer ≠ none ∧ s.observed.get obs.sessionId = some o) ∨ ∀ t ∈ obs.tails, (s.turns[t.turn]?.any Turn.optedOut) = true) :
    ({ s with sessions := s.sessions.set o { obs with flushPromise := none, debounceTimer := timer } } : NotificationManager).Kept := by
  have hlt : o < s.sessions.length := (List.getElem?_eq_some_iff.mp hobs).1
  refine kept_sessions h
    (g := fun i => if o = i then fun x => { x with flushPromise := none, debounceTimer := timer } else id) (fun i => ?_) (.of_eq rfl rfl)
    (fun i x => ?_) (fun i x => ?_) (fun _ _ hi => hi) (fun i x t turn hi hmem hturn hopt ha => ?_) fun i x hi => ?_
  · show (s.sessions.set o _)[i]? = _
    rw [getElem?_set]
    by_cases hio : o = i
    · subst hio
      rw [if_pos rfl, if_pos hlt, if_pos rfl, hobs]
      rfl
    · rw [if_neg hio, if_neg hio]
      simp
  · split <;> rfl
  · split <;> rfl
  · by_cases hio : o = i
    · subst hio
      rw [hobs] at hi
      cases hi
      rw [if_pos rfl]
      rcases hc with ⟨htimer, hget⟩ | hall
      · exact .inr ⟨hget, htimer⟩
      · have hout := hall t hmem
        have hturn : s.turns[t.turn]? = some turn := hturn
        rw [hturn, Option.any_some, hopt] at hout
        cases hout
    · rw [if_neg hio]
      exact ha
  · split
    · intro hf
      exact absurd rfl hf
    · exact h.flying i x hi

theorem kept_stored (h : s.Kept) (o : ℕ) (accepted : Bool) (hc : s.Careful (.stored o accepted)) : (s.stored o accepted).Kept := by
  unfold stored
  split
  · exact h
  next obs hobs =>
  split
  · exact h
  next hphase =>
  have hphase := not_not.mp hphase
  split
  · exact h
  next t rest hp =>
  cases accepted with
  | true => exact kept_accepted h hobs hp
  | false =>
    rw [if_neg (by decide)]
    rcases hc obs hobs hphase with ⟨hs, hget⟩ | hall
    · rw [if_pos ⟨hs, hget⟩]
      exact kept_rejected h hobs (.inl ⟨by decide, hget⟩)
    · split <;> exact kept_rejected h hobs (.inr hall)

/-! ### Runs -/

theorem kept_createNotificationManager : createNotificationManager.Kept := by
  have hnone : ∀ (i : ℕ) (obs : ObservedSession), createNotificationManager.sessions[i]? ≠ some obs := (fun _ _ h => by cases h)
  constructor
  · intro j i hi
    cases hi
  · intro i obs t hi
    exact absurd hi (hnone i obs)
  · intro a ha
    cases ha
  · exact nodup_nil
  · intro i obs t hi
    exact absurd hi (hnone i obs)
  · intro i obs hi
    exact absurd hi (hnone i obs)
  · intro i j obs obs' t t' hi
    exact absurd hi (hnone i obs)
  · intro k turn hk
    cases hk
  · intro i obs t turn hi
    exact absurd hi (hnone i obs)
  · intro i obs hi
    exact absurd hi (hnone i obs)

theorem kept_step (s : NotificationManager) (e : ManagerEvent) (h : s.Kept) (hc : s.Careful e) : (s.step e).Kept := by
  cases e with
  | optIn sessionId wired => exact kept_attach h sessionId wired hc
  | optOut sessionId => exact kept_optOut h sessionId
  | messageStart sessionId assistant =>
    show Kept (if assistant then _ else _)
    split
    · exact kept_onObserved h sessionId fun obs => ⟨rfl, rfl, rfl, rfl, rfl⟩
    · exact h
  | messageUpdate sessionId delta =>
    refine kept_onObserved h sessionId fun obs => ?_
    unfold ObservedSession.messageUpdate
    split <;> exact ⟨rfl, rfl, rfl, rfl, rfl⟩
  | agentEnd sessionId => exact kept_agentEnd h sessionId hc
  | timer o => exact kept_timer h o
  | debounceElapses o => exact kept_debounceElapses h o
  | labelled o => exact kept_labelled h o
  | stored o accepted => exact kept_stored h o accepted hc
  | shutdown => exact kept_shutdown h

/-! ### What waits is announced -/

/-- One more announcement, and the turns stay. -/
def Progress (s : NotificationManager) : Prop :=
  ∃ fs : List ManagerEvent, (∀ e ∈ fs, Willing e) ∧ (fs.foldl step s).Kept ∧ (fs.foldl step s).turns = s.turns ∧
    (fs.foldl step s).enqueued.length = s.enqueued.length + 1

theorem Progress.cons {e : ManagerEvent} (he : Willing e) (hturns : (s.step e).turns = s.turns)
    (henq : (s.step e).enqueued = s.enqueued) (h : (s.step e).Progress) : s.Progress := by
  obtain ⟨fs, hfs, hkept, hft, hfe⟩ := h
  refine ⟨e :: fs, fun f hf => ?_, hkept, hft.trans hturns, by rw [← henq]; exact hfe⟩
  rcases mem_cons.mp hf with rfl | hf
  · exact he
  · exact hfs f hf

theorem onSession_get (hobs : s.sessions[o]? = some obs)
    (f : ObservedSession → ObservedSession) : (s.onSession o f).sessions[o]? = some (f obs) := by
  show (s.sessions.modify o f)[o]? = _
  rw [getElem?_modify, hobs]
  simp

section

variable (h : s.Kept) (hobs : s.sessions[o]? = some obs)
include h hobs

theorem progress_outbox (hf : obs.flushPromise = some .outbox) : s.Progress := by
  have hne := h.flying o obs hobs (by rw [hf]; decide)
  obtain ⟨t, rest, hp⟩ := exists_cons_of_ne_nil hne
  have hstep : s.step (.stored o true) =
      { s with sessions := s.sessions.set o (obs.accepted t), enqueued := s.enqueued ++ [⟨obs.sessionId, t.tail, t.turn⟩] } := by
    simp only [step, stored, hobs, hf, hp]
    rfl
  refine ⟨[.stored o true], fun e he => ?_, ?_, ?_, ?_⟩
  · cases mem_singleton.mp he
    trivial
  · rw [foldl_cons, hstep]
    exact kept_accepted h hobs hp
  · rw [foldl_cons, hstep]
    rfl
  · rw [foldl_cons, hstep]
    exact length_append

theorem progress_flight (hf : obs.flushPromise ≠ none) : s.Progress := by
  obtain ⟨phase, hphase⟩ := Option.ne_none_iff_exists'.mp hf
  cases phase with
  | outbox => exact progress_outbox h hobs hphase
  | label =>
    refine Progress.cons (e := .labelled o) trivial rfl rfl (progress_outbox (kept_labelled h o) (onSession_get hobs _) ?_)
    rw [if_pos hphase]

theorem progress_alive (hne : obs.tails ≠ []) (ha : s.Alive o obs) : s.Progress := by
  rcases ha with hf | ⟨-, htimer⟩
  · exact progress_flight h hobs hf
  · refine Progress.cons (e := .timer o) trivial rfl rfl (progress_flight (kept_timer h o) (onSession_get hobs _) ?_)
    rw [if_pos (Option.isSome_iff_ne_none.mpr htimer)]
    exact flushPromise_flush hne

end

theorem length_enqueued_le (h : s.Kept) : s.enqueued.length ≤ s.turns.length := by
  have hsub : s.enqueued.map Announcement.turn ⊆ List.range s.turns.length := by
    intro k hk
    obtain ⟨a, ha, rfl⟩ := mem_map.mp hk
    obtain ⟨turn, hturn, -⟩ := h.told a ha
    exact List.mem_range.mpr (List.getElem?_eq_some_iff.mp hturn).1
  simpa using (h.once.subperm hsub).length_le

/-- By induction on the turns that are not announced. -/
theorem Kept.leads (h : s.Kept) : s.Leads := by
  induction hn : s.turns.length - s.enqueued.length generalizing s with
  | zero =>
    refine ⟨[], forall_mem_nil _, rfl, fun k turn hk hsup hopt => ?_⟩
    refine (h.cover k turn hk hsup hopt).resolve_right fun ⟨o, obs, t, hobs, hmem, htk⟩ => ?_
    obtain ⟨fs, -, hkept, hturns, hlen⟩ := progress_alive h hobs (ne_nil_of_mem hmem) (h.live o obs t turn hobs hmem (htk ▸ hk) hopt)
    have hle := length_enqueued_le hkept
    rw [hturns, hlen] at hle
    omega
  | succ n ih =>
    by_cases hall : ∀ (k : ℕ) (turn : Turn), s.turns[k]? = some turn → turn.superseded = false → turn.optedOut = false → s.Announces k
    · exact ⟨[], forall_mem_nil _, rfl, hall⟩
    push Not at hall
    obtain ⟨k, turn, hk, hsup, hopt, hnot⟩ := hall
    obtain ⟨o, obs, t, hobs, hmem, htk⟩ := (h.cover k turn hk hsup hopt).resolve_left hnot
    obtain ⟨fs, hfs, hkept, hturns, hlen⟩ := progress_alive h hobs (ne_nil_of_mem hmem) (h.live o obs t turn hobs hmem (htk ▸ hk) hopt)
    obtain ⟨gs, hgs, hturns', hann⟩ := ih hkept (by rw [hturns, hlen]; omega)
    refine ⟨fs ++ gs, fun e he => ?_, ?_, fun k turn hk hsup hopt => ?_⟩
    · exact (mem_append.mp he).elim (hfs e) (hgs e)
    · rw [foldl_append]
      exact hturns'.trans hturns
    · rw [foldl_append]
      exact hann k turn (hturns ▸ hk) hsup hopt

instance (s : NotificationManager) (e : ManagerEvent) : Decidable (s.Careful e) := by
  unfold Careful
  split <;> infer_instance

/-- In every state of a careful run each turn is announced once, or about to be, and what is about to be will be. -/
theorem announced (es : List ManagerEvent) (h : Run.Along step Careful createNotificationManager es) :
    (es.foldl step createNotificationManager).Announced ∧ (es.foldl step createNotificationManager).Leads := by
  have hkept := Run.invariant kept_step kept_createNotificationManager h
  exact ⟨announced_of_kept hkept, hkept.leads⟩

/-- A turn whose first write fails, and one that is pending at the shutdown. -/
def retriedTurns : List ManagerEvent :=
  [.optIn (js "a") true, .messageStart (js "a") true, .messageUpdate (js "a") (js "x"), .agentEnd (js "a"), .timer 0, .labelled 0,
    .stored 0 false, .timer 0, .labelled 0, .stored 0 true, .messageStart (js "a") true, .messageUpdate (js "a") (js "y"),
    .agentEnd (js "a"), .shutdown]

theorem announced_retried :
    (retriedTurns.foldl step createNotificationManager).Announced ∧ (retriedTurns.foldl step createNotificationManager).Leads :=
  announced retriedTurns (by decide +kernel)

instance (s : NotificationManager) (o : ℕ) (obs : ObservedSession) : Decidable (s.Alive o obs) :=
  inferInstanceAs (Decidable (obs.flushPromise ≠ none ∨ s.observed.get obs.sessionId = some o ∧ obs.debounceTimer ≠ none))

theorem not_awaits {k : ℕ} (h : ∀ p ∈ s.sessions.zipIdx, ∀ t ∈ p.1.tails, t.turn = k → ¬ s.Alive p.2 p.1) : ¬ s.Awaits k := by
  intro ha
  obtain ⟨o, obs, t, hobs, ht, htk, halive⟩ := ha
  exact h (obs, o) (mem_zipIdx_iff_getElem?.mpr hobs) t ht htk halive

/-- The debounce time of the second turn passes while the flush of the first waits for its label. -/
def joinedFlush : List ManagerEvent :=
  [.optIn (js "a") true, .agentEnd (js "a"), .timer 0, .agentEnd (js "a"), .timer 0, .agentEnd (js "a"), .timer 0]

theorem a_joined_flush_loses_a_turn : ¬ ∀ es : List ManagerEvent, (es.foldl step createNotificationManager).Announced := by
  intro h
  rcases (h joinedFlush 1 ⟨js "a", [], false, false⟩ (by decide +kernel)).2.2 rfl rfl with ⟨a, ha, -⟩ | ha
  · have hnone : (joinedFlush.foldl step createNotificationManager).enqueued = [] := by decide +kernel
    rw [hnone] at ha
    cases ha
  · exact not_awaits (by decide +kernel) ha

theorem opting_in_again_loses_a_turn : ¬ ∀ es : List ManagerEvent, (es.foldl step createNotificationManager).Announced := by
  intro h
  have hrun := h [.optIn (js "a") true, .agentEnd (js "a"), .optIn (js "a") true] 0 ⟨js "a", [], false, false⟩ (by decide +kernel)
  rcases hrun.2.2 rfl rfl with ⟨a, ha, -⟩ | ha
  · cases ha
  · exact not_awaits (by decide +kernel) ha

/-- The first turn's text is kept until its announcement is accepted, and the second one has none. -/
def staleTail : List ManagerEvent :=
  [.optIn (js "a") true, .messageStart (js "a") true, .messageUpdate (js "a") (js "x"), .agentEnd (js "a"), .timer 0, .agentEnd (js "a"),
    .labelled 0, .stored 0 true, .labelled 0, .stored 0 true]

theorem a_stale_tail_is_announced_again : ¬ ∀ es : List ManagerEvent, (es.foldl step createNotificationManager).Announced := by
  intro h
  have hrun := (h staleTail 1 ⟨js "a", [], false, false⟩ (by decide +kernel)).2.1 ⟨js "a", js "x", 1⟩ (by decide +kernel) rfl
  exact absurd hrun.2 (by decide)

end NotificationManager

end PiWebUi.Notifications
