/-
  PiWebUi.CommandCode.OneTurn — one turn for a session, and none left behind.

  Along a run in which no `onComplete` starts a turn on its own session and no turn that
  never got to its body leaves the record running, every step keeps to one turn for a
  session and to `concurrency` active ones, a turn that settles leaves its session free, and
  it takes nothing from another (`one_turn_each`). A record can be left running in two ways:
  the write of the running record fails after the record was set, and the reconciliation at
  the start fails before it comes to the record.
-/

import PiWebUi.CommandCode.TurnMarkers

namespace PiWebUi.CommandCode

open PiWebUi.Lib List Option

namespace CommandCodeService

/-! ## What is claimed of a step -/

/-- The state a turn's finally block finds, and the session, if the step ends a turn. -/
def beforeFinally (s : CommandCodeService) (k : ℕ) (answer : Answer) (calls : List Call) : Option (JsString × CommandCodeService) :=
  match s.turns[k]? with
  | none => none
  | some t =>
    match s.resume k t t.phase answer with
    | (_, none) => none
    | (s', some outcome) => some (t.sessionId, s'.ended k t.sessionId calls outcome)

theorem turnGoesOn_of_beforeFinally {s mid : CommandCodeService} {k : ℕ} {answer : Answer} {calls : List Call} {sessionId : JsString}
    (h : s.beforeFinally k answer calls = some (sessionId, mid)) : s.turnGoesOn k answer calls = mid.settle k sessionId := by
  cases ht : s.turns[k]? with
  | none =>
    simp only [beforeFinally, ht] at h
    cases h
  | some t =>
    rcases hr : s.resume k t t.phase answer with ⟨s', outcome⟩
    simp only [beforeFinally, ht, hr] at h
    simp only [turnGoesOn, ht, hr]
    cases outcome with
    | none => cases h
    | some o =>
      cases h
      rfl

/-- The session is in no set of the service and its record does not say that it runs. -/
structure Left (s : CommandCodeService) (sessionId : JsString) : Prop where
  pending : s.pendingSessions.has sessionId = false
  active : s.activeSessions.has sessionId = false
  abort : s.abortRequested.has sessionId = false
  record : s.records.get sessionId ≠ some .running

structure SameMarkers (s s' : CommandCodeService) (sessionId : JsString) : Prop where
  pending : s'.pendingSessions.has sessionId = s.pendingSessions.has sessionId
  active : s'.activeSessions.has sessionId = s.activeSessions.has sessionId
  abort : s'.abortRequested.has sessionId = s.abortRequested.has sessionId
  inFlight : s'.inFlightTurns.get sessionId = s.inFlightTurns.get sessionId

/-- After the step a session has one turn in flight at most and `concurrency` are active at
    most; if it settles a turn, the session is left unless another turn of it is in flight,
    and the markers of every turn in flight are those the finally block found. -/
structure KeepsToOneTurn (s : CommandCodeService) (e : ServiceEvent) : Prop where
  one : ∀ (i j : ℕ) (t u : Turn), (s.step e).turns[i]? = some t → (s.step e).turns[j]? = some u →
    t.inFlight = true → u.inFlight = true → t.sessionId = u.sessionId → i = j
  within : ((s.step e).turns.filter (·.phase.active)).length ≤ (s.step e).concurrency
  leaves : ∀ k answer calls sessionId mid, e = .turn k answer calls → s.beforeFinally k answer calls = some (sessionId, mid) →
    (s.step e).Free sessionId → (s.step e).Left sessionId
  keeps : ∀ k answer calls sessionId mid, e = .turn k answer calls → s.beforeFinally k answer calls = some (sessionId, mid) →
    ∀ (j : ℕ) (u : Turn), mid.turns[j]? = some u → u.inFlight = true → SameMarkers mid (s.step e) u.sessionId

/-- The turn ends here and its record says that it runs: the write of that record failed, or
    the reconciliation did. -/
def leavesRunning (s : CommandCodeService) (t : Turn) : Answer → Bool
  | .failed _ =>
    (t.phase = .save .running || (t.phase = .init && s.initState = .failed)) && s.records.get t.sessionId = some .running
  | _ => false

def NoneLeftRunning (s : CommandCodeService) : ServiceEvent → Prop
  | .turn k answer _ => ∀ t ∈ s.turns[k]?, s.leavesRunning t answer = false
  | _ => True

/-! ## Who holds a running record -/

end CommandCodeService

/-- The turn has stored that it runs, and nothing since. -/
def Phase.holdsRunning : Phase → Bool
  | .save .running | .sync .running | .emitStart _ | .canonicalCwd | .goalArming | .sessionIdentity | .child | .streamQueue _
  | .bind _ | .syncBound _ | .emitFinal _ | .store (.final _ _) | .emitEnd _ | .store (.failed _ _) => true
  | _ => false

namespace CommandCodeService

/-- Once the service has started, a running record is held by a turn. -/
def Held (s : CommandCodeService) : Prop :=
  s.initState = .done → ∀ x, s.records.get x = some .running →
    ∃ (i : ℕ) (t : Turn), s.turns[i]? = some t ∧ t.sessionId = x ∧ t.phase.holdsRunning = true

variable {s s' : CommandCodeService}

theorem inFlight_of_holds {p : Phase} (h : p.holdsRunning = true) : p.inFlight = true := by
  cases p <;> first | rfl | cases h

/-- A turn in flight that does not hold it: the record of its session does not run. -/
theorem not_running (hm : s.Marked) (h : s.Held) {k : ℕ} {t : Turn} (ht : s.turns[k]? = some t)
    (hin : t.inFlight = true) (hd : s.initState = .done) (hp : t.phase.holdsRunning = false) :
    s.records.get t.sessionId ≠ some .running := by
  intro hr
  obtain ⟨i, u, hu, hs, hh⟩ := h hd _ hr
  have hi := hm.one i k u t hu ht (inFlight_of_holds hh) hin hs
  subst hi
  cases hu.symm.trans ht
  rw [hp] at hh
  cases hh

/-- Turn `k` becomes `t'`, and no record but that of its session changes. -/
theorem held_change (h : s.Held) {k : ℕ} {t t' : Turn} (ht : s.turns[k]? = some t)
    (hturns : s'.turns = s.turns.set k t') (hs : t'.sessionId = t.sessionId) (hd : s'.initState = s.initState)
    (hrec : ∀ y, y ≠ t.sessionId → s'.records.get y = s.records.get y)
    (hx : s.initState = .done → s'.records.get t.sessionId = some .running → t'.phase.holdsRunning = true) : s'.Held := by
  intro hdone y hy
  rw [hd] at hdone
  by_cases hyx : y = t.sessionId
  · subst hyx
    exact ⟨k, t', hturns ▸ InFlight.set_self t' ht, hs, hx hdone hy⟩
  · rw [hrec y hyx] at hy
    obtain ⟨i, u, hu, hus, hh⟩ := h hdone y hy
    have hik : i ≠ k := by
      rintro rfl
      cases hu.symm.trans ht
      exact hyx hus.symm
    exact ⟨i, u, hturns ▸ InFlight.set_other t' hik hu, hus, hh⟩

/-- The turn is at another await; if it held the running record it still does. -/
theorem held_modifyTurn (hm : s.Marked) (h : s.Held) {k : ℕ} {t : Turn} (ht : s.turns[k]? = some t)
    (hin : t.inFlight = true) {f : Turn → Turn} (hs : (f t).sessionId = t.sessionId)
    (hp : t.phase.holdsRunning = true → (f t).phase.holdsRunning = true) : (s.modifyTurn k f).Held := by
  refine held_change h ht (modify_eq_set ht f) hs rfl (fun _ _ => rfl) fun hd hr => ?_
  apply hp
  by_contra hn
  exact not_running hm h ht hin hd (by simpa using hn) hr

/-- Nothing that holds a running record is gone. -/
theorem held_mono (h : s.Held) (hd : s'.initState = .done → s.initState = .done)
    (hrec : ∀ x, s'.records.get x = some .running → s.records.get x = some .running)
    (hturns : ∀ (i : ℕ) (t : Turn), s.turns[i]? = some t → ∃ t', s'.turns[i]? = some t' ∧ t'.sessionId = t.sessionId ∧
      (t.phase.holdsRunning = true → t'.phase.holdsRunning = true)) : s'.Held := by
  intro hdone x hx
  obtain ⟨i, t, ht, hs, hh⟩ := h (hd hdone) x (hrec x hx)
  obtain ⟨t', ht', hs', hh'⟩ := hturns i t ht
  exact ⟨i, t', ht', hs'.trans hs, hh' hh⟩

theorem held_of_sameMarks (h : s.Held) (hm : SameMarks s s')
    (hd : s'.initState = .done → s.initState = .done)
    (hrec : ∀ x, s'.records.get x = some .running → s.records.get x = some .running) : s'.Held := by
  refine held_mono h hd hrec fun i t ht => ?_
  have hi : (s.turns.map fun t => (t.sessionId, t.phase))[i]? = some (t.sessionId, t.phase) := by simp [ht]
  rw [← hm.turns, getElem?_map, map_eq_some_iff] at hi
  obtain ⟨t', ht', he⟩ := hi
  refine ⟨t', ht', (Prod.mk.inj he).1, fun hh => ?_⟩
  rw [(Prod.mk.inj he).2]
  exact hh

/-! ## A turn goes on -/

/-- A step of the turn keeps running records held; where it ends the turn, the record of its
    session does not run. -/
structure Holds (s : CommandCodeService) (t : Turn) (r : Resumed) : Prop where
  goesOn : r.2 = none → r.1.Held
  ends : r.2.isSome = true → r.1.records = s.records ∧ r.1.turns = s.turns ∧ r.1.initState = s.initState ∧
    s.records.get t.sessionId ≠ some .running

theorem holds_goesOn {t : Turn} (h : s'.Held) : Holds s t (s', none) := ⟨fun _ => h, nofun⟩

theorem holds_ends {t : Turn} (h : s.records.get t.sessionId ≠ some .running) (o : Outcome) :
    Holds s t (s, some o) := ⟨nofun, fun _ => ⟨rfl, rfl, rfl, h⟩⟩

section

variable {s : CommandCodeService} (hm : s.Marked) (h : s.Held) {k : ℕ} {t : Turn} (ht : s.turns[k]? = some t)
include hm h ht

theorem held_moveTo
    (hin : t.inFlight = true) {p : Phase} (hp : t.phase.holdsRunning = true → p.holdsRunning = true) : (s.moveTo k p).Held :=
  held_modifyTurn hm h ht hin (f := fun t => { t with phase := p }) rfl hp

theorem held_fail (hin : t.inFlight = true) (error : TurnError) : (s.fail k t error).Held := by
  unfold fail
  split <;> exact held_moveTo hm h ht hin fun _ => rfl

theorem held_emitting (hin : t.inFlight = true) (t₀ : Turn) (f : Finished) : (s.emitting k t₀ f).Held := by
  unfold emitting
  split <;> exact held_moveTo hm h ht hin fun _ => rfl

theorem held_emitted (hin : t.inFlight = true) (f : Finished) : (s.emitted k t f).Held := by
  unfold emitted
  split
  · exact h
  · next terminal rest hf =>
    have hs := sameMarks_modifyTurn s k (f := fun t => { t with emittedTerminal := t.emittedTerminal || terminal })
      (fun _ => rfl) fun _ _ => rfl
    have hget : (s.modifyTurn k fun t => { t with emittedTerminal := t.emittedTerminal || terminal }).turns[k]? =
        some { t with emittedTerminal := t.emittedTerminal || terminal } := by
      simp [modifyTurn, ht]
    exact held_emitting (hs.marked hm) (held_of_sameMarks h hs id fun _ => id) hget hin t _

theorem held_claim (hp : t.phase.pending = true) : (s.claim k t.sessionId).Held := by
  refine held_change h ht (modify_eq_set ht fun t => { t with phase := .store .running }) rfl rfl (fun _ _ => rfl)
    fun hd hr => absurd hr (not_running hm h ht (inFlight_of_pending hp) hd ?_)
  cases hph : t.phase <;> rw [hph] at hp <;> first | rfl | cases hp

theorem holds_admits (again : Bool) (record : Option RecordState) (hp : t.phase = .got again record) (checks : Checks) :
    Holds s t (s.admits k t again record checks) := by
  have hin : t.inFlight = true := by rw [Turn.inFlight, hp]; rfl
  have hd : s.initState = .done := initState_done hm ht hin (by rw [hp]; exact fun h => by cases h)
  have hno := not_running hm h ht hin hd (by rw [hp]; rfl)
  unfold admits
  split
  · split
    · exact holds_ends hno _
    · exact holds_goesOn (held_moveTo hm h ht hin fun hh => by rw [hp] at hh; cases hh)
  · split
    · exact holds_ends hno _
    · exact holds_goesOn (held_claim hm h ht (by rw [hp]; rfl))

/-- An update that throws ends a turn before its body or in its catch block. -/
theorem holds_updateFailed (hin : t.inFlight = true) (u : Update) (error : TurnError)
    (hno : u = .running ∨ (∃ aborted e, u = .failed aborted e) → s.records.get t.sessionId ≠ some .running) :
    Holds s t (s.updateFailed k t u error) := by
  unfold updateFailed
  split
  · exact ⟨nofun, fun _ => ⟨rfl, rfl, rfl, hno (.inl rfl)⟩⟩
  · exact holds_goesOn (held_fail hm h ht hin error)
  · exact holds_goesOn (held_fail hm h ht hin error)
  · next aborted e => exact holds_ends (hno (.inr ⟨aborted, e, rfl⟩)) _

end

theorem state_ne_running {u : Update} (h : u ≠ .running) : u.state ≠ .running := by
  cases u with
  | running => exact absurd rfl h
  | final aborted error => cases aborted <;> cases error <;> nofun
  | aborted => nofun
  | failed aborted error => cases aborted <;> nofun

theorem holds_storeUpdate (hm : s.Marked) (h : s.Held) {k : ℕ} {t : Turn} (ht : s.turns[k]? = some t)
    (u : Update) (hp : t.phase = .store u) (valid : Bool) : Holds s t (s.storeUpdate k t u valid) := by
  have hin : t.inFlight = true := by rw [Turn.inFlight, hp]; rfl
  have hd : s.initState = .done := initState_done hm ht hin (by rw [hp]; exact fun h => by cases h)
  unfold storeUpdate
  split
  · refine holds_goesOn (held_change h ht (modify_eq_set ht fun t => { t with phase := .save u, stored := some u.state })
      rfl rfl (fun y hy => ?_) fun _ hr => ?_)
    · show (s.records.set t.sessionId u.state).get y = _
      rw [JsMap.get_set_ne _ _ hy]
    · have hr : (s.records.set t.sessionId u.state).get t.sessionId = some .running := hr
      rw [JsMap.get_set_same] at hr
      have hu : u = .running := by
        by_contra hne
        exact state_ne_running hne (some.inj hr)
      rw [hu]
      rfl
  · next hif =>
    refine holds_updateFailed hm h ht hin u .other fun hu => ?_
    rcases hu with rfl | ⟨aborted, e, rfl⟩
    · exact not_running hm h ht hin hd (by rw [hp]; rfl)
    · -- the patch of the catch block is valid, so there is no record
      intro hr
      apply hif
      rw [JsMap.has_iff_get.mpr (by rw [hr]; rfl)]
      rfl

theorem held_restore (h : s.Held) (sessionId : JsString) (restorable : Bool) :
    (s.restore sessionId restorable).Held := by
  refine held_of_sameMarks h (sameMarks_restore s sessionId restorable) ?_ fun x hx => ?_
  · unfold restore
    split <;> exact id
  · unfold restore at hx
    split at hx
    · have hx : (s.records.set sessionId .created).get x = some .running := hx
      rcases JsMap.get_set_eq_some.mp hx with ⟨-, h⟩ | ⟨-, hx⟩
      · cases h
      · exact hx
    · exact hx

section

variable {s : CommandCodeService} (hm : s.Marked) (h : s.Held) {k : ℕ} {t : Turn} (ht : s.turns[k]? = some t)
  (hin : t.inFlight = true)
include hm h ht hin

theorem held_spawn : (s.spawn k t).Held := by
  unfold spawn
  split
  · exact held_fail hm h ht hin .other
  · have hs : SameMarks s { s with running := s.running.set t.sessionId ⟨k, none⟩ } := ⟨rfl, rfl, rfl, rfl, id⟩
    exact held_moveTo (s := { s with running := s.running.set t.sessionId ⟨k, none⟩ }) (hs.marked hm)
      (held_of_sameMarks h hs id fun _ => id) ht hin fun _ => rfl

theorem holds_resume {answer : Answer} (hleft : s.leavesRunning t answer = false) : Holds s t (s.resume k t t.phase answer) := by
  generalize hp : t.phase = p
  have hno : p.holdsRunning = false → s.initState = .done → s.records.get t.sessionId ≠ some .running := fun hh hd =>
    not_running hm h ht hin hd (by rwa [hp])
  have hdone : p ≠ .init → s.initState = .done := fun hne => initState_done hm ht hin (by rwa [hp])
  have hmove : ∀ {q : Phase}, (p.holdsRunning = true → q.holdsRunning = true) → Holds s t (s.moveTo k q, none) := fun hq =>
    holds_goesOn (held_moveTo hm h ht hin (by rwa [hp]))
  have hfail : ∀ error : TurnError, Holds s t (s.fail k t error, none) := fun error => holds_goesOn (held_fail hm h ht hin error)
  cases p with
  | init =>
    cases answer with
    | failed error =>
      simp only [resume]
      split
      · next hf =>
        refine holds_ends (fun hr => ?_) _
        simp [leavesRunning, hp, hf, hr] at hleft
      · exact holds_goesOn h
    | checked checks =>
      simp only [resume]
      split
      · exact holds_goesOn h
      · next hd =>
        split
        · exact holds_ends (hno rfl (not_not.mp hd)) _
        · split
          · exact holds_ends (hno rfl (not_not.mp hd)) _
          · exact hmove (fun h => by cases h)
    | ok | finished => exact holds_goesOn h
  | get again =>
    cases answer with
    | ok => exact hmove (fun h => by cases h)
    | failed | checked | finished => exact holds_goesOn h
  | got again record =>
    cases answer with
    | checked checks => exact holds_admits hm h ht again record hp checks
    | ok | failed | finished => exact holds_goesOn h
  | hasSession =>
    cases answer with
    | checked checks =>
      have hs := sameMarks_restore s t.sessionId checks.restorable
      have hget : (s.restore t.sessionId checks.restorable).turns[k]? = some t := by
        unfold restore
        split <;> exact ht
      exact holds_goesOn (held_moveTo (hs.marked hm) (held_restore h _ _) hget hin (by rw [hp]; exact fun h => by cases h))
    | ok | failed | finished => exact holds_goesOn h
  | store u =>
    cases answer with
    | checked checks => exact holds_storeUpdate hm h ht u hp checks.valid
    | ok | failed | finished => exact holds_goesOn h
  | save u =>
    cases answer with
    | ok => exact hmove (by cases u <;> exact id)
    | failed error =>
      refine holds_updateFailed hm h ht hin u error fun hu hr => ?_
      rcases hu with rfl | ⟨aborted, e, rfl⟩
      · simp [leavesRunning, hp, hr] at hleft
      · exact hno rfl (hdone (fun h => by cases h)) hr
    | checked | finished => exact holds_goesOn h
  | sync u =>
    cases answer with
    | ok =>
      simp only [resume]
      unfold synced
      split
      · exact hmove fun _ => rfl
      · split
        · exact hmove (fun h => by cases h)
        · exact holds_ends (hno rfl (hdone (fun h => by cases h))) _
      · exact holds_ends (hno rfl (hdone (fun h => by cases h))) _
      · exact holds_ends (hno rfl (hdone (fun h => by cases h))) _
    | failed | checked | finished => exact holds_goesOn h
  | emitStart left =>
    cases answer with
    | ok => exact hmove fun _ => by split <;> rfl
    | failed error => exact hfail error
    | checked | finished => exact holds_goesOn h
  | canonicalCwd =>
    cases answer with
    | ok =>
      simp only [resume]
      split
      · exact hfail _
      · exact hmove fun _ => rfl
    | failed error => exact hfail error
    | checked | finished => exact holds_goesOn h
  | goalArming | bind f =>
    cases answer with
    | ok => exact hmove fun _ => rfl
    | failed error => exact hfail error
    | checked | finished => exact holds_goesOn h
  | sessionIdentity =>
    cases answer with
    | ok => exact holds_goesOn (held_spawn hm h ht hin)
    | failed error => exact hfail error
    | checked | finished => exact holds_goesOn h
  | child | settled outcome => cases answer <;> exact holds_goesOn h
  | streamQueue result =>
    cases answer with
    | finished binds emits =>
      simp only [resume]
      split
      · exact hmove fun _ => rfl
      · exact holds_goesOn (held_emitting hm h ht hin t _)
    | failed error => exact hfail error
    | ok | checked => exact holds_goesOn h
  | syncBound f =>
    cases answer with
    | ok => exact holds_goesOn (held_emitting hm h ht hin t f)
    | failed | checked | finished => exact holds_goesOn h
  | emitFinal f =>
    cases answer with
    | ok => exact holds_goesOn (held_emitted hm h ht hin f)
    | failed error => exact hfail error
    | checked | finished => exact holds_goesOn h
  | emitEnd error =>
    cases answer with
    | ok | failed => exact hmove fun _ => rfl
    | checked | finished => exact holds_goesOn h

end

/-! ## A call, the end of a turn, every step -/

theorem terminate_keeps (s : CommandCodeService) (x : JsString) (cause : TerminationCause) :
    (s.terminate x cause).records = s.records ∧ (s.terminate x cause).initState = s.initState := by
  unfold terminate
  split
  · exact ⟨rfl, rfl⟩
  · split <;> exact ⟨rfl, rfl⟩

theorem terminateAll_keeps (ids : List JsString) (cause : TerminationCause) : ∀ s : CommandCodeService,
    (ids.foldl (fun (s : CommandCodeService) x => s.terminate x cause) s).records = s.records ∧
      (ids.foldl (fun (s : CommandCodeService) x => s.terminate x cause) s).initState = s.initState := by
  induction ids with
  | nil => exact fun _ => ⟨rfl, rfl⟩
  | cons x ids ih =>
    intro s
    rw [foldl_cons, (ih _).1, (ih _).2]
    exact terminate_keeps s x cause

/-- No call changes a record before its first await. -/
theorem call_keeps (s : CommandCodeService) (c : Call) : (s.call c).records = s.records ∧ (s.call c).initState = s.initState := by
  cases c with
  | sendPrompt x =>
    show (s.sendPrompt x).records = _ ∧ (s.sendPrompt x).initState = _
    unfold sendPrompt
    split <;> exact ⟨rfl, rfl⟩
  | setEffort x =>
    show (s.setEffort x).records = _ ∧ (s.setEffort x).initState = _
    unfold setEffort
    split <;> exact ⟨rfl, rfl⟩
  | abort x =>
    show (s.abort x).records = _ ∧ (s.abort x).initState = _
    unfold abort
    split
    · exact ⟨rfl, rfl⟩
    · exact terminate_keeps _ x .abort
  | deleteSession x => exact terminate_keeps _ x .abort
  | shutdown =>
    show s.shutdown.records = _ ∧ s.shutdown.initState = _
    unfold shutdown
    split
    · exact ⟨rfl, rfl⟩
    · exact terminateAll_keeps _ .shutdown _

theorem held_call (h : s.Held) (c : Call) : (s.call c).Held := by
  have hkeeps := call_keeps s c
  have hd : (s.call c).initState = .done → s.initState = .done := fun hd => by rwa [hkeeps.2] at hd
  have hrec : ∀ x, (s.call c).records.get x = some .running → s.records.get x = some .running := fun x hx => by
    rwa [hkeeps.1] at hx
  cases c with
  | sendPrompt x =>
    refine held_mono h hd hrec fun i t ht => ⟨t, ?_, rfl, id⟩
    show (s.sendPrompt x).turns[i]? = some t
    unfold sendPrompt
    split
    · exact ht
    · obtain ⟨hlt, -⟩ := List.getElem?_eq_some_iff.mp ht
      exact (getElem?_append_left hlt).trans ht
  | setEffort x => exact held_of_sameMarks h (sameMarks_setEffort s x) hd hrec
  | abort x => exact held_of_sameMarks h (sameMarks_abort s x) hd hrec
  | deleteSession x => exact held_of_sameMarks h (sameMarks_deleteSession s x) hd hrec
  | shutdown => exact held_of_sameMarks h (sameMarks_shutdown s) hd hrec

theorem held_calls (calls : List Call) : ∀ {s : CommandCodeService}, s.Held →
    (calls.foldl call s).Held ∧ (calls.foldl call s).records = s.records := by
  induction calls with
  | nil => exact fun h => ⟨h, rfl⟩
  | cons c calls ih =>
    intro s h
    obtain ⟨hh, hr⟩ := ih (held_call h c)
    exact ⟨hh, hr.trans (call_keeps s c).1⟩

/-- Up to the finally block: the record of the session does not run. -/
theorem held_ended (h : s.Held) {k : ℕ} {t : Turn} (ht : s.turns[k]? = some t)
    (hs : s'.records = s.records ∧ s'.turns = s.turns ∧ s'.initState = s.initState ∧ s.records.get t.sessionId ≠ some .running)
    (calls : List Call) (o : Outcome) :
    (s'.ended k t.sessionId calls o).Held ∧ (s'.ended k t.sessionId calls o).records = s.records := by
  obtain ⟨hrec, hturns, hd, hno⟩ := hs
  have hsettled : ∀ u : CommandCodeService, u.turns = s.turns.modify k (fun t => { t with phase := .settled o }) →
      u.records = s.records → u.initState = s.initState → u.Held := by
    intro u hu hur hud
    refine held_change h ht (hu.trans (modify_eq_set ht _)) rfl hud (fun y _ => by rw [hur]) fun _ hr => ?_
    rw [hur] at hr
    exact absurd hr hno
  cases o with
  | rejected error => exact ⟨hsettled _ (by rw [← hturns]; rfl) hrec hd, hrec⟩
  | completed error =>
    obtain ⟨hh, hr⟩ := held_calls calls (hsettled
      ({ s' with activeSessions := s'.activeSessions.delete t.sessionId }.moveTo k (.settled (.completed error)))
      (by rw [← hturns]; rfl) hrec hd)
    exact ⟨hh, hr.trans hrec⟩

theorem held_settle (h : s.Held) (k : ℕ) (sessionId : JsString) : (s.settle k sessionId).Held :=
  held_mono h id (fun _ => id) fun _ t ht => ⟨t, ht, rfl, id⟩

theorem get_foldl_failed (ids : List JsString) (x : JsString) : ∀ m : JsMap JsString RecordState,
    (ids.foldl (fun m y => m.set y .failed) m).get x = if x ∈ ids then some .failed else m.get x := by
  induction ids with
  | nil => simp
  | cons y ids ih =>
    intro m
    rw [foldl_cons, ih, JsMap.get_set]
    by_cases hy : x = y <;> simp [hy]

theorem reconcile_all (records : JsMap JsString RecordState) (x : JsString) : (reconcile records none).get x ≠ some .running := by
  simp only [reconcile]
  rw [get_foldl_failed]
  split
  · exact fun h => by cases h
  · next hx =>
    intro hr
    exact hx (mem_map_of_mem (f := Prod.fst) (mem_filter.mpr ⟨JsMap.get_eq_some.mp hr, by simp⟩))

theorem held_initSettles (h : s.Held) (failed : Option ℕ) : (s.initSettles failed).Held := by
  unfold initSettles
  split
  · exact h
  · intro hd x hx
    cases failed with
    | none => exact absurd hx (reconcile_all s.records x)
    | some n => cases hd

theorem held_cancelGoesOn (h : s.Held) (k : ℕ) : (s.cancelGoesOn k).Held := by
  refine held_of_sameMarks h (sameMarks_cancelGoesOn s k) ?_ ?_
  · unfold cancelGoesOn
    split
    · exact id
    · repeat' split
      all_goals exact id
  · intro x
    unfold cancelGoesOn
    split
    · exact id
    · split
      · split <;> exact id
      · split <;> exact id
      · split
        · exact fun hx => (JsMap.get_delete_eq_some.mp hx).2
        · exact id
      · exact id
      · exact id

theorem held_childClosed (h : s.Held) (sessionId : JsString)
    (result : CommandCodeProcessRunResult TerminalSubtype) : (s.childClosed sessionId result).Held := by
  unfold childClosed
  split
  · exact h
  · next c hc =>
    refine held_mono h id (fun _ => id) fun i t ht => ?_
    simp only [modifyTurn, getElem?_modify, ht]
    by_cases hi : c.turn = i
    · simp only [hi, if_true, Option.map_eq_map, Option.map_some, Option.some.injEq, exists_eq_left']
      split
      · exact ⟨rfl, fun _ => rfl⟩
      · exact ⟨rfl, id⟩
    · exact ⟨t, by simp [hi], rfl, id⟩

/-- What is kept along a run. -/
structure Kept (s : CommandCodeService) : Prop where
  marked : s.Marked
  held : s.Held

section

variable {s : CommandCodeService} (h : s.Kept) {k : ℕ} {answer : Answer} {calls : List Call}
  (hc : s.StartsAfter (.turn k answer calls)) (hl : s.NoneLeftRunning (.turn k answer calls))
include h hc hl

/-- A step that ends a turn, with what the state that its finally block finds comes to. -/
theorem kept_beforeFinally {sessionId : JsString}
    {mid : CommandCodeService} (hmid : s.beforeFinally k answer calls = some (sessionId, mid)) :
    mid.Kept ∧ mid.Free sessionId ∧ mid.records.get sessionId ≠ some .running := by
  unfold beforeFinally at hmid
  split at hmid
  · cases hmid
  · next t ht =>
    split at hmid
    · cases hmid
    · next s' o hr =>
      cases hmid
      by_cases hin : t.inFlight = true
      · have hm := marks_resume h.marked ht hin answer
        have hh := holds_resume h.marked h.held ht hin (hl t ht)
        rw [hr] at hm hh
        obtain ⟨hmarked, hfree⟩ := marked_ended h.marked ht hin (hm.ends o rfl) (hc t ht)
        obtain ⟨hheld, hrec⟩ := held_ended h.held ht (hh.ends rfl) calls o
        refine ⟨⟨hmarked, hheld⟩, hfree, ?_⟩
        rw [hrec]
        exact (hh.ends rfl).2.2.2
      · -- nothing resumes a turn that is settled
        cases hp : t.phase with
        | settled o' =>
          rw [hp] at hr
          cases answer <;> cases hr
        | _ => exact absurd (by rw [Turn.inFlight, hp]; rfl) hin

theorem kept_turn : (s.turnGoesOn k answer calls).Kept := by
  refine ⟨marked_step h.marked (e := .turn k answer calls) hc, ?_⟩
  cases hb : s.beforeFinally k answer calls with
  | some p =>
    obtain ⟨sessionId, mid⟩ := p
    rw [turnGoesOn_of_beforeFinally hb]
    exact held_settle (kept_beforeFinally h hc hl hb).1.held k sessionId
  | none =>
    rcases turnGoesOn_cases h.marked hc with heq | ⟨t, ht, hin, ⟨s', hr, heq, -⟩ | ⟨s', o, hr, -, -, -⟩⟩
    · rw [heq]
      exact h.held
    · have hh := holds_resume h.marked h.held ht hin (hl t ht)
      rw [hr] at hh
      rw [heq]
      exact hh.goesOn rfl
    · simp only [beforeFinally, ht, hr] at hb
      cases hb

end

theorem kept_step (h : s.Kept) {e : ServiceEvent} (hc : s.StartsAfter e) (hl : s.NoneLeftRunning e) :
    (s.step e).Kept := by
  refine ⟨marked_step h.marked hc, ?_⟩
  cases e with
  | call c => exact held_call h.held c
  | initSettles failed => exact held_initSettles h.held failed
  | turn k answer calls => exact (kept_turn h hc hl).held
  | terminated sessionId cause =>
    obtain ⟨hrec, hd⟩ := terminate_keeps s sessionId cause
    show (s.terminate sessionId cause).Held
    refine held_of_sameMarks h.held (sameMarks_terminate s sessionId cause) ?_ ?_
    · rw [hd]
      exact id
    · rw [hrec]
      exact fun _ => id
  | childClosed sessionId result => exact held_childClosed h.held sessionId result
  | effortSettled k =>
    refine held_of_sameMarks h.held (sameMarks_effortSettled s k) ?_ fun x => ?_
    · show (s.effortSettled k).initState = _ → _
      unfold effortSettled
      split
      · exact id
      · split <;> exact id
    · show (s.effortSettled k).records.get x = _ → _
      unfold effortSettled
      split
      · exact id
      · split <;> exact id
  | cancelGoesOn k => exact held_cancelGoesOn h.held k
  | created sessionId => exact held_restore h.held sessionId true

theorem kept_new (concurrency : ℕ) (records : JsMap JsString RecordState) : (new concurrency records).Kept :=
  ⟨marked_new concurrency records, nofun⟩

/-! ## Runs -/

/-- The sessions of active turns are distinct entries of `activeSessions`. -/
theorem active_within (h : s.Marked) : (s.turns.filter (·.phase.active)).length ≤ s.concurrency := by
  have hnodup : ((s.turns.filter (·.phase.active)).map Turn.sessionId).Nodup := by
    rw [List.Nodup, pairwise_map, pairwise_filter, pairwise_iff_getElem]
    intro i j hi hj hij hpi hpj heq
    have := h.one i j _ _ (getElem?_eq_getElem hi) (getElem?_eq_getElem hj) (inFlight_of_active hpi)
      (inFlight_of_active hpj) heq
    omega
  have hsub : (s.turns.filter (·.phase.active)).map Turn.sessionId ⊆ s.activeSessions.keys := by
    intro x hx
    obtain ⟨t, ht, rfl⟩ := mem_map.mp hx
    obtain ⟨ht, ha⟩ := mem_filter.mp ht
    obtain ⟨i, hi⟩ := mem_iff_getElem?.mp ht
    exact JsMap.has_iff.mp (h.active i t hi ha)
  have hle := (subperm_of_subset hnodup hsub).length_le
  rw [length_map, JsMap.keys, length_map] at hle
  exact hle.trans h.bounded

theorem left_settle (k : ℕ) {sessionId : JsString} (h : s.records.get sessionId ≠ some .running) :
    (s.settle k sessionId).Left sessionId := by
  have hno : ∀ m : JsMap JsString Unit, (m.delete sessionId).has sessionId = false := fun m => by
    rw [← Bool.not_eq_true, JsMap.has_delete]
    simp
  exact ⟨hno _, hno _, hno _, h⟩

theorem sameMarkers_settle (s : CommandCodeService) (k : ℕ) {x y : JsString} (h : y ≠ x) : SameMarkers s (s.settle k x) y := by
  have hhas : ∀ m : JsMap JsString Unit, (m.delete x).has y = m.has y := fun m => by
    rw [Bool.eq_iff_iff, JsMap.has_delete]
    simp [h]
  refine ⟨hhas _, hhas _, hhas _, ?_⟩
  show (if s.inFlightTurns.get x = some k then s.inFlightTurns.delete x else s.inFlightTurns).get y = _
  split
  · exact JsMap.get_delete_ne _ h
  · rfl

theorem keepsToOneTurn (h : s.Kept) {e : ServiceEvent} (hc : s.StartsAfter e) (hl : s.NoneLeftRunning e) :
    s.KeepsToOneTurn e := by
  have hs := kept_step h hc hl
  refine ⟨hs.marked.one, active_within hs.marked, ?_, ?_⟩
  · intro k answer calls sessionId mid he hmid _
    subst he
    show (s.turnGoesOn k answer calls).Left sessionId
    rw [turnGoesOn_of_beforeFinally hmid]
    exact left_settle k (kept_beforeFinally h hc hl hmid).2.2
  · intro k answer calls sessionId mid he hmid j u hu hin
    subst he
    show SameMarkers mid (s.turnGoesOn k answer calls) u.sessionId
    rw [turnGoesOn_of_beforeFinally hmid]
    refine sameMarkers_settle mid k fun hus => ?_
    rw [(kept_beforeFinally h hc hl hmid).2.1 j u hu hus] at hin
    cases hin

/-- Along every run in which no `onComplete` starts a turn on its own session, and no turn
    that never got to its body leaves its record running, every step keeps to one turn. -/
theorem one_turn_each (concurrency : ℕ) (records : JsMap JsString RecordState) (es : List ServiceEvent)
    (h : Run.Along step (fun s e => s.StartsAfter e ∧ s.NoneLeftRunning e) (new concurrency records) es) :
    Run.Along step KeepsToOneTurn (new concurrency records) es :=
  Run.along_of_invariant (I := Kept) (fun _ _ hs hc => kept_step hs hc.1 hc.2) (fun _ _ hs hc => keepsToOneTurn hs hc.1 hc.2)
    (kept_new concurrency records) h

instance (s : CommandCodeService) (e) : Decidable (s.StartsAfter e) := by
  unfold StartsAfter
  split <;> infer_instance

instance (s : CommandCodeService) (e) : Decidable (s.NoneLeftRunning e) := by
  unfold NoneLeftRunning
  split <;> infer_instance

/-! ## A turn started by `onComplete` -/

def allWell : Checks := ⟨true, true, true, true, true, true⟩

/-- A turn from its first await to the end of its catch block, as its first event is not
    journalled; `calls` are those of `onComplete`. -/
def failedTurn (k : ℕ) (calls : List Call) : List ServiceEvent :=
  [.turn k (.checked allWell) [], .turn k .ok [], .turn k (.checked allWell) [], .turn k (.checked allWell) [], .turn k .ok [],
    .turn k .ok [], .turn k (.failed .other) [], .turn k .ok [], .turn k (.checked allWell) [], .turn k .ok [], .turn k .ok calls]

def oneSession : JsMap JsString RecordState := JsMap.empty.set (js "a") .idle

/-- A turn that fails and is retried when it has settled. -/
def retriedAfter : List ServiceEvent :=
  [.initSettles none, .call (.sendPrompt (js "a"))] ++ failedTurn 0 [] ++ [.call (.sendPrompt (js "a"))]

theorem one_turn_each_retried : Run.Along step KeepsToOneTurn (new 1 oneSession) retriedAfter :=
  one_turn_each 1 oneSession retriedAfter (by decide +kernel)

/-- A turn that fails and is retried from `onComplete`; then another prompt comes. -/
def retriedWithin : List ServiceEvent :=
  [.initSettles none, .call (.sendPrompt (js "a"))] ++ failedTurn 0 [.sendPrompt (js "a")] ++ [.call (.sendPrompt (js "a"))]

/-- The finally block of the first turn takes the marker of the second, and a third is let in. -/
theorem a_retry_loses_its_marker : ¬ ∀ (concurrency : ℕ) (records : JsMap JsString RecordState) (es : List ServiceEvent),
      Run.Along step KeepsToOneTurn (new concurrency records) es := by
  intro h
  have hall := h 1 oneSession retriedWithin
  rw [retriedWithin, Run.along_append] at hall
  have hone := hall.2.1.one 1 2 ⟨js "a", .init, false, none, false⟩ ⟨js "a", .init, false, none, false⟩
    (by decide +kernel) (by decide +kernel) rfl rfl rfl
  cases hone

end CommandCodeService

end PiWebUi.CommandCode
