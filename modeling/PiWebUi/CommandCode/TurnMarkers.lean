/-
  PiWebUi.CommandCode.TurnMarkers — the markers of the turns in flight.

  A turn that has passed its availability check is in flight until it is settled. As long as
  no `onComplete` starts a turn on the session it is called for, a session has at most one
  turn in flight, and that turn's marker is in place: in `pendingSessions` up to its claim,
  in `activeSessions` from there on. `onComplete` runs between the two deletions of the
  marker, so a turn it starts on the session loses its own to the finally block.
-/

import PiWebUi.CommandCode.Service
import PiWebUi.Lib.InFlight
import PiWebUi.Lib.Run

namespace PiWebUi.CommandCode

open PiWebUi.Lib List

/-- The call starts a turn on the session, or bars one from starting after it. -/
def Call.bars (sessionId : JsString) : Call → Bool
  | .sendPrompt x | .setEffort x | .deleteSession x => x = sessionId
  | .abort _ => false
  | .shutdown => true

namespace CommandCodeService

/-- One of the calls that `onComplete` makes starts a turn on the session it is called for. -/
def startsAgain (s : CommandCodeService) (sessionId : JsString) (calls : List Call) : Bool :=
  ({ s with activeSessions := s.activeSessions.delete sessionId }.assertTurnAvailable sessionId).isNone &&
    calls.find? (·.bars sessionId) = some (.sendPrompt sessionId)

/-- Where no turn is started on a session whose turn is just ending. -/
def StartsAfter (s : CommandCodeService) : ServiceEvent → Prop
  | .turn k _ calls => ∀ t ∈ s.turns[k]?, s.startsAgain t.sessionId calls = false
  | _ => True

structure Marked (s : CommandCodeService) : Prop where
  one : ∀ (i j : ℕ) (t u : Turn), s.turns[i]? = some t → s.turns[j]? = some u → t.inFlight = true → u.inFlight = true →
    t.sessionId = u.sessionId → i = j
  pending : ∀ (i : ℕ) (t : Turn), s.turns[i]? = some t → t.phase.pending = true → s.pendingSessions.has t.sessionId = true
  active : ∀ (i : ℕ) (t : Turn), s.turns[i]? = some t → t.phase.active = true → s.activeSessions.has t.sessionId = true
  bounded : s.activeSessions.size ≤ s.concurrency
  early : s.initState ≠ .done → ∀ (i : ℕ) (t : Turn), s.turns[i]? = some t → t.inFlight = true → t.phase = .init

/-- No turn of the session is in flight. -/
def Free (s : CommandCodeService) (sessionId : JsString) : Prop :=
  ∀ (i : ℕ) (t : Turn), s.turns[i]? = some t → t.sessionId = sessionId → t.inFlight = false

theorem inFlight_cases {p : Phase} (h : p.inFlight = true) : p.pending = true ∨ p.active = true := by
  cases p <;> simp_all [Phase.inFlight, Phase.pending, Phase.active]

theorem inFlight_of_pending {p : Phase} (h : p.pending = true) : p.inFlight = true := by
  cases p <;> simp_all [Phase.inFlight, Phase.pending]

theorem inFlight_of_active {p : Phase} (h : p.active = true) : p.inFlight = true := by
  cases p <;> simp_all [Phase.inFlight, Phase.active]

variable {k : ℕ} {s s' : CommandCodeService} {t : Turn} {sessionId y : JsString}

theorem modify_eq_set {α : Type} {l : List α} {a : α} (h : l[k]? = some a) (f : α → α) : l.modify k f = l.set k (f a) := by
  refine ext_getElem? fun j => ?_
  rw [getElem?_modify, getElem?_set]
  obtain ⟨hlt, ha⟩ := List.getElem?_eq_some_iff.mp h
  by_cases hj : k = j
  · subst hj
    simp [ha, hlt]
  · simp [hj]

/-! ## One turn changes -/

/-- Turn `k` becomes `t'`; the markers of other sessions stay. -/
structure Moves (s s' : CommandCodeService) (k : ℕ) (t t' : Turn) : Prop where
  turn : s.turns[k]? = some t
  flying : t.inFlight = true
  turns : s'.turns = s.turns.set k t'
  session : t'.sessionId = t.sessionId
  concurrency : s'.concurrency = s.concurrency
  initState : s'.initState = s.initState
  pendingOthers : ∀ y, y ≠ t.sessionId → s'.pendingSessions.has y = s.pendingSessions.has y
  activeOthers : ∀ y, y ≠ t.sessionId → s'.activeSessions.has y = s.activeSessions.has y
  pending : t'.phase.pending = true → s'.pendingSessions.has t.sessionId = true
  active : t'.phase.active = true → s'.activeSessions.has t.sessionId = true
  bounded : s'.activeSessions.size ≤ s.concurrency
  early : s.initState ≠ .done → t'.inFlight = true → t'.phase = .init

theorem Moves.get {t' : Turn} (m : Moves s s' k t t') (i : ℕ) : s'.turns[i]? = if i = k then some t' else s.turns[i]? := by
  rw [m.turns]
  split
  · next hi =>
    subst hi
    exact InFlight.set_self t' m.turn
  · next hi => exact getElem?_set_ne (Ne.symm hi)

/-- In the state after the step a turn is the one that moved, or as it was. -/
theorem Moves.cases {t' : Turn} (m : Moves s s' k t t') {i : ℕ} {u : Turn}
    (h : s'.turns[i]? = some u) : (i = k ∧ u = t') ∨ (i ≠ k ∧ s.turns[i]? = some u) :=
  InFlight.get_set (m.turns ▸ h)

theorem Marked.moves (h : s.Marked) {t' : Turn} (m : Moves s s' k t t') : s'.Marked := by
  -- another turn in flight is of another session
  have hother : ∀ i u, i ≠ k → s.turns[i]? = some u → u.inFlight = true → u.sessionId ≠ t.sessionId := by
    intro i u hi hu hin heq
    exact hi (h.one i k u t hu m.turn hin m.flying heq)
  refine ⟨?_, ?_, ?_, ?_, ?_⟩
  · intro i j u v hu hv hinu hinv heq
    rcases m.cases hu with ⟨hi, hu⟩ | ⟨hi, hu⟩
    · subst hu
      rcases m.cases hv with ⟨hj, -⟩ | ⟨hj, hv⟩
      · omega
      · exact absurd (heq.symm.trans m.session) (hother j v hj hv hinv)
    · rcases m.cases hv with ⟨hj, hv⟩ | ⟨hj, hv⟩
      · subst hv
        exact absurd (heq.trans m.session) (hother i u hi hu hinu)
      · exact h.one i j u v hu hv hinu hinv heq
  · intro i u hu hp
    rcases m.cases hu with ⟨-, hu⟩ | ⟨hi, hu⟩
    · subst hu
      rw [m.session]
      exact m.pending hp
    · rw [m.pendingOthers _ (hother i u hi hu (inFlight_of_pending hp))]
      exact h.pending i u hu hp
  · intro i u hu hp
    rcases m.cases hu with ⟨-, hu⟩ | ⟨hi, hu⟩
    · subst hu
      rw [m.session]
      exact m.active hp
    · rw [m.activeOthers _ (hother i u hi hu (inFlight_of_active hp))]
      exact h.active i u hu hp
  · rw [m.concurrency]
    exact m.bounded
  · intro hd i u hu hin
    rw [m.initState] at hd
    rcases m.cases hu with ⟨-, hu⟩ | ⟨-, hu⟩
    · subst hu
      exact m.early hd hin
    · exact h.early hd i u hu hin

section

variable (h : s.Marked) (ht : s.turns[k]? = some t)
include h ht

/-- A turn goes from one await to another under the same marker. -/
theorem moves_modifyTurn (hin : t.inFlight = true) {f : Turn → Turn} (hs : (f t).sessionId = t.sessionId)
    (hp : (f t).phase.pending = true → t.phase.pending = true) (ha : (f t).phase.active = true → t.phase.active = true)
    (hd : s.initState = .done ∨ (f t).inFlight = false) : Moves s (s.modifyTurn k f) k t (f t) :=
  { turn := ht
    flying := hin
    turns := modify_eq_set ht f
    session := hs
    concurrency := rfl
    initState := rfl
    pendingOthers := fun _ _ => rfl
    activeOthers := fun _ _ => rfl
    pending := fun hq => h.pending k t ht (hp hq)
    active := fun hq => h.active k t ht (ha hq)
    bounded := h.bounded
    early := fun hne hq => by
      rcases hd with hd | hd
      · exact absurd hd hne
      · rw [hd] at hq
        cases hq }

theorem initState_done (hin : t.inFlight = true) (hp : t.phase ≠ .init) : s.initState = .done := by
  by_contra hd
  exact hp (h.early hd k t ht hin)

/-- In the body of a turn one await follows another. -/
theorem marked_moveTo (ha : t.phase.active = true) {p : Phase} (hp : p.active = true) : (s.moveTo k p).Marked := by
  refine h.moves (moves_modifyTurn h ht (inFlight_of_active ha) (f := fun t => { t with phase := p }) rfl ?_ (fun _ => ha) ?_)
  · intro hq
    have hq : p.pending = true := hq
    cases p <;> simp_all [Phase.pending, Phase.active]
  · refine .inl (initState_done h ht (inFlight_of_active ha) ?_)
    intro hi
    rw [hi] at ha
    cases ha

theorem marked_fail (ha : t.phase.active = true) (error : TurnError) : (s.fail k t error).Marked := by
  unfold fail
  split <;> exact marked_moveTo h ht ha rfl

theorem marked_emitting (ha : t.phase.active = true) (t₀ : Turn) (f : Finished) : (s.emitting k t₀ f).Marked := by
  unfold emitting
  split <;> exact marked_moveTo h ht ha rfl

end

theorem size_set_le {α β : Type} [DecidableEq α] (m : JsMap α β) (k : α) (v : β) : (m.set k v).size ≤ m.size + 1 := by
  cases hk : m.has k with
  | false =>
    rw [JsMap.size, JsMap.set_entries_of_not_has hk, length_append]
    exact Nat.le_refl _
  | true =>
    rw [JsMap.size, JsMap.set_entries_of_has hk, JsMap.replace, length_map]
    exact Nat.le_succ _

/-! ## A turn goes on -/

theorem marked_claim (h : s.Marked) (ht : s.turns[k]? = some t)
    (hp : t.phase.pending = true) (hd : s.initState = .done) (hroom : s.activeSessions.size < s.concurrency) :
    (s.claim k t.sessionId).Marked := by
  have m : Moves s (s.claim k t.sessionId) k t { t with phase := .store .running } :=
    { turn := ht
      flying := inFlight_of_pending hp
      turns := modify_eq_set ht fun t => { t with phase := .store .running }
      session := rfl
      concurrency := rfl
      initState := rfl
      pendingOthers := fun y hy => by
        rw [Bool.eq_iff_iff]
        show (s.pendingSessions.delete t.sessionId).has y = true ↔ _
        rw [JsMap.has_delete]
        simp [hy]
      activeOthers := fun y hy => by
        rw [Bool.eq_iff_iff]
        show (s.activeSessions.set t.sessionId ()).has y = true ↔ _
        rw [JsMap.has_set]
        simp [hy]
      pending := nofun
      active := fun _ => (JsMap.has_set ..).mpr (.inl rfl)
      bounded := by
        have := size_set_le s.activeSessions t.sessionId ()
        show (s.activeSessions.set t.sessionId ()).size ≤ s.concurrency
        omega
      early := fun hne _ => absurd hd hne }
  exact h.moves m

theorem refusal_none {record : RecordState} {checks : Checks} (h : s.refusal sessionId record checks = none) :
    s.activeSessions.size < s.concurrency ∧ s.abortRequested.has sessionId = false ∧ record ≠ .running := by
  unfold refusal at h
  split_ifs at h with h1 h2 h3 h4 h5 h6 h7
  exact ⟨by omega, by simpa using h7, fun hr => h4 (.inl hr)⟩

/-- What a turn comes to that goes on: the markers are right when it does not end, and its
    own are all that may have changed when it does. -/
structure Marks (s : CommandCodeService) (t : Turn) (r : Resumed) : Prop where
  goesOn : r.2 = none → r.1.Marked
  ends : ∀ o, r.2 = some o → r.1 = s ∨
    (∃ error, o = .rejected error) ∧ r.1 = { s with activeSessions := s.activeSessions.delete t.sessionId }

theorem marks_goesOn (h : s'.Marked) : Marks s t (s', none) := ⟨fun _ => h, nofun⟩

theorem marks_ends (o : Outcome) : Marks s t (s, some o) :=
  ⟨nofun, fun _ _ => .inl rfl⟩

theorem marks_admits (h : s.Marked) (ht : s.turns[k]? = some t) (again : Bool)
    (record : Option RecordState) (hp : t.phase = .got again record) (checks : Checks) :
    Marks s t (s.admits k t again record checks) := by
  have hpend : t.phase.pending = true := by rw [hp]; rfl
  have hin := inFlight_of_pending hpend
  have hd : s.initState = .done := initState_done h ht hin (by rw [hp]; nofun)
  unfold admits
  split
  · split
    · exact marks_ends _
    · exact marks_goesOn (h.moves (moves_modifyTurn h ht hin (f := fun t => { t with phase := .hasSession }) rfl
        (fun _ => hpend) nofun (.inl hd)))
  · split
    · exact marks_ends _
    · next hr => exact marks_goesOn (marked_claim h ht hpend hd (refusal_none hr).1)

theorem marks_updateFailed (h : s.Marked) (ht : s.turns[k]? = some t)
    (ha : t.phase.active = true) (u : Update) (error : TurnError) : Marks s t (s.updateFailed k t u error) := by
  unfold updateFailed
  split
  · exact ⟨nofun, fun o ho => .inr ⟨⟨error, (Option.some.inj ho).symm⟩, rfl⟩⟩
  · exact marks_goesOn (marked_fail h ht ha error)
  · exact marks_goesOn (marked_fail h ht ha error)
  · exact marks_ends _

theorem marks_synced (h : s.Marked) (ht : s.turns[k]? = some t)
    (ha : t.phase.active = true) (u : Update) : Marks s t (s.synced k t u) := by
  unfold synced
  split
  · exact marks_goesOn (marked_moveTo h ht ha rfl)
  · split
    · exact marks_goesOn (marked_moveTo h ht ha rfl)
    · exact marks_ends _
  · exact marks_ends _
  · exact marks_ends _

/-! ### Changes of what the markers do not read -/

/-- The turns keep their sessions and phases, and the markers are the same. -/
structure SameMarks (s s' : CommandCodeService) : Prop where
  turns : s'.turns.map (fun t => (t.sessionId, t.phase)) = s.turns.map fun t => (t.sessionId, t.phase)
  pendingSessions : s'.pendingSessions = s.pendingSessions
  activeSessions : s'.activeSessions = s.activeSessions
  concurrency : s'.concurrency = s.concurrency
  initState : s.initState = .done → s'.initState = .done

theorem SameMarks.turn (h : SameMarks s s') {i : ℕ} {u : Turn} (hu : s'.turns[i]? = some u) :
    ∃ t, s.turns[i]? = some t ∧ t.sessionId = u.sessionId ∧ t.phase = u.phase := by
  have hi : (s'.turns.map fun t => (t.sessionId, t.phase))[i]? = some (u.sessionId, u.phase) := by simp [hu]
  rw [h.turns, getElem?_map, Option.map_eq_some_iff] at hi
  obtain ⟨t, ht, he⟩ := hi
  exact ⟨t, ht, (Prod.mk.inj he).1, (Prod.mk.inj he).2⟩

theorem SameMarks.marked (h : SameMarks s s') (hm : s.Marked) : s'.Marked := by
  refine ⟨?_, ?_, ?_, ?_, ?_⟩
  · intro i j u v hu hv hinu hinv heq
    obtain ⟨t, ht, hts, htp⟩ := h.turn hu
    obtain ⟨w, hw, hws, hwp⟩ := h.turn hv
    exact hm.one i j t w ht hw (by rwa [Turn.inFlight, htp]) (by rwa [Turn.inFlight, hwp]) (by rw [hts, hws, heq])
  · intro i u hu hp
    obtain ⟨t, ht, hts, htp⟩ := h.turn hu
    rw [h.pendingSessions, ← hts]
    exact hm.pending i t ht (by rwa [htp])
  · intro i u hu hp
    obtain ⟨t, ht, hts, htp⟩ := h.turn hu
    rw [h.activeSessions, ← hts]
    exact hm.active i t ht (by rwa [htp])
  · rw [h.activeSessions, h.concurrency]
    exact hm.bounded
  · intro hd i u hu hin
    obtain ⟨t, ht, -, htp⟩ := h.turn hu
    rw [← htp]
    exact hm.early (fun hdone => hd (h.initState hdone)) i t ht (by rwa [Turn.inFlight, htp])

theorem sameMarks_refl (s : CommandCodeService) : SameMarks s s := ⟨rfl, rfl, rfl, rfl, id⟩

theorem sameMarks_restore (s : CommandCodeService) (sessionId : JsString) (restorable : Bool) :
    SameMarks s (s.restore sessionId restorable) := by
  unfold restore
  split
  · exact ⟨rfl, rfl, rfl, rfl, id⟩
  · exact sameMarks_refl s

theorem sameMarks_modifyTurn (s : CommandCodeService) (k : ℕ) {f : Turn → Turn} (hs : ∀ t, (f t).sessionId = t.sessionId)
    (hp : ∀ t, s.turns[k]? = some t → (f t).phase = t.phase) : SameMarks s (s.modifyTurn k f) := by
  exact ⟨InFlight.map_modify fun t ht => by simp [hs t, hp t ht], rfl, rfl, rfl, id⟩

section

variable (h : s.Marked) (ht : s.turns[k]? = some t) (ha : t.phase.active = true)
include h ht ha

theorem marks_storeUpdate (u : Update) (valid : Bool) : Marks s t (s.storeUpdate k t u valid) := by
  unfold storeUpdate
  split
  · have hs : SameMarks s { s with records := s.records.set t.sessionId u.state } := ⟨rfl, rfl, rfl, rfl, id⟩
    have hin := inFlight_of_active ha
    have hd : s.initState = .done := initState_done h ht hin (fun hi => by rw [hi] at ha; cases ha)
    exact marks_goesOn ((hs.marked h).moves (moves_modifyTurn (hs.marked h) ht hin
      (f := fun t => { t with phase := .save u, stored := some u.state }) rfl (fun h => by cases h) (fun _ => ha) (.inl hd)))
  · exact marks_updateFailed h ht ha u .other

theorem marked_spawn : (s.spawn k t).Marked := by
  unfold spawn
  split
  · exact marked_fail h ht ha .other
  · have hs : SameMarks s { s with running := s.running.set t.sessionId ⟨k, none⟩ } := ⟨rfl, rfl, rfl, rfl, id⟩
    exact marked_moveTo (s := { s with running := s.running.set t.sessionId ⟨k, none⟩ }) (hs.marked h) ht ha rfl

theorem marked_emitted (f : Finished) : (s.emitted k t f).Marked := by
  unfold emitted
  split
  · exact h
  · next terminal rest hf =>
    have hs := sameMarks_modifyTurn s k (f := fun t => { t with emittedTerminal := t.emittedTerminal || terminal })
      (fun _ => rfl) fun _ _ => rfl
    have hget : (s.modifyTurn k fun t => { t with emittedTerminal := t.emittedTerminal || terminal }).turns[k]? =
        some { t with emittedTerminal := t.emittedTerminal || terminal } := by
      simp [modifyTurn, ht]
    exact marked_emitting (hs.marked h) hget ha t _

end

theorem marks_resume (h : s.Marked) (ht : s.turns[k]? = some t)
    (hin : t.inFlight = true) (answer : Answer) : Marks s t (s.resume k t t.phase answer) := by
  generalize hp : t.phase = p
  have hact : p.active = true → t.phase.active = true := fun h => by rwa [hp]
  have hdone : p ≠ .init → s.initState = .done := fun hne => initState_done h ht hin (by rwa [hp])
  -- from an await before the claim to another, and from one of the body to another
  have hpending : ∀ {q : Phase}, p.pending = true → s.initState = .done → q.pending = true →
      Marks s t (s.moveTo k q, none) := fun {q} hpp hd hq => by
    refine marks_goesOn (h.moves (moves_modifyTurn h ht hin (f := fun t => { t with phase := q }) rfl
      (fun _ => by rwa [hp]) ?_ (.inl hd)))
    intro ha
    have ha : q.active = true := ha
    cases q <;> simp_all [Phase.pending, Phase.active]
  have hbody : ∀ {q : Phase}, p.active = true → q.active = true → Marks s t (s.moveTo k q, none) := fun ha hq =>
    marks_goesOn (marked_moveTo h ht (hact ha) hq)
  have hfail : ∀ (error : TurnError), p.active = true → Marks s t (s.fail k t error, none) := fun error ha =>
    marks_goesOn (marked_fail h ht (hact ha) error)
  cases p with
  | init =>
    cases answer with
    | failed error =>
      simp only [resume]
      split
      · exact marks_ends _
      · exact marks_goesOn h
    | checked checks =>
      simp only [resume]
      split
      · exact marks_goesOn h
      · next hd =>
        split
        · exact marks_ends _
        · split
          · exact marks_ends _
          · exact hpending rfl (not_not.mp hd) rfl
    | ok | finished => exact marks_goesOn h
  | get again =>
    cases answer with
    | ok => exact hpending rfl (hdone (fun h => by cases h)) rfl
    | failed | checked | finished => exact marks_goesOn h
  | got again record =>
    cases answer with
    | checked checks => exact marks_admits h ht again record hp checks
    | ok | failed | finished => exact marks_goesOn h
  | hasSession =>
    cases answer with
    | checked checks =>
      have hs := sameMarks_restore s t.sessionId checks.restorable
      have hget : (s.restore t.sessionId checks.restorable).turns[k]? = some t := by
        unfold restore
        split <;> exact ht
      exact marks_goesOn ((hs.marked h).moves (moves_modifyTurn (hs.marked h) hget hin (f := fun t => { t with phase := .get true })
        rfl (fun _ => by rw [hp]; rfl) (fun h => by cases h) (.inl (hs.initState (hdone (fun h => by cases h))))))
    | ok | failed | finished => exact marks_goesOn h
  | store u =>
    cases answer with
    | checked checks => exact marks_storeUpdate h ht (hact rfl) u checks.valid
    | ok | failed | finished => exact marks_goesOn h
  | save u =>
    cases answer with
    | ok => exact hbody rfl rfl
    | failed error => exact marks_updateFailed h ht (hact rfl) u error
    | checked | finished => exact marks_goesOn h
  | sync u =>
    cases answer with
    | ok => exact marks_synced h ht (hact rfl) u
    | failed | checked | finished => exact marks_goesOn h
  | emitStart left =>
    cases answer with
    | ok => exact hbody rfl (by split <;> rfl)
    | failed error => exact hfail error rfl
    | checked | finished => exact marks_goesOn h
  | canonicalCwd =>
    cases answer with
    | ok =>
      simp only [resume]
      split
      · exact hfail _ rfl
      · exact hbody rfl rfl
    | failed error => exact hfail error rfl
    | checked | finished => exact marks_goesOn h
  | goalArming | bind f =>
    cases answer with
    | ok => exact hbody rfl rfl
    | failed error => exact hfail error rfl
    | checked | finished => exact marks_goesOn h
  | sessionIdentity =>
    cases answer with
    | ok => exact marks_goesOn (marked_spawn h ht (hact rfl))
    | failed error => exact hfail error rfl
    | checked | finished => exact marks_goesOn h
  | child | settled outcome => cases answer <;> exact marks_goesOn h
  | streamQueue result =>
    cases answer with
    | finished binds emits =>
      simp only [resume]
      split
      · exact hbody rfl rfl
      · exact marks_goesOn (marked_emitting h ht (hact rfl) t _)
    | failed error => exact hfail error rfl
    | ok | checked => exact marks_goesOn h
  | syncBound f =>
    cases answer with
    | ok => exact marks_goesOn (marked_emitting h ht (hact rfl) t f)
    | failed | checked | finished => exact marks_goesOn h
  | emitFinal f =>
    cases answer with
    | ok => exact marks_goesOn (marked_emitted h ht (hact rfl) f)
    | failed error => exact hfail error rfl
    | checked | finished => exact marks_goesOn h
  | emitEnd error =>
    cases answer with
    | ok | failed => exact hbody rfl rfl
    | checked | finished => exact marks_goesOn h

/-! ## A call -/

theorem SameMarks.trans {t u : CommandCodeService} (h : SameMarks s t) (h' : SameMarks t u) : SameMarks s u :=
  ⟨h'.turns.trans h.turns, h'.pendingSessions.trans h.pendingSessions, h'.activeSessions.trans h.activeSessions,
    h'.concurrency.trans h.concurrency, fun hd => h'.initState (h.initState hd)⟩

theorem SameMarks.free (h : SameMarks s s') (hf : s.Free sessionId) : s'.Free sessionId := by
  intro i u hu hs
  obtain ⟨t, ht, hts, htp⟩ := h.turn hu
  rw [Turn.inFlight, ← htp]
  exact hf i t ht (hts.trans hs)

theorem sameMarks_terminate (s : CommandCodeService) (sessionId : JsString) (cause : TerminationCause) :
    SameMarks s (s.terminate sessionId cause) := by
  unfold terminate
  split
  · exact sameMarks_refl s
  · split
    · exact sameMarks_refl s
    · exact ⟨rfl, rfl, rfl, rfl, id⟩

theorem sameMarks_terminateAll (ids : List JsString) (cause : TerminationCause) : ∀ s : CommandCodeService,
    SameMarks s (ids.foldl (fun (s : CommandCodeService) x => s.terminate x cause) s) := by
  induction ids with
  | nil => exact sameMarks_refl
  | cons x ids ih => exact fun s => (sameMarks_terminate s x cause).trans (ih _)

theorem sameMarks_cancel (s : CommandCodeService) (meant : JsString → Bool) : SameMarks s (s.cancel meant) := by
  refine ⟨?_, rfl, rfl, rfl, id⟩
  simp only [cancel, List.map_map]
  refine map_congr_left fun t _ => ?_
  simp only [Function.comp]
  split <;> rfl

theorem sameMarks_abort (s : CommandCodeService) (sessionId : JsString) : SameMarks s (s.abort sessionId) := by
  unfold abort
  split
  · exact sameMarks_refl s
  · have h : SameMarks s { s with abortRequested := s.abortRequested.set sessionId () } := ⟨rfl, rfl, rfl, rfl, id⟩
    exact (h.trans (sameMarks_cancel _ _)).trans ((sameMarks_terminate _ _ _).trans ⟨rfl, rfl, rfl, rfl, id⟩)

theorem sameMarks_deleteSession (s : CommandCodeService) (sessionId : JsString) : SameMarks s (s.deleteSession sessionId) := by
  have h : SameMarks s { s with
      deletedSessions := s.deletedSessions.set sessionId ()
      abortRequested := s.abortRequested.set sessionId () } := ⟨rfl, rfl, rfl, rfl, id⟩
  exact (h.trans (sameMarks_cancel _ _)).trans ((sameMarks_terminate _ _ _).trans ⟨rfl, rfl, rfl, rfl, id⟩)

theorem sameMarks_shutdown (s : CommandCodeService) : SameMarks s s.shutdown := by
  unfold shutdown
  split
  · exact sameMarks_refl s
  · have h : ∀ flagged, SameMarks s { s with shuttingDown := true, abortRequested := flagged } := fun _ => ⟨rfl, rfl, rfl, rfl, id⟩
    exact ((h _).trans (sameMarks_cancel _ _)).trans ((sameMarks_terminateAll _ _ _).trans ⟨rfl, rfl, rfl, rfl, id⟩)

theorem sameMarks_setEffort (s : CommandCodeService) (sessionId : JsString) : SameMarks s (s.setEffort sessionId) := by
  unfold setEffort
  split
  · exact sameMarks_refl s
  · exact ⟨rfl, rfl, rfl, rfl, id⟩

/-- A turn is not available. -/
def Barred (s : CommandCodeService) (sessionId : JsString) : Prop := (s.assertTurnAvailable sessionId).isSome = true

theorem barred_iff : s.Barred sessionId ↔
    s.shuttingDown = true ∨ s.deletedSessions.has sessionId = true ∨ s.pendingSessions.has sessionId = true ∨
      s.activeSessions.has sessionId = true ∨ s.effortMutations.has sessionId = true := by
  unfold Barred assertTurnAvailable
  by_cases h1 : s.shuttingDown = true
  · simp [h1]
  by_cases h2 : s.deletedSessions.has sessionId = true
  · rw [if_neg h1, if_pos h2]
    simp [h2]
  simp only [h1, h2, Bool.false_eq_true, if_false, false_or]
  split
  all_goals
    next h3 => simpa [or_assoc] using h3

theorem free_of_not_barred (h : s.Marked) (hb : ¬ s.Barred sessionId) : s.Free sessionId := by
  rw [barred_iff] at hb
  intro i t ht hs
  by_contra hin
  rw [Bool.not_eq_false] at hin
  rcases inFlight_cases hin with hp | ha
  · exact hb (.inr (.inr (.inl (hs ▸ h.pending i t ht hp))))
  · exact hb (.inr (.inr (.inr (.inl (hs ▸ h.active i t ht ha)))))

theorem marked_sendPrompt (h : s.Marked) (sessionId : JsString) : (s.sendPrompt sessionId).Marked := by
  unfold sendPrompt
  split
  · exact h
  · next hb =>
    have hfree := free_of_not_barred h hb
    -- a turn in flight before is of another session
    have hother : ∀ (i : ℕ) (t : Turn), s.turns[i]? = some t → t.inFlight = true → t.sessionId ≠ sessionId := by
      intro i t ht hin hs
      rw [hfree i t ht hs] at hin
      cases hin
    refine ⟨?_, ?_, ?_, h.bounded, ?_⟩
    · intro i j t u ht hu hint hinu heq
      rcases InFlight.get_append ht with ht | ⟨rfl, rfl⟩
      · rcases InFlight.get_append hu with hu | ⟨-, rfl⟩
        · exact h.one i j t u ht hu hint hinu heq
        · exact absurd heq (hother i t ht hint)
      · rcases InFlight.get_append hu with hu | ⟨rfl, -⟩
        · exact absurd heq.symm (hother j u hu hinu)
        · rfl
    · intro i t ht hp
      show (s.pendingSessions.set sessionId ()).has t.sessionId = true
      rw [JsMap.has_set]
      rcases InFlight.get_append ht with ht | ⟨-, rfl⟩
      · exact .inr (h.pending i t ht hp)
      · exact .inl rfl
    · intro i t ht ha
      rcases InFlight.get_append ht with ht | ⟨-, rfl⟩
      · exact h.active i t ht ha
      · cases ha
    · intro hd i t ht hin
      rcases InFlight.get_append ht with ht | ⟨-, rfl⟩
      · exact h.early hd i t ht hin
      · rfl

theorem marked_call (h : s.Marked) (c : Call) : (s.call c).Marked := by
  cases c with
  | sendPrompt sessionId => exact marked_sendPrompt h sessionId
  | setEffort sessionId => exact (sameMarks_setEffort s sessionId).marked h
  | abort sessionId => exact (sameMarks_abort s sessionId).marked h
  | deleteSession sessionId => exact (sameMarks_deleteSession s sessionId).marked h
  | shutdown => exact (sameMarks_shutdown s).marked h

/-! ### The calls of `onComplete` -/

@[simp] theorem assertTurnAvailable_terminate (s : CommandCodeService) (x y : JsString) (cause : TerminationCause) :
    (s.terminate x cause).assertTurnAvailable y = s.assertTurnAvailable y := by
  unfold terminate
  split
  · rfl
  · split <;> rfl

theorem shuttingDown_terminateAll (ids : List JsString) (cause : TerminationCause) : ∀ s : CommandCodeService,
    (ids.foldl (fun (s : CommandCodeService) x => s.terminate x cause) s).shuttingDown = s.shuttingDown := by
  induction ids with
  | nil => exact fun _ => rfl
  | cons x ids ih =>
    intro s
    rw [foldl_cons, ih]
    unfold terminate
    split
    · rfl
    · split <;> rfl

theorem barred_shutdown (s : CommandCodeService) (y : JsString) : s.shutdown.Barred y := by
  rw [barred_iff]
  left
  unfold shutdown
  split
  · assumption
  · show (List.foldl (fun (s : CommandCodeService) x => s.terminate x .shutdown) _ _ : CommandCodeService).shuttingDown = true
    rw [shuttingDown_terminateAll]
    rfl

theorem barred_deleteSession (s : CommandCodeService) {x : JsString} (h : y = x ∨ s.Barred y) : (s.deleteSession x).Barred y := by
  show ((CommandCodeService.terminate _ _ _).assertTurnAvailable y).isSome = true
  rw [assertTurnAvailable_terminate]
  refine barred_iff.mpr ?_
  show s.shuttingDown = true ∨ (s.deletedSessions.set x ()).has y = true ∨ s.pendingSessions.has y = true ∨
    s.activeSessions.has y = true ∨ s.effortMutations.has y = true
  rw [JsMap.has_set]
  rcases h with h | h
  · exact .inr (.inl (.inl h))
  · rcases barred_iff.mp h with h | h | h
    · exact .inl h
    · exact .inr (.inl (.inr h))
    · exact .inr (.inr h)

theorem barred_setEffort (s : CommandCodeService) {x : JsString} (h : y = x ∨ s.Barred y) : (s.setEffort x).Barred y := by
  unfold setEffort
  split
  · next hx =>
    rcases h with rfl | h
    · exact hx
    · exact h
  · refine barred_iff.mpr ?_
    show s.shuttingDown = true ∨ s.deletedSessions.has y = true ∨ s.pendingSessions.has y = true ∨
      s.activeSessions.has y = true ∨ (s.effortMutations.set x ()).has y = true
    rw [JsMap.has_set]
    rcases h with h | h
    · exact .inr (.inr (.inr (.inr (.inl h))))
    · have := barred_iff.mp h
      tauto

theorem barred_call (h : s.Barred y) (c : Call) : (s.call c).Barred y := by
  cases c with
  | sendPrompt x =>
    show (s.sendPrompt x).Barred y
    unfold sendPrompt
    split
    · exact h
    · refine barred_iff.mpr ?_
      show s.shuttingDown = true ∨ s.deletedSessions.has y = true ∨ (s.pendingSessions.set x ()).has y = true ∨
        s.activeSessions.has y = true ∨ s.effortMutations.has y = true
      rw [JsMap.has_set]
      have := barred_iff.mp h
      tauto
  | setEffort x => exact barred_setEffort s (.inr h)
  | abort x =>
    show (s.abort x).Barred y
    unfold abort
    split
    · exact h
    · show ((CommandCodeService.terminate _ _ _).assertTurnAvailable y).isSome = true
      rw [assertTurnAvailable_terminate]
      exact h
  | deleteSession x => exact barred_deleteSession s (.inr h)
  | shutdown => exact barred_shutdown s y

theorem free_call (h : s.Free y) {c : Call} (hc : c = .sendPrompt y → s.Barred y) : (s.call c).Free y := by
  cases c with
  | sendPrompt x =>
    show (s.sendPrompt x).Free y
    unfold sendPrompt
    split
    · exact h
    · next hb =>
      intro i t ht hs
      rcases InFlight.get_append ht with ht | ⟨-, rfl⟩
      · exact h i t ht hs
      · have hs : x = y := hs
        exact absurd (hs ▸ hc (hs ▸ rfl)) hb
  | setEffort x => exact (sameMarks_setEffort s x).free h
  | abort x => exact (sameMarks_abort s x).free h
  | deleteSession x => exact (sameMarks_deleteSession s x).free h
  | shutdown => exact (sameMarks_shutdown s).free h

theorem barred_of_bars {c : Call} (hb : c.bars y = true) (hne : c ≠ .sendPrompt y) : (s.call c).Barred y := by
  cases c with
  | sendPrompt x =>
    have hx : x = y := by simpa [Call.bars] using hb
    exact absurd (hx ▸ rfl) hne
  | setEffort x => exact barred_setEffort s (.inl (by simpa [Call.bars, eq_comm] using hb))
  | abort x => cases hb
  | deleteSession x => exact barred_deleteSession s (.inl (by simpa [Call.bars, eq_comm] using hb))
  | shutdown => exact barred_shutdown s y

theorem marked_calls (calls : List Call) : ∀ {s : CommandCodeService}, s.Marked → (calls.foldl call s).Marked := by
  induction calls with
  | nil => exact id
  | cons c calls ih => exact fun h => ih (marked_call h c)

/-- A session stays free over calls that do not start a turn on it. -/
theorem free_calls (calls : List Call) : ∀ {s : CommandCodeService}, s.Free y →
    (s.Barred y ∨ calls.find? (·.bars y) ≠ some (.sendPrompt y)) → (calls.foldl call s).Free y := by
  induction calls with
  | nil => exact fun h _ => h
  | cons c calls ih =>
    intro s h hno
    rw [foldl_cons]
    rcases hno with hb | hno
    · exact ih (free_call h fun _ => hb) (.inl (barred_call hb c))
    · rw [find?_cons] at hno
      split at hno
      · next hbars =>
        have hne : c ≠ .sendPrompt y := fun hc => hno (congrArg some hc)
        exact ih (free_call h fun hc => absurd hc hne) (.inl (barred_of_bars hbars hne))
      · next hbars =>
        refine ih (free_call h fun hc => ?_) (.inr hno)
        rw [hc] at hbars
        simp [Call.bars] at hbars

/-! ## A turn ends -/

/-- A turn that is settled needs no marker, and no other turn of its session is in flight. -/
theorem marked_over (h : s.Marked) (ht : s.turns[k]? = some t)
    (hin : t.inFlight = true) (hs : s' = s ∨ s' = { s with activeSessions := s.activeSessions.delete t.sessionId }) (o : Outcome) :
    (s'.moveTo k (.settled o)).Marked ∧ (s'.moveTo k (.settled o)).Free t.sessionId := by
  have m : Moves s (s'.moveTo k (.settled o)) k t { t with phase := .settled o } :=
    { turn := ht
      flying := hin
      turns := by rcases hs with rfl | rfl <;> exact modify_eq_set ht fun t => { t with phase := .settled o }
      session := rfl
      concurrency := by rcases hs with rfl | rfl <;> rfl
      initState := by rcases hs with rfl | rfl <;> rfl
      pendingOthers := fun y _ => by rcases hs with rfl | rfl <;> rfl
      activeOthers := fun y hy => by
        rcases hs with rfl | rfl
        · rfl
        · rw [Bool.eq_iff_iff]
          show (s.activeSessions.delete t.sessionId).has y = true ↔ _
          rw [JsMap.has_delete]
          simp [hy]
      pending := nofun
      active := nofun
      bounded := by
        rcases hs with rfl | rfl
        · exact h.bounded
        · exact (JsMap.size_delete_le _ _).trans h.bounded
      early := nofun }
  refine ⟨h.moves m, ?_⟩
  intro i u hu hs
  rcases m.cases hu with ⟨-, rfl⟩ | ⟨hi, hu⟩
  · rfl
  · by_contra hinu
    rw [Bool.not_eq_false] at hinu
    exact hi (h.one i k u t hu ht hinu hin hs)

/-- Up to the finally block. -/
theorem marked_ended (h : s.Marked) (ht : s.turns[k]? = some t) (hin : t.inFlight = true) {calls : List Call} {o : Outcome}
    (hs : s' = s ∨ (∃ error, o = .rejected error) ∧ s' = { s with activeSessions := s.activeSessions.delete t.sessionId })
    (hagain : s.startsAgain t.sessionId calls = false) :
    (s'.ended k t.sessionId calls o).Marked ∧ (s'.ended k t.sessionId calls o).Free t.sessionId := by
  cases o with
  | rejected error => exact marked_over h ht hin (hs.imp_right And.right) (.rejected error)
  | completed error =>
    have hs : s' = s := hs.resolve_right fun ⟨⟨_, he⟩, _⟩ => nomatch he
    subst hs
    obtain ⟨hm, hf⟩ := marked_over h ht hin (.inr rfl) (.completed error)
    refine ⟨marked_calls calls hm, free_calls calls hf ?_⟩
    rw [startsAgain, Bool.and_eq_false_iff, decide_eq_false_iff_not] at hagain
    refine hagain.imp_left fun hn => ?_
    show Option.isSome (CommandCodeService.assertTurnAvailable _ _) = true
    rw [← Option.not_isNone, Bool.not_eq_true']
    exact hn

theorem marked_settle (h : s.Marked) (k : ℕ) (hf : s.Free sessionId) : (s.settle k sessionId).Marked := by
  have hother : ∀ (i : ℕ) (t : Turn), s.turns[i]? = some t → t.inFlight = true → t.sessionId ≠ sessionId := by
    intro i t ht hin hs
    rw [hf i t ht hs] at hin
    cases hin
  refine ⟨h.one, ?_, ?_, (JsMap.size_delete_le _ _).trans h.bounded, h.early⟩
  · intro i t ht hp
    exact (JsMap.has_delete ..).mpr ⟨hother i t ht (inFlight_of_pending hp), h.pending i t ht hp⟩
  · intro i t ht ha
    exact (JsMap.has_delete ..).mpr ⟨hother i t ht (inFlight_of_active ha), h.active i t ht ha⟩

/-- What a turn does that goes on: it moves, with the markers right, or it ends, and the
    state its finally block finds has the markers right and no turn of the session in flight. -/
theorem turnGoesOn_cases (h : s.Marked) {answer : Answer} {calls : List Call} (hc : s.StartsAfter (.turn k answer calls)) :
    s.turnGoesOn k answer calls = s ∨ ∃ t, s.turns[k]? = some t ∧ t.inFlight = true ∧
        ((∃ s', s.resume k t t.phase answer = (s', none) ∧ s.turnGoesOn k answer calls = s' ∧ s'.Marked) ∨
          ∃ s' o, s.resume k t t.phase answer = (s', some o) ∧
            s.turnGoesOn k answer calls = (s'.ended k t.sessionId calls o).settle k t.sessionId ∧
            (s'.ended k t.sessionId calls o).Marked ∧ (s'.ended k t.sessionId calls o).Free t.sessionId) := by
  unfold turnGoesOn
  split
  · exact .inl rfl
  · next t ht =>
    by_cases hin : t.inFlight = true
    · right
      refine ⟨t, ht, hin, ?_⟩
      have hm := marks_resume h ht hin answer
      split
      · next s' hr => exact .inl ⟨s', hr, rfl, by simpa [hr] using hm.goesOn (by rw [hr])⟩
      · next s' o hr =>
        obtain ⟨hmid, hfree⟩ := marked_ended h ht hin (by simpa [hr] using hm.ends o (by rw [hr])) (hc t ht)
        exact .inr ⟨s', o, hr, rfl, hmid, hfree⟩
    · left
      -- nothing resumes a turn that is settled
      have hr : s.resume k t t.phase answer = (s, none) := by
        cases hp : t.phase with
        | settled o => cases answer <;> rfl
        | _ => exact absurd (by rw [Turn.inFlight, hp]; rfl) hin
      rw [hr]

/-! ## Every step -/

theorem sameMarks_initSettles (s : CommandCodeService) (failed : Option ℕ) : SameMarks s (s.initSettles failed) := by
  unfold initSettles
  split
  · exact sameMarks_refl s
  · next hp =>
    refine ⟨rfl, rfl, rfl, rfl, fun hd => ?_⟩
    rw [not_not.mp hp] at hd
    cases hd

theorem sameMarks_effortSettled (s : CommandCodeService) (k : ℕ) : SameMarks s (s.effortSettled k) := by
  unfold effortSettled
  split
  · exact sameMarks_refl s
  · split
    · exact sameMarks_refl s
    · exact ⟨rfl, rfl, rfl, rfl, id⟩

theorem sameMarks_cancelGoesOn (s : CommandCodeService) (k : ℕ) : SameMarks s (s.cancelGoesOn k) := by
  have hmoves : ∀ p, SameMarks s (s.cancelMovesTo k p) := fun _ => ⟨rfl, rfl, rfl, rfl, id⟩
  have hundelete : ∀ x p, SameMarks s ((s.undelete x).cancelMovesTo k p) := fun _ _ => ⟨rfl, rfl, rfl, rfl, id⟩
  unfold cancelGoesOn
  split
  · exact sameMarks_refl s
  · split
    · split
      · exact hmoves _
      · exact sameMarks_refl s
    · split
      · exact hmoves _
      · exact sameMarks_refl s
    · split
      · exact ⟨rfl, rfl, rfl, rfl, id⟩
      · exact hundelete _ _
    · exact hundelete _ _
    · exact sameMarks_refl s

/-- The child's promise resolves: its turn, if it still waits for it, is at the next await. -/
theorem marked_closed (h : s.Marked) (k : ℕ) (result : CommandCodeProcessRunResult TerminalSubtype) :
    (s.modifyTurn k fun t => if t.phase = Phase.child then { t with phase := .streamQueue result } else t).Marked := by
  cases ht : s.turns[k]? with
  | none =>
    refine (sameMarks_modifyTurn s k (fun t => ?_) fun t ht' => ?_).marked h
    · split <;> rfl
    · rw [ht] at ht'
      cases ht'
  | some t =>
    by_cases hp : t.phase = .child
    · have hin : t.inFlight = true := by rw [Turn.inFlight, hp]; rfl
      have hd : s.initState = .done := initState_done h ht hin (by rw [hp]; nofun)
      refine h.moves (moves_modifyTurn h ht hin ?_ ?_ ?_ (.inl hd))
      · rw [if_pos hp]
      · rw [if_pos hp]
        nofun
      · rw [hp]
        exact fun _ => rfl
    · refine (sameMarks_modifyTurn s k (fun t => ?_) fun t' ht' => ?_).marked h
      · split <;> rfl
      · rw [ht] at ht'
        cases ht'
        rw [if_neg hp]

theorem marked_childClosed (h : s.Marked) (sessionId : JsString)
    (result : CommandCodeProcessRunResult TerminalSubtype) : (s.childClosed sessionId result).Marked := by
  unfold childClosed
  split
  · exact h
  · next c hc =>
    have hs : SameMarks s { s with running := s.running.delete sessionId } := ⟨rfl, rfl, rfl, rfl, id⟩
    exact marked_closed (s := { s with running := s.running.delete sessionId }) (hs.marked h) c.turn
      { result with terminationCause := c.cause }

theorem marked_step (h : s.Marked) {e : ServiceEvent} (hc : s.StartsAfter e) : (s.step e).Marked := by
  cases e with
  | call c => exact marked_call h c
  | initSettles failed => exact (sameMarks_initSettles s failed).marked h
  | turn k answer calls =>
    show (s.turnGoesOn k answer calls).Marked
    rcases turnGoesOn_cases h hc with heq | ⟨t, -, -, ⟨s', -, heq, hm⟩ | ⟨s', o, -, heq, hm, hf⟩⟩
    · rw [heq]
      exact h
    · rw [heq]
      exact hm
    · rw [heq]
      exact marked_settle hm k hf
  | terminated sessionId cause => exact (sameMarks_terminate s sessionId cause).marked h
  | childClosed sessionId result => exact marked_childClosed h sessionId result
  | effortSettled k => exact (sameMarks_effortSettled s k).marked h
  | cancelGoesOn k => exact (sameMarks_cancelGoesOn s k).marked h
  | created sessionId => exact (sameMarks_restore s sessionId true).marked h

theorem marked_new (concurrency : ℕ) (records : JsMap JsString RecordState) : (new concurrency records).Marked := by
  have hno : ∀ (i : ℕ) (t : Turn), (new concurrency records).turns[i]? ≠ some t := fun i t h => by cases h
  refine ⟨?_, ?_, ?_, Nat.zero_le _, ?_⟩
  · exact fun i _ t _ ht => absurd ht (hno i t)
  · exact fun i t ht => absurd ht (hno i t)
  · exact fun i t ht => absurd ht (hno i t)
  · exact fun _ i t ht => absurd ht (hno i t)

end CommandCodeService

end PiWebUi.CommandCode
