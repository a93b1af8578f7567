/-
  PiWebUi.Goal.ContinueOnce — at most one automatic continue per goal.

  A dispatch needs a claim, and a claim needs the marker file to be absent. So a goal is
  continued once as long as the file of a continued goal stays while that goal is on disk
  (`Inv.kept`). Three things take it away: a prune for a goal that is no longer the one on
  disk, a goal that comes back after its marker was pruned, and a session whose id has the
  same file name. `Cond` excludes them, on the state before the step. The claim itself is
  safe at every await: a task that holds one owns its file (`TaskOk.held`), and no spent goal
  with that file is on disk, so a re-read that shows the goal shows one not yet continued
  (`TaskOk.free`).
-/

import PiWebUi.Goal.InterruptionSweep
import PiWebUi.Lib.Run
import Mathlib.Tactic.SplitIfs

namespace PiWebUi.Goal

open Lib List Option

/-- The continues that were accepted, or may have been: session and fingerprint, in order. -/
def State.spent (s : State) : List (JsString × JsString) :=
  (s.ended.filter (·.outcome ≠ .refused)).map fun e => (e.sessionId, e.fingerprint)

section

variable (sha256 : JsString → JsString) (deps : SweepDeps) (pathOf : JsString → JsString)

/-- The fingerprint of the session's goal on disk. -/
def State.current (s : State) (sessionId : JsString) : JsString :=
  goalFingerprint sha256 (s.goals (pathOf sessionId)).objective (s.goals (pathOf sessionId)).startedAt

/-- The file that the next step of a prune removes. -/
def Task.prunes (t : Task) : Option JsString :=
  match t.phase with
  | .pruneRemove (f :: _) => some f
  | _ => none

def Cond (s : State) : Step → Prop
  | .sweep c _ _ => c.runtime = js "pi" → SafeId c.sessionId ∧ c.sessionPath = pathOf c.sessionId
  | .setGoal path p => ∀ d ∈ s.spent, pathOf d.1 = path → goalFingerprint sha256 p.objective p.startedAt = d.2 →
      s.current sha256 pathOf d.1 = d.2
  | .task sessionId _ => ∀ t ∈ s.inFlight.get sessionId, ∀ f ∈ t.prunes, ∀ d ∈ s.spent,
      markerPath d.1 d.2 = f → s.current sha256 pathOf d.1 ≠ d.2
  | _ => True

instance (s : State) (e : Step) : Decidable (Cond sha256 pathOf s e) := by
  cases e <;> unfold Cond <;> infer_instance

/-! ## The invariant -/

/-- The claim is held and its dispatch has not ended for good. -/
def Phase.holds : Phase → Bool
  | .claimWrite | .preDispatch | .transcript _ | .dispatching _ _ | .retryWait _ _ | .releaseRead _ | .releaseRemove _ => true
  | _ => false

/-- The goal as the re-read has shown it, until the dispatch has ended. -/
def Phase.read : Phase → Option SessionGoalProjection
  | .transcript p | .dispatching p _ | .retryWait p _ => some p
  | _ => none

def Phase.reread (phase : Phase) : Bool := phase.read.isSome

/-- What a phase carries stems from fingerprints. -/
def Phase.fits (sessionId : JsString) : Phase → Prop
  | .pruneRead _ others => ∀ x ∈ others, x.length = 64
  | .pruneRemove files => ∀ f ∈ files, ∃ x, x.length = 64 ∧ f = markerPath sessionId x
  | .commitTruncate m _ | .commitWrite m _ | .confirmTruncate m _ | .confirmWrite m _ => m.fingerprint.length = 64
  | _ => True

structure TaskOk (files : MarkerDir) (spent : List (JsString × JsString)) (current : JsString → JsString)
    (sessionId : JsString) (t : Task) : Prop where
  id : t.candidate.sessionId = sessionId
  safe : SafeId sessionId
  path : t.candidate.sessionPath = pathOf sessionId
  fits : t.phase.fits sessionId
  held : t.phase.holds = true → files.has (t.file sha256) = true ∧
    ∀ d ∈ spent, markerPath d.1 d.2 = t.file sha256 → current d.1 ≠ d.2
  free : t.phase.reread = true → (sessionId, t.fingerprint sha256) ∉ spent

structure ActivityOk (a : Activity) : Prop where
  known : a.candidate.runtime = js "pi" → SafeId a.candidate.sessionId ∧ a.candidate.sessionPath = pathOf a.candidate.sessionId
  pi : a.phase ≠ .busy → a.phase ≠ .runtime → a.candidate.runtime = js "pi"

structure Inv (s : State) : Prop where
  tasks : ∀ id t, s.inFlight.get id = some t → TaskOk sha256 pathOf s.files s.spent (s.current sha256 pathOf) id t
  activities : ∀ a ∈ s.activities, ActivityOk pathOf a
  markers : ∀ f m, s.files.get f = some (.marker m) → m.fingerprint.length = 64
  known : ∀ d ∈ s.spent, SafeId d.1 ∧ d.2.length = 64
  kept : ∀ d ∈ s.spent, s.current sha256 pathOf d.1 = d.2 → s.files.has (markerPath d.1 d.2) = true
  once : s.spent.Nodup

variable {sha256 deps pathOf}

theorem inv_init (now : ℕ) (goals : JsString → SessionGoalProjection) : Inv sha256 pathOf { now, goals } where
  tasks _ _ h := nomatch h
  activities _ h := nomatch h
  markers _ _ h := nomatch h
  known _ h := nomatch h
  kept _ h := nomatch h
  once := nodup_nil

/-! ## Steps of a task -/

def FileOp.name : FileOp → Option JsString
  | .keep => none
  | .put name _ => some name
  | .remove name => some name

variable (sha256 pathOf) in
/-- What a step of the task of a session can do to the files and to what is spent, and where it
    leaves the task. -/
structure EffectOk (s : State) (sessionId : JsString) (t : Task) (e : Effect) : Prop where
  own : ∀ f, e.file.name = some f → ∃ x, x.length = 64 ∧ f = markerPath sessionId x
  whole : ∀ f m, e.file = .put f (.marker m) → m.fingerprint.length = 64
  removed : ∀ f, e.file = .remove f → ∀ d ∈ s.spent, markerPath d.1 d.2 = f → s.current sha256 pathOf d.1 ≠ d.2
  spends : ∀ d, e.ended = some d → d.outcome ≠ .refused →
    d.sessionId = sessionId ∧ d.fingerprint = t.fingerprint sha256 ∧ (sessionId, t.fingerprint sha256) ∉ s.spent ∧
      s.files.has (t.file sha256) = true ∧ e.file = .keep
  fits : ∀ phase, e.next = some phase → phase.fits sessionId
  held : ∀ phase, e.next = some phase → phase.holds = true → (e.file.run s.files).has (t.file sha256) = true ∧
    (∀ d ∈ s.spent, markerPath d.1 d.2 = t.file sha256 → s.current sha256 pathOf d.1 ≠ d.2) ∧
      ∀ d, e.ended = some d → d.outcome = .refused
  free : ∀ phase, e.next = some phase → phase.reread = true → (sessionId, t.fingerprint sha256) ∉ s.spent

theorem has_run {dir : MarkerDir} {op : FileOp} {f : JsString} (h : dir.has f = true) (hne : op ≠ .remove f) :
    (op.run dir).has f = true := by
  cases op with
  | keep => exact h
  | put name content => exact (JsMap.has_set ..).mpr (.inr h)
  | remove name =>
    apply (JsMap.has_delete ..).mpr
    refine ⟨?_, h⟩
    rintro rfl
    exact hne rfl

theorem get_run {dir : MarkerDir} {op : FileOp} {f : JsString} {m : ContinueMarker}
    (h : (op.run dir).get f = some (.marker m)) : dir.get f = some (.marker m) ∨ op = .put f (.marker m) := by
  cases op with
  | keep => exact .inl h
  | put name content =>
    change (dir.set name content).get f = _ at h
    obtain ⟨rfl, rfl⟩ | ⟨-, h⟩ := JsMap.get_set_eq_some.mp h
    · exact .inr rfl
    · exact .inl h
  | remove name =>
    exact .inl (JsMap.get_delete_eq_some.mp h).2

section Perform

variable {s : State} {sessionId : JsString} {t : Task} {e : Effect}

theorem spent_keep (h : ∀ d, e.ended = some d → d.outcome = .refused) : (perform s sessionId t e).spent = s.spent := by
  unfold State.spent perform
  cases he : e.ended with
  | none => simp
  | some d => simp [h d he]

theorem spent_add {d : Ended} (he : e.ended = some d) (h : d.outcome ≠ .refused) :
    (perform s sessionId t e).spent = s.spent ++ [(d.sessionId, d.fingerprint)] := by
  unfold State.spent perform
  simp [he, h]

theorem get_perform (id : JsString) : (perform s sessionId t e).inFlight.get id =
    if id = sessionId then e.next.map (fun phase => { t with phase }) else s.inFlight.get id := by
  unfold perform
  cases e.next with
  | none => exact JsMap.get_delete ..
  | some phase => exact JsMap.get_set ..

/-- What is spent afterwards. -/
theorem mem_spent_perform {sha256 : JsString → JsString} {pathOf : JsString → JsString}
    (he : EffectOk sha256 pathOf s sessionId t e) {d : JsString × JsString} (h : d ∈ (perform s sessionId t e).spent) :
    d ∈ s.spent ∨ d = (sessionId, t.fingerprint sha256) ∧ s.files.has (t.file sha256) = true ∧ e.file = .keep := by
  by_cases hx : ∃ x, e.ended = some x ∧ x.outcome ≠ .refused
  · obtain ⟨x, hx, ho⟩ := hx
    obtain ⟨hs, hf, -, hh, hk⟩ := he.spends x hx ho
    rw [spent_add hx ho, mem_append, mem_singleton] at h
    exact h.imp_right fun h => ⟨by rw [h, hs, hf], hh, hk⟩
  · have same : ∀ d, e.ended = some d → d.outcome = .refused := by
      intro d hd
      by_contra ho
      exact hx ⟨d, hd, ho⟩
    rw [spent_keep same] at h
    exact .inl h

end Perform

variable (hsha : ∀ x, (sha256 x).length = 64)

include hsha in
theorem fingerprint_length (t : Task) : (t.fingerprint sha256).length = 64 := hsha _

variable {sessionId : JsString} {t : Task} {s : State} {reports : List ReportEntry}

include hsha in
/-- A file of one session's task is not the file of another's. -/
theorem file_ne {id : JsString} {x : JsString} (hid : t.candidate.sessionId = id) (hs : SafeId id)
    (hs' : SafeId sessionId) (hx : x.length = 64) (hne : id ≠ sessionId) : markerPath sessionId x ≠ t.file sha256 := by
  intro h
  rw [Task.file, hid] at h
  have hf := fingerprint_length hsha t
  exact hne (markerPath_inj hs' hs (by omega) (by omega) h).1.symm

include hsha in
theorem TaskOk.other {id : JsString} {u : Task} {e : Effect}
    (hu : TaskOk sha256 pathOf s.files s.spent (s.current sha256 pathOf) id u) (hs : SafeId sessionId)
    (he : EffectOk sha256 pathOf s sessionId t e) (hne : id ≠ sessionId) :
    TaskOk sha256 pathOf (perform s sessionId t e).files (perform s sessionId t e).spent (s.current sha256 pathOf) id u where
  id := hu.id
  safe := hu.safe
  path := hu.path
  fits := hu.fits
  held hh := by
    obtain ⟨has, free⟩ := hu.held hh
    constructor
    · apply has_run has
      intro hr
      obtain ⟨x, hx, hf⟩ := he.own (u.file sha256) (by rw [hr]; rfl)
      exact file_ne hsha hu.id hu.safe hs hx hne hf.symm
    · intro d hd hp
      obtain hd | ⟨rfl, -, -⟩ := mem_spent_perform he hd
      · exact free d hd hp
      · exact absurd hp (file_ne hsha hu.id hu.safe hs (fingerprint_length hsha t) hne)
  free hr hm := by
    obtain hm | ⟨heq, -, -⟩ := mem_spent_perform he hm
    · exact hu.free hr hm
    · exact hne (Prod.mk.inj heq).1

include hsha in
theorem inv_perform {e : Effect} (hi : Inv sha256 pathOf s)
    (ht : s.inFlight.get sessionId = some t) (he : EffectOk sha256 pathOf s sessionId t e) :
    Inv sha256 pathOf (perform s sessionId t e) where
  tasks id u hu := by
    have own := hi.tasks _ _ ht
    rw [get_perform] at hu
    split_ifs at hu with hid
    · obtain ⟨phase, hp, rfl⟩ := map_eq_some_iff.mp hu
      subst hid
      refine ⟨own.id, own.safe, own.path, he.fits phase hp, ?_, ?_⟩
      · intro hh
        obtain ⟨has, free, same⟩ := he.held phase hp hh
        rw [spent_keep same]
        exact ⟨has, free⟩
      · intro hr
        have holds : phase.holds = true := by
          cases phase <;> simp_all [Phase.reread, Phase.read, Phase.holds]
        obtain ⟨-, -, same⟩ := he.held phase hp holds
        rw [spent_keep same]
        exact he.free phase hp hr
    · exact (hi.tasks id u hu).other hsha own.safe he hid
  activities := hi.activities
  markers f m h := by
    obtain h | h := get_run h
    · exact hi.markers f m h
    · exact he.whole f m h
  known d hd := by
    obtain hd | ⟨rfl, -, -⟩ := mem_spent_perform he hd
    · exact hi.known d hd
    · exact ⟨(hi.tasks _ _ ht).safe, fingerprint_length hsha t⟩
  kept d hd hc := by
    obtain hd | ⟨rfl, has, keep⟩ := mem_spent_perform he hd
    · apply has_run (hi.kept d hd hc)
      intro hr
      exact he.removed _ hr d hd rfl hc
    · show (e.file.run s.files).has _ = true
      rw [keep]
      exact (hi.tasks _ _ ht).id ▸ has
  once := by
    by_cases hx : ∃ x, e.ended = some x ∧ x.outcome ≠ .refused
    · obtain ⟨x, hx, ho⟩ := hx
      obtain ⟨hs, hf, fresh, -, -⟩ := he.spends x hx ho
      rw [spent_add hx ho, hs, hf]
      exact hi.once.append (nodup_singleton _) (by simpa using fresh)
    · rw [spent_keep]
      · exact hi.once
      · intro d hd
        by_contra ho
        exact hx ⟨d, hd, ho⟩

/-! ## Each phase -/

theorem Phase.holds_of_reread {phase : Phase} (h : phase.reread = true) : phase.holds = true := by
  cases phase <;> simp_all [Phase.reread, Phase.read, Phase.holds]

section Phases

variable {s : State} {sessionId : JsString} {t : Task} {e : Effect}

/-- A step that touches no file and ends no dispatch, outside a claim. -/
theorem EffectOk.quiet (hf : e.file = .keep) (he : e.ended = none) (fits : ∀ phase, e.next = some phase → phase.fits sessionId)
    (hh : ∀ phase, e.next = some phase → phase.holds = false) : EffectOk sha256 pathOf s sessionId t e where
  own f h := by rw [hf] at h; cases h
  whole f m h := by rw [hf] at h; cases h
  removed f h := by rw [hf] at h; cases h
  spends d h := by rw [he] at h; cases h
  fits := fits
  held phase hp h := by rw [hh phase hp] at h; cases h
  free phase hp h := by cases (hh phase hp).symm.trans (Phase.holds_of_reread h)

theorem EffectOk.goes {phase : Phase} (hf : e.file = .keep) (he : e.ended = none) (hn : e.next = some phase)
    (fits : phase.fits sessionId) (hh : phase.holds = false) : EffectOk sha256 pathOf s sessionId t e :=
  .quiet hf he (fun p hp => by cases hn.symm.trans hp; exact fits) (fun p hp => by cases hn.symm.trans hp; exact hh)

theorem EffectOk.ends (hf : e.file = .keep) (he : e.ended = none) (hn : e.next = none) : EffectOk sha256 pathOf s sessionId t e :=
  .quiet hf he (fun p hp => by rw [hn] at hp; cases hp) (fun p hp => by rw [hn] at hp; cases hp)

/-- The claim goes on to be held. -/
theorem EffectOk.holding (ht : TaskOk sha256 pathOf s.files s.spent (s.current sha256 pathOf) sessionId t)
    (hold : t.phase.holds = true) (hf : e.file = .keep) (he : ∀ d, e.ended = some d → d.outcome = .refused)
    (fits : ∀ phase, e.next = some phase → phase.fits sessionId)
    (free : ∀ phase, e.next = some phase → phase.reread = true → (sessionId, t.fingerprint sha256) ∉ s.spent) :
    EffectOk sha256 pathOf s sessionId t e where
  own f h := by rw [hf] at h; cases h
  whole f m h := by rw [hf] at h; cases h
  removed f h := by rw [hf] at h; cases h
  spends d h ho := absurd (he d h) ho
  fits := fits
  held phase hp _ := by
    obtain ⟨has, free⟩ := ht.held hold
    rw [hf]
    exact ⟨has, free, he⟩
  free := free

theorem EffectOk.holds_to {phase : Phase}
    (ht : TaskOk sha256 pathOf s.files s.spent (s.current sha256 pathOf) sessionId t) (hold : t.phase.holds = true)
    (hf : e.file = .keep) (he : ∀ d, e.ended = some d → d.outcome = .refused) (hn : e.next = some phase)
    (fits : phase.fits sessionId) (free : phase.reread = true → (sessionId, t.fingerprint sha256) ∉ s.spent) :
    EffectOk sha256 pathOf s sessionId t e :=
  .holding ht hold hf he (fun p hp => by cases hn.symm.trans hp; exact fits) (fun p hp => by cases hn.symm.trans hp; exact free)

include hsha in
/-- The own file is written, after the dispatch. -/
theorem EffectOk.writes {phase : Phase} {content : MarkerFile} (hid : t.candidate.sessionId = sessionId)
    (hf : e.file = .put (t.file sha256) content) (hm : ∀ m, content = .marker m → m.fingerprint.length = 64)
    (he : e.ended = none) (hn : e.next = some phase) (fits : phase.fits sessionId) (hh : phase.holds = false) :
    EffectOk sha256 pathOf s sessionId t e where
  own f h := by
    rw [hf] at h
    cases h
    exact ⟨_, fingerprint_length hsha t, by rw [← hid]; rfl⟩
  whole f m h := by
    rw [hf] at h
    cases h
    exact hm m rfl
  removed f h := by rw [hf] at h; cases h
  spends d h := by rw [he] at h; cases h
  fits p hp := by
    cases hn.symm.trans hp
    exact fits
  held p hp h := by
    cases hn.symm.trans hp
    cases hh.symm.trans h
  free p hp h := by
    cases hn.symm.trans hp
    cases hh.symm.trans (Phase.holds_of_reread h)

variable {m : ContinueMarker}

theorem marker_fits (hi : Inv sha256 pathOf s) {f : JsString} (h : readMarker s.files f = some m) : m.fingerprint.length = 64 := by
  unfold readMarker at h
  split at h
  · rename_i _ m' hg
    cases h
    exact hi.markers f _ hg
  · cases h

theorem committed_fingerprint {m' : ContinueMarker} {now : ℕ} (h : committed m now = some m') : m'.fingerprint = m.fingerprint := by
  unfold committed at h
  split_ifs at h
  cases h
  rfl

theorem confirmed_fingerprint {m' : ContinueMarker} {now : ℕ} (h : confirmed m now = some m') : m'.fingerprint = m.fingerprint := by
  unfold confirmed at h
  split_ifs at h
  cases h
  rfl

include hsha in
/-- The claim: the file was absent, so no spent goal with that file is on disk. -/
theorem claimOpen_ok (hi : Inv sha256 pathOf s) (own : TaskOk sha256 pathOf s.files s.spent (s.current sha256 pathOf) sessionId t)
    (absent : s.files.has (t.file sha256) = false) : EffectOk sha256 pathOf s sessionId t
      { next := some .claimWrite, file := .put (t.file sha256) .torn } where
  own f h := by
    cases h
    exact ⟨_, fingerprint_length hsha t, by rw [← own.id]; rfl⟩
  whole f m h := by cases h
  removed f h := by cases h
  spends d h := by cases h
  fits phase hp := by
    cases hp
    exact True.intro
  held phase hp _ := by
    refine ⟨(JsMap.has_set ..).mpr (.inl rfl), ?_, nofun⟩
    intro d hd hf hc
    have kept := hi.kept d hd hc
    rw [hf, absent] at kept
    cases kept
  free phase hp hr := by
    cases hp
    cases hr

include hsha in
theorem claimWrite_ok (own : TaskOk sha256 pathOf s.files s.spent (s.current sha256 pathOf) sessionId t)
    (hold : t.phase.holds = true) (hm : m.fingerprint.length = 64) : EffectOk sha256 pathOf s sessionId t
      { next := some .preDispatch, file := .put (t.file sha256) (.marker m) } where
  own f h := by
    cases h
    exact ⟨_, fingerprint_length hsha t, by rw [← own.id]; rfl⟩
  whole f m h := by
    cases h
    exact hm
  removed f h := by cases h
  spends d h := by cases h
  fits phase hp := by
    cases hp
    exact True.intro
  held phase hp _ :=
    ⟨(JsMap.has_set ..).mpr (.inl rfl), (own.held hold).2, nofun⟩
  free phase hp hr := by
    cases hp
    cases hr

/-- A removal outside a claim. -/
theorem removes_ok {f : JsString} (hf : e.file = .remove f) (own : ∃ x, x.length = 64 ∧ f = markerPath sessionId x)
    (hc : ∀ d ∈ s.spent, markerPath d.1 d.2 = f → s.current sha256 pathOf d.1 ≠ d.2) (he : e.ended = none)
    (fits : ∀ phase, e.next = some phase → phase.fits sessionId) (hh : ∀ phase, e.next = some phase → phase.holds = false) :
    EffectOk sha256 pathOf s sessionId t e where
  own g h := by
    rw [hf] at h
    cases h
    exact own
  whole g m h := by rw [hf] at h; cases h
  removed g h := by
    rw [hf] at h
    cases h
    exact hc
  spends d h := by rw [he] at h; cases h
  fits := fits
  held phase hp h := by rw [hh phase hp] at h; cases h
  free phase hp h := by cases (hh phase hp).symm.trans (Phase.holds_of_reread h)

/-- The dispatch ends, accepted or with no verdict. -/
theorem spends_ok {phase : Phase} {d : Ended} (own : TaskOk sha256 pathOf s.files s.spent (s.current sha256 pathOf) sessionId t)
    (hr : t.phase.reread = true) (hf : e.file = .keep) (he : e.ended = some d) (hs : d.sessionId = sessionId)
    (hd : d.fingerprint = t.fingerprint sha256) (hn : e.next = some phase) (fits : phase.fits sessionId)
    (hh : phase.holds = false) : EffectOk sha256 pathOf s sessionId t e where
  own f h := by rw [hf] at h; cases h
  whole f m h := by rw [hf] at h; cases h
  removed f h := by rw [hf] at h; cases h
  spends x h _ := by
    cases he.symm.trans h
    exact ⟨hs, hd, own.free hr, (own.held (Phase.holds_of_reread hr)).1, hf⟩
  fits p hp := by
    cases hn.symm.trans hp
    exact fits
  held p hp h := by
    cases hn.symm.trans hp
    cases hh.symm.trans h
  free p hp h := by
    cases hn.symm.trans hp
    cases hh.symm.trans (Phase.holds_of_reread h)

theorem afterCommit_fits (deps : SweepDeps) (unknown : Bool) (now : ℕ) : (afterCommit deps unknown now).fits sessionId := by
  unfold afterCommit
  split_ifs <;> exact True.intro

theorem afterCommit_holds (deps : SweepDeps) (unknown : Bool) (now : ℕ) : (afterCommit deps unknown now).holds = false := by
  unfold afterCommit
  split_ifs <;> rfl

include hsha in
theorem effect_ok (hi : Inv sha256 pathOf s) (ht : s.inFlight.get sessionId = some t)
    (hc : ∀ f ∈ t.prunes, ∀ d ∈ s.spent, markerPath d.1 d.2 = f → s.current sha256 pathOf d.1 ≠ d.2) (a : Answers) :
    EffectOk sha256 pathOf s sessionId t (effect sha256 deps s t a) := by
  have own := hi.tasks _ _ ht
  have fits := own.fits
  unfold effect
  cases hp : t.phase with
  | pruneList =>
    exact .goes rfl rfl rfl (fun _ h => by cases h) rfl
  | pruneRead names others =>
    rw [hp] at fits
    cases names with
    | nil =>
      refine .goes rfl rfl rfl ?_ rfl
      intro f hf
      obtain ⟨x, hx, rfl⟩ := mem_map.mp hf
      exact ⟨x, fits x hx, by rw [own.id]⟩
    | cons name names =>
      refine .goes rfl rfl rfl ?_ rfl
      intro x hx
      obtain hx | hx := mem_append.mp hx
      · exact fits x hx
      · -- a fingerprint read from a marker
        obtain ⟨hx, -⟩ := filter_eq_some_iff.mp (mem_toList.mp hx)
        obtain ⟨m, hm, rfl⟩ := map_eq_some_iff.mp hx
        exact marker_fits hi hm
  | pruneRemove files =>
    rw [hp] at fits
    cases files with
    | nil => exact .goes rfl rfl rfl True.intro rfl
    | cons name names =>
      refine removes_ok rfl (fits name mem_cons_self) (hc name ?_) rfl ?_ ?_
      · simp [Task.prunes, hp]
      · intro phase hn
        cases hn
        exact fun f hf => fits f (mem_cons_of_mem _ hf)
      · intro phase hn
        cases hn
        rfl
  | get =>
    dsimp only
    split
    · split_ifs <;> exact .goes rfl rfl rfl True.intro rfl
    · exact .goes rfl rfl rfl True.intro rfl
  | secondStop count | consumed | refusedOverlay | failedOverlay | verified p => exact .ends rfl rfl rfl
  | claimRead =>
    dsimp only
    split_ifs <;> exact .goes rfl rfl rfl True.intro rfl
  | claimOpen =>
    dsimp only
    split_ifs with hx
    · exact .goes rfl rfl rfl True.intro rfl
    · exact claimOpen_ok hsha hi own (Bool.not_eq_true _ ▸ hx)
  | claimWrite => exact claimWrite_ok hsha own (by rw [hp]; rfl) (fingerprint_length hsha t)
  | preDispatch =>
    have hold : t.phase.holds = true := by rw [hp]; rfl
    dsimp only
    split_ifs with hg
    · refine .holds_to own hold rfl (fun _ h => by cases h) rfl True.intro ?_
      intro _ spent
      -- the goal on disk is the one claimed, so it is not spent
      refine (own.held hold).2 _ spent (by rw [Task.file, own.id]) ?_
      rw [← hg.1, own.path]
      rfl
    · exact .holds_to own hold rfl (fun _ h => by cases h) rfl True.intro (fun h => by cases h)
  | transcript p | retryWait p deadline =>
    exact .holds_to own (by rw [hp]; rfl) rfl (fun _ h => by cases h) rfl True.intro (fun _ => own.free (by rw [hp]; rfl))
  | dispatching p deadline =>
    have hr : t.phase.reread = true := by rw [hp]; rfl
    dsimp only
    cases ho : a.dispatch.outcome with
    | refused =>
      dsimp only
      split_ifs
      · refine .holds_to own (Phase.holds_of_reread hr) rfl ?_ rfl True.intro (fun _ => own.free hr)
        rintro d ⟨⟩
        rfl
      · refine .holds_to own (Phase.holds_of_reread hr) rfl ?_ rfl True.intro (fun h => by cases h)
        rintro d ⟨⟩
        rfl
    | accepted | unknown => exact spends_ok own hr rfl rfl own.id rfl rfl True.intro rfl
  | releaseRead refused =>
    dsimp only
    split
    · split_ifs
      · exact .holds_to own (by rw [hp]; rfl) rfl (fun _ h => by cases h) rfl True.intro (fun h => by cases h)
      · exact .goes rfl rfl rfl True.intro rfl
      · exact .ends rfl rfl rfl
    · split_ifs
      · exact .goes rfl rfl rfl True.intro rfl
      · exact .ends rfl rfl rfl
  | releaseRemove refused =>
    have hc := (own.held (by rw [hp]; rfl)).2
    have hown : ∃ x, x.length = 64 ∧ t.file sha256 = markerPath sessionId x :=
      ⟨_, fingerprint_length hsha t, by rw [← own.id]; rfl⟩
    dsimp only
    split_ifs
    · exact removes_ok rfl hown hc rfl (fun _ h => by cases h; exact True.intro) (fun _ h => by cases h; rfl)
    · exact removes_ok rfl hown hc rfl (fun _ h => by cases h) (fun _ h => by cases h)
  | commitRead unknown =>
    dsimp only
    split
    · rename_i m hm
      obtain ⟨m', hm', hcm⟩ := bind_eq_some_iff.mp hm
      exact .goes rfl rfl rfl ((congrArg List.length (committed_fingerprint hcm)).trans (marker_fits hi hm')) rfl
    · exact .goes rfl rfl rfl (afterCommit_fits deps unknown s.now) (afterCommit_holds deps unknown s.now)
  | commitTruncate m unknown | confirmTruncate m p =>
    rw [hp] at fits
    exact .writes hsha own.id rfl (fun _ h => by cases h) rfl rfl fits rfl
  | commitWrite m unknown =>
    rw [hp] at fits
    refine .writes hsha own.id rfl ?_ rfl rfl (afterCommit_fits deps unknown s.now) (afterCommit_holds deps unknown s.now)
    rintro _ ⟨⟩
    exact fits
  | verifySleep deadline => exact .goes rfl rfl rfl True.intro rfl
  | verifyRead deadline =>
    dsimp only
    split_ifs
    · exact .ends rfl rfl rfl
    all_goals exact .goes rfl rfl rfl True.intro rfl
  | confirmRead p =>
    dsimp only
    split
    · rename_i m hm
      obtain ⟨m', hm', hcm⟩ := bind_eq_some_iff.mp hm
      exact .goes rfl rfl rfl ((congrArg List.length (confirmed_fingerprint hcm)).trans (marker_fits hi hm')) rfl
    · exact .goes rfl rfl rfl True.intro rfl
  | confirmWrite m p =>
    rw [hp] at fits
    refine .writes hsha own.id rfl ?_ rfl rfl True.intro rfl
    rintro _ ⟨⟩
    exact fits

end Phases

/-! ## Steps -/

section

variable (hi : Inv sha256 pathOf s)
include hi

/-- A goal that is written, and does not come back. -/
theorem inv_setGoal {path : JsString} {p : SessionGoalProjection}
    (hc : ∀ d ∈ s.spent, pathOf d.1 = path → goalFingerprint sha256 p.objective p.startedAt = d.2 →
      s.current sha256 pathOf d.1 = d.2) :
    Inv sha256 pathOf { s with goals := fun q => if q = path then p else s.goals q } := by
  have before : ∀ d ∈ s.spent,
      ({ s with goals := fun q => if q = path then p else s.goals q } : State).current sha256 pathOf d.1 = d.2 →
      s.current sha256 pathOf d.1 = d.2 := by
    intro d hd h
    unfold State.current at h
    by_cases hp : pathOf d.1 = path
    · simp only [if_pos hp] at h
      exact hc d hd hp h
    · simp only [if_neg hp] at h
      exact h
  refine ⟨?_, hi.activities, hi.markers, hi.known, ?_, hi.once⟩
  · intro id t ht
    have h := hi.tasks id t ht
    refine ⟨h.id, h.safe, h.path, h.fits, fun hh => ⟨(h.held hh).1, ?_⟩, h.free⟩
    intro d hd hf hn
    exact (h.held hh).2 d hd hf (before d hd hn)
  · intro d hd hn
    exact hi.kept d hd (before d hd hn)

theorem inv_activities {activities : List Activity}
    {published : List Publication} (h : ∀ a ∈ activities, a ∈ s.activities ∨ ActivityOk pathOf a) :
    Inv sha256 pathOf { s with activities, reports, published } where
  tasks := hi.tasks
  activities a ha := (h a ha).elim (hi.activities a) fun h => h
  markers := hi.markers
  known := hi.known
  kept := hi.kept
  once := hi.once

theorem inv_drop (i : ℕ) {published : List Publication} :
    Inv sha256 pathOf { s with activities := s.activities.eraseIdx i, reports, published } :=
  inv_activities hi fun _ ha => .inl (mem_of_mem_eraseIdx ha)

theorem inv_setPhase (i : ℕ) {act : Activity} {phase : ActivityPhase}
    (h : ActivityOk pathOf { act with phase }) : Inv sha256 pathOf (s.setPhase i act phase) := by
  apply inv_activities hi
  intro a ha
  obtain ha | rfl := mem_or_eq_of_mem_set ha
  · exact .inl ha
  · exact .inr h

theorem inv_takeUp {c : SweepCandidate} (bootTimeMs : JsNumber) (boot : Bool)
    (hc : c.runtime = js "pi" → SafeId c.sessionId ∧ c.sessionPath = pathOf c.sessionId) :
    Inv sha256 pathOf (takeUp deps s c bootTimeMs boot) := by
  unfold takeUp
  split_ifs
  · apply inv_activities hi
    intro a ha
    obtain ha | ha := mem_append.mp ha
    · exact .inl ha
    · cases mem_singleton.mp ha
      exact .inr ⟨hc, fun h => absurd rfl h⟩
  · exact inv_activities hi fun _ h => .inl h

/-- A new task has done nothing; one of the session is joined. -/
theorem inv_continueOnce {c : SweepCandidate} (stop : ClassifiedStop)
    (p : SessionGoalProjection) (hs : SafeId c.sessionId) (hp : c.sessionPath = pathOf c.sessionId) :
    Inv sha256 pathOf (continueOnce s c stop p) := by
  unfold continueOnce
  split_ifs
  · exact hi
  refine ⟨?_, hi.activities, hi.markers, hi.known, hi.kept, hi.once⟩
  intro id t ht
  obtain ⟨hid, rfl⟩ | ⟨-, ht⟩ := JsMap.get_set_eq_some.mp ht
  · exact ⟨hid.symm, hid ▸ hs, hid ▸ hp, True.intro, (fun h => by cases h), (fun h => by cases h)⟩
  · exact hi.tasks id t ht

theorem inv_advance (i : ℕ) (answers : Answers) : Inv sha256 pathOf (advance deps s i answers) := by
  unfold advance
  split
  · exact hi
  rename_i act hact
  have ok := hi.activities act (mem_of_getElem? hact)
  dsimp only
  split
  · split_ifs with _ hpi
    · exact inv_drop hi i
    · exact inv_setPhase hi i ⟨ok.known, fun _ h => absurd rfl h⟩
    · exact inv_drop hi i
    · exact inv_setPhase hi i ⟨ok.known, fun _ _ => not_not.mp hpi⟩
  · split <;> exact inv_drop hi i
  · rename_i hp
    exact inv_setPhase hi i ⟨ok.known, fun _ _ => ok.pi (by rw [hp]; simp) (by rw [hp]; simp)⟩
  · rename_i p hp
    split
    · exact inv_drop hi i
    · obtain ⟨hs, hpath⟩ := ok.known (ok.pi (by rw [hp]; simp) (by rw [hp]; simp))
      exact inv_continueOnce (inv_drop hi i) _ p hs hpath

/-- Tasks that end without an effect. -/
theorem inv_lose {inFlight : JsMap JsString Task} {activities : List Activity}
    (hf : ∀ id t, inFlight.get id = some t → s.inFlight.get id = some t)
    (ha : ∀ a ∈ activities, a ∈ s.activities) : Inv sha256 pathOf { s with inFlight, activities, reports } where
  tasks id t h := hi.tasks id t (hf id t h)
  activities a h := hi.activities a (ha a h)
  markers := hi.markers
  known := hi.known
  kept := hi.kept
  once := hi.once

end

include hsha in
theorem inv_step (s : State) (e : Step) (hi : Inv sha256 pathOf s) (hc : Cond sha256 pathOf s e) :
    Inv sha256 pathOf (step sha256 deps s e) := by
  cases e with
  | tick ms => exact ⟨hi.tasks, hi.activities, hi.markers, hi.known, hi.kept, hi.once⟩
  | setGoal path p => exact inv_setGoal hi hc
  | sweep c bootTimeMs boot => exact inv_takeUp hi bootTimeMs boot hc
  | advance i answers => exact inv_advance hi i answers
  | task sessionId answers =>
    simp only [step]
    cases ht : s.inFlight.get sessionId with
    | none => exact hi
    | some t => exact inv_perform hsha hi ht (effect_ok hsha hi ht (hc t ht) answers)
  | activityFails i =>
    simp only [step]
    split
    · exact inv_drop hi i
    · exact hi
  | taskFails sessionId =>
    simp only [step]
    split
    · exact inv_lose hi (fun _ _ h => (JsMap.get_delete_eq_some.mp h).2) fun _ h => h
    · exact hi
  | crash => exact inv_lose hi (fun _ _ h => by cases h) (fun _ h => by cases h)

/-! ## What is dispatched -/

/-- The projection is of the goal with this fingerprint, and may be continued. -/
def Continues (sha256 : JsString → JsString) (p : SessionGoalProjection) (fingerprint : JsString) : Prop :=
  continueable p = true ∧ goalFingerprint sha256 p.objective p.startedAt = fingerprint

structure CallsInv (sha256 : JsString → JsString) (s : State) : Prop where
  tasks : ∀ id t, s.inFlight.get id = some t → ∀ p, t.phase.read = some p → Continues sha256 p (t.fingerprint sha256)
  calls : ∀ c ∈ s.calls, Continues sha256 c.read c.fingerprint

theorem afterCommit_read (deps : SweepDeps) (unknown : Bool) (now : ℕ) : (afterCommit deps unknown now).read = none := by
  unfold afterCommit
  split_ifs <;> rfl

/-- What the step reads on is of the task's goal, and so is what it dispatches. -/
structure EffectReads (sha256 : JsString → JsString) (t : Task) (e : Effect) : Prop where
  next : ∀ phase, e.next = some phase → ∀ p, phase.read = some p → Continues sha256 p (t.fingerprint sha256)
  call : ∀ c, e.call = some c → Continues sha256 c.read c.fingerprint

theorem EffectReads.silent {e : Effect} (hn : ∀ phase, e.next = some phase → phase.read = none)
    (hc : e.call = none) : EffectReads sha256 t e where
  next phase hp p hr := by
    rw [hn phase hp] at hr
    cases hr
  call c h := by
    rw [hc] at h
    cases h

/-- Only the re-read brings in a projection, and only the phases that hold one dispatch. -/
theorem effect_reads (s : State) (t : Task) (a : Answers)
    (h : ∀ p, t.phase.read = some p → Continues sha256 p (t.fingerprint sha256)) :
    EffectReads sha256 t (effect sha256 deps s t a) := by
  unfold effect
  cases hp : t.phase with
  | preDispatch =>
    dsimp only
    split_ifs with hg
    · refine ⟨?_, fun c h => by cases h⟩
      rintro _ ⟨⟩ _ ⟨⟩
      exact ⟨hg.2, hg.1⟩
    · exact .silent (fun _ h => by cases h; rfl) rfl
  | transcript p | retryWait p deadline =>
    have hc := h p (by rw [hp]; rfl)
    constructor
    · rintro _ ⟨⟩ _ ⟨⟩
      exact hc
    · rintro _ ⟨⟩
      exact hc
  | dispatching p deadline =>
    have hc := h p (by rw [hp]; rfl)
    dsimp only
    split
    · split_ifs
      · refine ⟨?_, fun c h => by cases h⟩
        rintro _ ⟨⟩ _ ⟨⟩
        exact hc
      · exact .silent (fun _ h => by cases h; rfl) rfl
    · exact .silent (fun _ h => by cases h; rfl) rfl
    · exact .silent (fun _ h => by cases h; rfl) rfl
  | pruneRead names others | pruneRemove names => cases names <;> exact .silent (fun _ h => by cases h; rfl) rfl
  | get =>
    dsimp only
    split
    · split_ifs <;> exact .silent (fun _ h => by cases h; rfl) rfl
    · exact .silent (fun _ h => by cases h; rfl) rfl
  | claimRead | claimOpen =>
    dsimp only
    split_ifs <;> exact .silent (fun _ h => by cases h; rfl) rfl
  | releaseRead refused =>
    dsimp only
    split
    all_goals split_ifs <;> exact .silent (fun _ h => by cases h <;> rfl) rfl
  | releaseRemove refused | verifyRead deadline =>
    dsimp only
    split_ifs <;> exact .silent (fun _ h => by cases h <;> rfl) rfl
  | commitRead unknown =>
    dsimp only
    split
    · exact .silent (fun _ h => by cases h; rfl) rfl
    · exact .silent (fun _ h => by cases h; exact afterCommit_read ..) rfl
  | commitWrite m unknown => exact .silent (fun _ h => by cases h; exact afterCommit_read ..) rfl
  | confirmRead p =>
    dsimp only
    split <;> exact .silent (fun _ h => by cases h; rfl) rfl
  | pruneList | claimWrite | commitTruncate | verifySleep | confirmTruncate | confirmWrite =>
    exact .silent (fun _ h => by cases h; rfl) rfl
  | secondStop | consumed | refusedOverlay | failedOverlay | verified => exact .silent (fun _ h => by cases h) rfl

theorem callsInv_lose {t : State} (hi : CallsInv sha256 s) (hc : t.calls = s.calls)
    (hf : ∀ id u, t.inFlight.get id = some u → s.inFlight.get id = some u) : CallsInv sha256 t where
  tasks id u h := hi.tasks id u (hf id u h)
  calls c h := hi.calls c (hc ▸ h)

theorem callsInv_continueOnce (hi : CallsInv sha256 s) (c : SweepCandidate) (stop : ClassifiedStop)
    (p : SessionGoalProjection) : CallsInv sha256 (continueOnce s c stop p) := by
  unfold continueOnce
  split_ifs
  · exact hi
  refine ⟨?_, hi.calls⟩
  intro id t ht
  obtain ⟨-, rfl⟩ | ⟨-, ht⟩ := JsMap.get_set_eq_some.mp ht
  · exact fun p h => by cases h
  · exact hi.tasks id t ht

theorem callsInv_perform (hi : CallsInv sha256 s) (ht : s.inFlight.get sessionId = some t) (a : Answers) :
    CallsInv sha256 (perform s sessionId t (effect sha256 deps s t a)) := by
  have reads : EffectReads sha256 t (effect sha256 deps s t a) := effect_reads s t a (hi.tasks _ _ ht)
  obtain ⟨next, call⟩ := reads
  constructor
  · intro id u hu
    rw [get_perform] at hu
    split_ifs at hu
    · obtain ⟨phase, hp, rfl⟩ := map_eq_some_iff.mp hu
      exact next phase hp
    · exact hi.tasks id u hu
  · intro c hc
    obtain hc | hc := mem_append.mp hc
    · exact hi.calls c hc
    · exact call c (mem_toList.mp hc)

theorem callsInv_step (s : State) (e : Step) (hi : CallsInv sha256 s) : CallsInv sha256 (step sha256 deps s e) := by
  cases e with
  | tick ms | setGoal path p => exact callsInv_lose hi rfl fun _ _ h => h
  | sweep c bootTimeMs boot =>
    simp only [step, takeUp]
    split_ifs <;> exact callsInv_lose hi rfl fun _ _ h => h
  | advance i answers =>
    simp only [step, advance]
    split
    · exact hi
    split
    · split_ifs <;> exact callsInv_lose hi rfl fun _ _ h => h
    · split <;> exact callsInv_lose hi rfl fun _ _ h => h
    · exact callsInv_lose hi rfl fun _ _ h => h
    · split
      · exact callsInv_lose hi rfl fun _ _ h => h
      · have ended : CallsInv sha256 (s.endActivity i) := callsInv_lose hi rfl fun _ _ h => h
        exact callsInv_continueOnce ended ..
  | task sessionId answers =>
    simp only [step]
    cases ht : s.inFlight.get sessionId with
    | none => exact hi
    | some t => exact callsInv_perform hi ht answers
  | activityFails i =>
    simp only [step]
    split
    · exact callsInv_lose hi rfl fun _ _ h => h
    · exact hi
  | taskFails sessionId =>
    simp only [step]
    split
    · exact callsInv_lose hi rfl fun _ _ h => (JsMap.get_delete_eq_some.mp h).2
    · exact hi
  | crash => exact callsInv_lose hi rfl fun _ _ h => by cases h

theorem count_spent (s : State) (sessionId fingerprint : JsString) :
    (s.ended.filter fun e => e.sessionId = sessionId ∧ e.fingerprint = fingerprint ∧ e.outcome ≠ .refused).length =
      s.spent.count (sessionId, fingerprint) := by
  unfold State.spent
  rw [List.count, countP_map, countP_filter, countP_eq_length_filter]
  congr 1
  apply filter_congr
  intro e _
  by_cases hs : e.sessionId = sessionId <;> by_cases hf : e.fingerprint = fingerprint <;> simp [hs, hf]

/-- In every run of sweeps, crashes, engine writes and dispatch answers that meets `Cond`, no goal
    has two continues that were accepted or may have been; and in every run a dispatch is for a goal
    whose re-read showed it, running or paused by a restore. -/
theorem continued_once (hsha : ∀ x, (sha256 x).length = 64) (deps : SweepDeps) (pathOf : JsString → JsString) (now : ℕ)
    (goals : JsString → SessionGoalProjection) (es : List Step) :
    (Run.Along (step sha256 deps) (Cond sha256 pathOf) { now, goals } es → ∀ sessionId fingerprint,
      ((es.foldl (step sha256 deps) { now, goals }).ended.filter fun e =>
        e.sessionId = sessionId ∧ e.fingerprint = fingerprint ∧ e.outcome ≠ .refused).length ≤ 1) ∧
    ∀ c ∈ (es.foldl (step sha256 deps) { now, goals }).calls, Continues sha256 c.read c.fingerprint := by
  constructor
  · intro h sessionId fingerprint
    have hi := Run.invariant (inv_step hsha) (inv_init now goals) h
    rw [count_spent]
    exact nodup_iff_count_le_one.mp hi.once _
  · have start : CallsInv sha256 { now, goals } := ⟨fun _ _ h => (by cases h), fun _ h => (by cases h)⟩
    exact (Run.invariant_all callsInv_step start es).calls

end

/-- The hash on the two goals below. -/
def goalHash (text : JsString) : JsString :=
  if text = js "A\n1" then js "7fc11926a60365d122b4f1bcd830f853b111f912e7d4e6e8c962a60eaaa95b9b"
  else if text = js "B\n2" then js "77fedd257d07862c83fcbbabe9a519d5f3336dc577bf102dec6719d5153aa215"
  else List.replicate 64 (unit '0')

theorem goalHash_length (text : JsString) : (goalHash text).length = 64 := by
  unfold goalHash
  split_ifs
  · decide +kernel
  · decide +kernel
  · exact length_replicate

def goalA : SessionGoalProjection := { status := .running, objective := some (js "A"), startedAt := some (.fin 1) }

def goalB : SessionGoalProjection := { status := .running, objective := some (js "B"), startedAt := some (.fin 2) }

def piSession : SweepCandidate :=
  { sessionId := js "s", sessionPath := js "p", runtime := js "pi", origin := some .internal_api
    announced := some ⟨.drain, js "drain_timeout"⟩ }

/-- A sweep that takes up the session and classifies it, as the `i`-th pending one. -/
def classifies (i : ℕ) : List Step := .sweep piSession (.fin 0) true :: List.replicate 2 (.advance i {})

def taskSteps (n : ℕ) (outcome : Outcome) : List Step :=
  List.replicate n (.task (js "s") { dispatch := ⟨outcome, none⟩ })

/-- A continue whose answer is lost, a crash, and a second sweep over the same goal. -/
def sweepTwice : List Step :=
  classifies 0 ++ .advance 0 {} :: taskSteps 12 .unknown ++ .crash :: classifies 0 ++ .advance 0 {} :: taskSteps 20 .accepted

theorem no_second_continue : (sweepTwice.foldl (step goalHash {}) { goals := fun _ => goalA }).reports.length = 1 ∧
    ((sweepTwice.foldl (step goalHash {}) { goals := fun _ => goalA }).ended.filter fun e =>
      e.sessionId = js "s" ∧ e.fingerprint = goalHash (js "A\n1") ∧ e.outcome ≠ .refused).length ≤ 1 :=
  ⟨by decide +kernel,
    (continued_once goalHash_length {} (fun _ => js "p") 0 (fun _ => goalA) sweepTwice).1 (by decide +kernel) _ _⟩

/-- A sweep has read goal A when goal B replaces it and is continued by another sweep. Going on, the
    first prunes the marker of B as another goal's, sees at its re-read that A is gone and releases
    its own claim. The next sweep continues B again. -/
theorem continued_twice : ((classifies 0 ++ .setGoal (js "p") goalB :: classifies 1 ++ .advance 1 {} :: taskSteps 19 .accepted ++
      .advance 0 {} :: taskSteps 12 .accepted ++ classifies 0 ++ .advance 0 {} :: taskSteps 10 .accepted).foldl
        (step goalHash {}) { goals := fun _ => goalA }).ended.filter
      (fun e => e.sessionId = js "s" ∧ e.fingerprint = goalHash (js "B\n2") ∧ e.outcome ≠ .refused) =
    List.replicate 2 ⟨js "s", goalHash (js "B\n2"), .accepted⟩ := by
  decide +kernel

end PiWebUi.Goal
