/-
  PiWebUi.Goal.NudgeBudget — what the nudger keeps of its budget and of a pause.

  The record is read and written without a lock, and the prompt goes out before it is
  accounted for. In every run whose steps are `Orderly` (no visit sends a prompt while an
  earlier one is unaccounted, or on a projection or a record that is out of date; no
  patch is merged into anything but the record as it stands; the accounting of a prompt
  and a write that began do not fail), `Bounded` holds in every state: between two resets
  of the budget at most `maxNudges` prompts go out, the next one `backoffDelayMs` after
  the last, none after a pause was recorded, and the record is every landed patch in
  order (`nudges_bounded`).
-/

import PiWebUi.Goal.ClaudeNudger
import PiWebUi.Lib.InFlight

namespace PiWebUi.Goal.ClaudeNudger

open Lib List Option

variable (c : ClaudeGoalAutoContinueConfig) (initial : ClaudeGoalControlRecord)

/-! ## What the log says -/

def Entry.apply (record : ClaudeGoalControlRecord) : Entry → ClaudeGoalControlRecord
  | .landed patch => merge record patch
  | .sent _ => record

/-- The record as the landed patches make it. -/
def recorded (log : List Entry) : ClaudeGoalControlRecord := log.foldl Entry.apply initial

/-- The patch starts a new budget. -/
def resets (patch : Patch) : Bool := patch.nudges = some (some 0)

def Entry.window (sent : List ℕ) : Entry → List ℕ
  | .sent time => sent ++ [time]
  | .landed patch => if resets patch then [] else sent

/-- When the prompts since the last reset went out. -/
def window (log : List Entry) : List ℕ := log.foldl Entry.window []

structure Bounded (s : State) : Prop where
  count : (window s.log).length ≤ c.maxNudges
  spaced : ∀ n t t', (window s.log)[n]? = some t → (window s.log)[n + 1]? = some t' →
    t + backoffDelayMs c.baseBackoffMs c.maxBackoffMs (n + 1) ≤ t'
  unpaused : ∀ before time after, s.log = before ++ .sent time :: after → (recorded initial before).autoContinue ≠ some false
  kept : s.isWriting = false → s.file.get = recorded initial s.log

/-! ## Orderly steps -/

def Write.owes : Write → Option ℕ
  | .nudge nudges => some nudges
  | _ => none

/-- The patch the call is at. -/
def Phase.patching : Phase → Option (Write × Patch)
  | .patchRead w patch | .patchTruncate w patch _ | .patchWrite w patch _ => some (w, patch)
  | _ => none

/-- The prompt went out as number `nudges` and is not accounted for. -/
def Phase.owes : Phase → Option ℕ
  | .dispatching nudges => some nudges
  | ph => ph.patching.bind fun x => x.1.owes

def State.isOwing (s : State) : Bool := s.procs.any (·.owes.isSome)

/-- What the step of a call must meet. -/
def OrderlyAt (s : State) (a : Answers) : Phase → Prop
  | .decide projection record =>
    decideOn c s.now projection record = .nudge → a.sent = true →
      s.isWriting = false ∧ s.isOwing = false ∧ projection.autoContinue = decide (s.file.get.autoContinue ≠ some false) ∧
        record.nudges = s.file.get.nudges ∧ record.lastNudgeAt = s.file.get.lastNudgeAt
  | .patchRead w _ => a.fails = true → w.owes = none
  | .patchTruncate w _ current => if a.fails then w.owes = none else s.isWriting = false ∧ current = s.file.get
  | .patchWrite _ _ _ => a.fails = false
  | _ => True

def Orderly (s : State) : Step → Prop
  | .proc i a => ∀ ph, s.procs[i]? = some ph → OrderlyAt c s a ph
  | _ => True

instance OrderlyAt.decidable (s : State) (a : Answers) (ph : Phase) : Decidable (OrderlyAt c s a ph) := by
  unfold OrderlyAt
  split <;> infer_instance

instance Orderly.decidable (s : State) (e : Step) : Decidable (Orderly c s e) := by
  unfold Orderly
  split <;> infer_instance

/-! ## The log, entry by entry -/

theorem recorded_concat (log : List Entry) (e : Entry) : recorded initial (log ++ [e]) = e.apply (recorded initial log) := by
  simp [recorded]

theorem window_concat (log : List Entry) (e : Entry) : window (log ++ [e]) = e.window (window log) := by
  simp [window]

theorem backoff_mono {m n : ℕ} (h : m ≤ n) :
    backoffDelayMs c.baseBackoffMs c.maxBackoffMs m ≤ backoffDelayMs c.baseBackoffMs c.maxBackoffMs n := by
  have hpow : 2 ^ m ≤ 2 ^ n := Nat.pow_le_pow_right (by decide) h
  have hmul : c.baseBackoffMs * 2 ^ m ≤ c.baseBackoffMs * 2 ^ n := Nat.mul_le_mul_left _ hpow
  unfold backoffDelayMs
  omega

/-! ## The invariant -/

/-- A patch on its way, made at `time`; one that accounts for a prompt was made after
    every prompt of the window. -/
def Stamped (sent : List ℕ) (w : Write) (patch : Patch) : Prop :=
  ∃ time, patch = w.patch time ∧ (w.owes.isSome = true → ∀ t ∈ sent, t ≤ time)

structure Inv (s : State) : Prop where
  writing : ∀ (i : ℕ) (ph : Phase) current, s.procs[i]? = some ph → ph.writing = some current → current = recorded initial s.log
  oneWriter : ∀ (i j : ℕ) (ph ph' : Phase), s.procs[i]? = some ph → s.procs[j]? = some ph' → ph.writing.isSome = true →
    ph'.writing.isSome = true → i = j
  stamped : ∀ (i : ℕ) (ph : Phase) w patch, s.procs[i]? = some ph → ph.patching = some (w, patch) → Stamped (window s.log) w patch
  settled : s.isOwing = false → (window s.log).length ≤ nudgesOf (recorded initial s.log) ∧
    ∀ t ∈ window s.log, ∃ u, (recorded initial s.log).lastNudgeAt = some u ∧ t ≤ u
  owed : ∀ (i : ℕ) (ph : Phase) nudges, s.procs[i]? = some ph → ph.owes = some nudges → (window s.log).length ≤ nudges + 1
  oneOwing : ∀ (i j : ℕ) (ph ph' : Phase), s.procs[i]? = some ph → s.procs[j]? = some ph' → ph.owes.isSome = true →
    ph'.owes.isSome = true → i = j
  past : ∀ t ∈ window s.log, t ≤ s.now
  bounded : Bounded c initial s

variable {c initial} {s : State}

theorem not_writing_iff : s.isWriting = false ↔ ∀ (i : ℕ) (ph : Phase), s.procs[i]? = some ph → ph.writing = none := by
  rw [← InFlight.forall_mem_iff]
  simp [State.isWriting]

theorem not_owing_iff : s.isOwing = false ↔ ∀ (i : ℕ) (ph : Phase), s.procs[i]? = some ph → ph.owes = none := by
  rw [← InFlight.forall_mem_iff]
  simp [State.isOwing]

/-! ## Moves that touch neither file nor log -/

/-- The call writes and owes as before, and is at no patch that is not accounted for. -/
structure Follows (sent : List ℕ) (before after : Phase) : Prop where
  owes : after.owes = before.owes
  writing : after.writing = before.writing
  patching : ∀ w patch, after.patching = some (w, patch) → before.patching = some (w, patch) ∨ Stamped sent w patch

theorem Follows.refl (sent : List ℕ) (ph : Phase) : Follows sent ph ph := ⟨rfl, rfl, fun _ _ h => .inl h⟩

/-- A call that begins. -/
structure Fresh (sent : List ℕ) (ph : Phase) : Prop where
  owes : ph.owes = none
  writing : ph.writing = none
  patching : ∀ w patch, ph.patching = some (w, patch) → Stamped sent w patch

theorem Inv.move (h : Inv c initial s) {t : State} (hfile : t.file = s.file) (hlog : t.log = s.log) (hnow : s.now ≤ t.now)
    (hprocs : ∀ (j : ℕ) (x : Phase), t.procs[j]? = some x →
      (∃ y, s.procs[j]? = some y ∧ Follows (window s.log) y x) ∨ Fresh (window s.log) x)
    (hkept : ∀ (j : ℕ) (y : Phase), s.procs[j]? = some y → ∃ x, t.procs[j]? = some x ∧ Follows (window s.log) y x) :
    Inv c initial t := by
  have hwriting : t.isWriting = false → s.isWriting = false := by
    intro ht
    refine not_writing_iff.mpr fun j y hy => ?_
    obtain ⟨x, hx, hfollows⟩ := hkept j y hy
    rw [← hfollows.writing]
    exact not_writing_iff.mp ht j x hx
  have howing : t.isOwing = false → s.isOwing = false := by
    intro ht
    refine not_owing_iff.mpr fun j y hy => ?_
    obtain ⟨x, hx, hfollows⟩ := hkept j y hy
    rw [← hfollows.owes]
    exact not_owing_iff.mp ht j x hx
  constructor
  · intro i ph current hi hw
    rw [hlog]
    rcases hprocs i ph hi with ⟨y, hy, hfollows⟩ | hfresh
    · exact h.writing i y current hy (hfollows.writing ▸ hw)
    · rw [hfresh.writing] at hw
      cases hw
  · intro i j ph ph' hi hj hw hw'
    rcases hprocs i ph hi with ⟨y, hy, hfollows⟩ | hfresh
    · rcases hprocs j ph' hj with ⟨z, hz, hfollows'⟩ | hfresh
      · exact h.oneWriter i j y z hy hz (hfollows.writing ▸ hw) (hfollows'.writing ▸ hw')
      · rw [hfresh.writing] at hw'
        cases hw'
    · rw [hfresh.writing] at hw
      cases hw
  · intro i ph w patch hi hp
    rw [hlog]
    rcases hprocs i ph hi with ⟨y, hy, hfollows⟩ | hfresh
    · rcases hfollows.patching w patch hp with hp | hstamped
      · exact h.stamped i y w patch hy hp
      · exact hstamped
    · exact hfresh.patching w patch hp
  · intro ht
    rw [hlog]
    exact h.settled (howing ht)
  · intro i ph nudges hi ho
    rw [hlog]
    rcases hprocs i ph hi with ⟨y, hy, hfollows⟩ | hfresh
    · exact h.owed i y nudges hy (hfollows.owes ▸ ho)
    · rw [hfresh.owes] at ho
      cases ho
  · intro i j ph ph' hi hj ho ho'
    rcases hprocs i ph hi with ⟨y, hy, hfollows⟩ | hfresh
    · rcases hprocs j ph' hj with ⟨z, hz, hfollows'⟩ | hfresh
      · exact h.oneOwing i j y z hy hz (hfollows.owes ▸ ho) (hfollows'.owes ▸ ho')
      · rw [hfresh.owes] at ho'
        cases ho'
    · rw [hfresh.owes] at ho
      cases ho
  · intro t' ht'
    rw [hlog] at ht'
    exact (h.past t' ht').trans hnow
  · have hb := h.bounded
    exact ⟨hlog ▸ hb.count, hlog ▸ hb.spaced, hlog ▸ hb.unpaused, fun ht => by rw [hfile, hlog]; exact hb.kept (hwriting ht)⟩

variable {i : ℕ} {projection : SessionGoalProjection} {record : ClaudeGoalControlRecord} {w : Write}

/-- One call moves. -/
theorem Inv.goto (h : Inv c initial s) {phase ph : Phase} (hi : s.procs[i]? = some phase)
    (hfollows : Follows (window s.log) phase ph) (cache : Option (ℚ × SessionGoalProjection)) :
    Inv c initial { s.goto i ph with cache := cache } := by
  refine h.move rfl rfl (Nat.le_refl _) (fun j x hx => ?_) fun j y hy => ?_
  · rcases InFlight.get_set hx with ⟨rfl, rfl⟩ | ⟨_, hx⟩
    · exact .inl ⟨phase, hi, hfollows⟩
    · exact .inl ⟨x, hx, .refl _ x⟩
  · by_cases hj : j = i
    · subst hj
      obtain rfl : phase = y := some.inj (hi.symm.trans hy)
      exact ⟨ph, InFlight.set_self ph hi, hfollows⟩
    · exact ⟨y, InFlight.set_other ph hj hy, .refl _ y⟩

/-- A call begins. -/
theorem Inv.begins (h : Inv c initial s) {ph : Phase} (hfresh : Fresh (window s.log) ph) :
    Inv c initial { s with procs := s.procs ++ [ph] } := by
  refine h.move rfl rfl (Nat.le_refl _) (fun j x hx => ?_) fun j y hy => ?_
  · rcases InFlight.get_append hx with hx | ⟨-, rfl⟩
    · exact .inl ⟨x, hx, .refl _ x⟩
    · exact .inr hfresh
  · exact ⟨y, InFlight.append_left ph hy, .refl _ y⟩

/-- A visit before its decision, or a call that has no more to do. -/
def Phase.isIdle (ph : Phase) : Bool := ph.owes = none && ph.writing = none

theorem Follows.idle {sent : List ℕ} {before after : Phase} (hb : before.isIdle = true) (ha : after.isIdle = true)
    (hp : after.patching = none) : Follows sent before after := by
  simp only [Phase.isIdle, Bool.and_eq_true, decide_eq_true_eq] at hb ha
  exact ⟨ha.1.trans hb.1.symm, ha.2.trans hb.2.symm, fun w patch h => by rw [hp] at h; cases h⟩

/-! ## The steps that matter -/

theorem decideOn_nudge {now : ℕ} (h : decideOn c now projection record = .nudge) :
    projection.status = .running ∧ nudgesOf record < c.maxNudges ∧ isDue c now record = true := by
  unfold decideOn at h
  split at h
  · split at h <;> cases h
  · split at h <;> cases h
  · split at h <;> cases h
  · next hrunning =>
    split at h
    · split at h <;> cases h
    · next hopen =>
      split at h
      · next hdue =>
        rw [Bool.or_eq_true, not_or, decide_eq_true_eq, not_le] at hopen
        exact ⟨hrunning, hopen.2, hdue⟩
      · cases h
  · cases h

theorem split_concat {α : Type} {log before after : List α} {e x : α} (h : log ++ [e] = before ++ x :: after) :
    log = before ∧ e = x ∨ ∃ after', log = before ++ x :: after' := by
  rcases eq_nil_or_concat after with rfl | ⟨after', last, rfl⟩
  · obtain ⟨hlog, he⟩ := append_inj' h rfl
    exact .inl ⟨hlog, singleton_inj.mp he⟩
  · have h' : log ++ [e] = (before ++ x :: after') ++ [last] := by simpa using h
    exact .inr ⟨after', (append_inj' h' rfl).1⟩

/-- A prompt goes out. -/
theorem Inv.sent (h : Inv c initial s)
    (hi : s.procs[i]? = some (.decide projection record)) (hnudge : decideOn c s.now projection record = .nudge)
    (hnotwriting : s.isWriting = false) (hnotowing : s.isOwing = false)
    (hauto : projection.autoContinue = decide (s.file.get.autoContinue ≠ some false))
    (hnudges : record.nudges = s.file.get.nudges) (hlast : record.lastNudgeAt = s.file.get.lastNudgeAt) :
    Inv c initial { s.goto i (.dispatching (nudgesOf record)) with log := s.log ++ [.sent s.now] } := by
  obtain ⟨hrunning, hmax, hdue⟩ := decideOn_nudge hnudge
  have hfile := h.bounded.kept hnotwriting
  obtain ⟨hlength, hlastNudge⟩ := h.settled hnotowing
  have hsame : nudgesOf record = nudgesOf (recorded initial s.log) := by rw [nudgesOf, hnudges, hfile, nudgesOf]
  have hwindow : window (s.log ++ [.sent s.now]) = window s.log ++ [s.now] := window_concat _ _
  have hrecorded : recorded initial (s.log ++ [.sent s.now]) = recorded initial s.log := recorded_concat _ _ _
  have hother : ∀ (j : ℕ) (x : Phase), (s.procs.set i (.dispatching (nudgesOf record)))[j]? = some x →
      j = i ∧ x = .dispatching (nudgesOf record) ∨ j ≠ i ∧ s.procs[j]? = some x ∧ x.owes = none := by
    intro j x hx
    rcases InFlight.get_set hx with hself | ⟨hj, hx⟩
    · exact .inl hself
    · exact .inr ⟨hj, hx, not_owing_iff.mp hnotowing j x hx⟩
  constructor
  · intro j ph current hj hw
    rw [hrecorded]
    rcases hother j ph hj with ⟨rfl, rfl⟩ | ⟨_, hj, _⟩
    · cases hw
    · exact h.writing j ph current hj hw
  · intro j k ph ph' hj hk hw hw'
    rcases hother j ph hj with ⟨rfl, rfl⟩ | ⟨_, hj, _⟩
    · cases hw
    rcases hother k ph' hk with ⟨rfl, rfl⟩ | ⟨_, hk, _⟩
    · cases hw'
    exact h.oneWriter j k ph ph' hj hk hw hw'
  · intro j ph w patch hj hp
    rcases hother j ph hj with ⟨rfl, rfl⟩ | ⟨_, hj, howes⟩
    · cases hp
    · obtain ⟨time, hpatch, _⟩ := h.stamped j ph w patch hj hp
      refine ⟨time, hpatch, fun hw => ?_⟩
      have : ph.owes = w.owes := by cases ph <;> cases hp <;> rfl
      rw [← this, howes] at hw
      cases hw
  · intro hnone
    have hself := InFlight.set_self (.dispatching (nudgesOf record)) hi
    cases not_owing_iff.mp hnone i (.dispatching (nudgesOf record)) hself
  · intro j ph nudges hj ho
    rcases hother j ph hj with ⟨rfl, rfl⟩ | ⟨_, _, howes⟩
    · cases ho
      rw [hwindow, length_append, hsame, length_singleton]
      omega
    · rw [howes] at ho
      cases ho
  · intro j k ph ph' hj hk ho ho'
    rcases hother j ph hj with ⟨rfl, rfl⟩ | ⟨_, _, howes⟩
    · rcases hother k ph' hk with ⟨rfl, rfl⟩ | ⟨_, _, howes⟩
      · rfl
      · rw [howes] at ho'
        cases ho'
    · rw [howes] at ho
      cases ho
  · intro t ht
    rw [hwindow] at ht
    rcases mem_append.mp ht with ht | ht
    · exact h.past t ht
    · rw [mem_singleton.mp ht]
      exact Nat.le_refl _
  refine ⟨?_, fun n t t' hn hn' => ?_, fun before time after hlog => ?_, fun _ => ?_⟩
  · rw [hwindow, length_append, length_singleton]
    omega
  · rw [hwindow] at hn hn'
    have hlt : n + 1 < (window s.log ++ [s.now]).length := (List.getElem?_eq_some_iff.mp hn').1
    rw [length_append, length_singleton] at hlt
    by_cases hnew : n + 1 = (window s.log).length
    · -- the prompt before this one is accounted for, in a record that is due
      rw [getElem?_append_left (by omega)] at hn
      rw [hnew, getElem?_concat_length, some.injEq] at hn'
      obtain ⟨u, hu, htu⟩ := hlastNudge t (mem_of_getElem? hn)
      have hdue' : backoffDelayMs c.baseBackoffMs c.maxBackoffMs (nudgesOf record) + u ≤ s.now := by
        have hrecord : record.lastNudgeAt = some u := by rw [hlast, hfile, hu]
        simpa [isDue, hrecord] using hdue
      have hmono := backoff_mono c (show n + 1 ≤ nudgesOf record by omega)
      omega
    · rw [getElem?_append_left (by omega)] at hn hn'
      exact h.bounded.spaced n t t' hn hn'
  · rcases split_concat hlog with ⟨rfl, _⟩ | ⟨after', hlog⟩
    · have harmed := projection.armed hrunning
      rw [hauto, decide_eq_true_eq, hfile] at harmed
      exact harmed
    · exact h.bounded.unpaused before time after' hlog
  · rw [hrecorded]
    exact hfile

/-- A write begins. -/
theorem Inv.truncate (h : Inv c initial s) {patch : Patch} {current : ClaudeGoalControlRecord}
    (hi : s.procs[i]? = some (.patchTruncate w patch current)) (hnotwriting : s.isWriting = false)
    (hcurrent : current = s.file.get) : Inv c initial { s.goto i (.patchWrite w patch current) with file := .torn } := by
  have hfile := h.bounded.kept hnotwriting
  have hself := InFlight.set_self (.patchWrite w patch current) hi
  have hother : ∀ (j : ℕ) (x : Phase), (s.procs.set i (.patchWrite w patch current))[j]? = some x →
      j = i ∧ x = .patchWrite w patch current ∨ s.procs[j]? = some x ∧ x.writing = none := by
    intro j x hx
    rcases InFlight.get_set hx with hself | ⟨_, hx⟩
    · exact .inl hself
    · exact .inr ⟨hx, not_writing_iff.mp hnotwriting j x hx⟩
  constructor
  · intro j ph base hj hw
    rcases hother j ph hj with ⟨rfl, rfl⟩ | ⟨_, hnone⟩
    · cases hw
      exact hcurrent.trans hfile
    · rw [hnone] at hw
      cases hw
  · intro j k ph ph' hj hk hw hw'
    rcases hother j ph hj with ⟨rfl, rfl⟩ | ⟨_, hnone⟩
    · rcases hother k ph' hk with ⟨rfl, rfl⟩ | ⟨_, hnone⟩
      · rfl
      · rw [hnone] at hw'
        cases hw'
    · rw [hnone] at hw
      cases hw
  · intro j ph v p hj hp
    rcases hother j ph hj with ⟨rfl, rfl⟩ | ⟨hj, _⟩
    · exact h.stamped j _ v p hi hp
    · exact h.stamped j ph v p hj hp
  · intro hnone
    refine h.settled (not_owing_iff.mpr fun j y hy => ?_)
    by_cases hj : j = i
    · subst hj
      obtain rfl : Phase.patchTruncate w patch current = y := some.inj (hi.symm.trans hy)
      exact not_owing_iff.mp hnone j (.patchWrite w patch current) hself
    · exact not_owing_iff.mp hnone j y (InFlight.set_other _ hj hy)
  · intro j ph nudges hj ho
    rcases hother j ph hj with ⟨rfl, rfl⟩ | ⟨hj, _⟩
    · exact h.owed j _ nudges hi ho
    · exact h.owed j ph nudges hj ho
  · intro j k ph ph' hj hk ho ho'
    rcases hother j ph hj with ⟨rfl, rfl⟩ | ⟨hj', _⟩
    · rcases hother k ph' hk with ⟨rfl, rfl⟩ | ⟨hk', _⟩
      · rfl
      · exact h.oneOwing j k _ ph' hi hk' ho ho'
    · rcases hother k ph' hk with ⟨rfl, rfl⟩ | ⟨hk', _⟩
      · exact h.oneOwing j k ph _ hj' hi ho ho'
      · exact h.oneOwing j k ph ph' hj' hk' ho ho'
  · exact h.past
  refine ⟨h.bounded.count, h.bounded.spaced, h.bounded.unpaused, fun hnone => ?_⟩
  cases not_writing_iff.mp hnone i (.patchWrite w patch current) hself

theorem Write.patch_keeps (hw : w.owes = none) (time : ℕ) :
    resets (w.patch time) = true ∨ (w.patch time).nudges = none ∧ (w.patch time).lastNudgeAt = none := by
  cases w with
  | control request => cases request <;> first | exact .inl rfl | exact .inr ⟨rfl, rfl⟩
  | reset => exact .inl rfl
  | exhausted => exact .inr ⟨rfl, rfl⟩
  | nudge nudges => cases hw

/-- A patch lands. -/
theorem Inv.landed (h : Inv c initial s) {patch : Patch} {current : ClaudeGoalControlRecord}
    (hi : s.procs[i]? = some (.patchWrite w patch current)) (garbled : Bool) : Inv c initial { s.goto i .wrote with
      file := if garbled && (s.goto i .wrote).isWriting then .torn else .record (merge current patch)
      log := s.log ++ [.landed patch] } := by
  have hother : ∀ (j : ℕ) (x : Phase), (s.procs.set i .wrote)[j]? = some x →
      j = i ∧ x = .wrote ∨ j ≠ i ∧ s.procs[j]? = some x ∧ x.writing = none := by
    intro j x hx
    rcases InFlight.get_set hx with hself | ⟨hj, hx⟩
    · exact .inl hself
    · refine .inr ⟨hj, hx, not_isSome_iff_eq_none.mp fun hw => hj ?_⟩
      exact h.oneWriter j i x _ hx hi hw rfl
  have halone : (s.goto i .wrote).isWriting = false := by
    refine not_writing_iff.mpr fun j x hx => ?_
    rcases hother j x hx with ⟨_, rfl⟩ | ⟨_, _, hnone⟩
    · rfl
    · exact hnone
  have hcurrent : current = recorded initial s.log := h.writing i _ current hi rfl
  have hrecorded : recorded initial (s.log ++ [.landed patch]) = merge (recorded initial s.log) patch := recorded_concat _ _ _
  have hwindow : window (s.log ++ [.landed patch]) = if resets patch then [] else window s.log := window_concat _ _
  have hsub : ∀ t ∈ window (s.log ++ [.landed patch]), t ∈ window s.log := by
    intro t ht
    rw [hwindow] at ht
    split at ht
    · cases ht
    · exact ht
  have hshort : (window (s.log ++ [.landed patch])).length ≤ (window s.log).length := by
    rw [hwindow]
    split
    · exact Nat.zero_le _
    · exact Nat.le_refl _
  constructor
  · intro j ph base hj hw
    rcases hother j ph hj with ⟨rfl, rfl⟩ | ⟨_, _, hnone⟩
    · cases hw
    · rw [hnone] at hw
      cases hw
  · intro j k ph ph' hj hk hw hw'
    rcases hother j ph hj with ⟨rfl, rfl⟩ | ⟨_, _, hnone⟩
    · cases hw
    · rw [hnone] at hw
      cases hw
  · intro j ph v p hj hp
    rcases hother j ph hj with ⟨rfl, rfl⟩ | ⟨_, hj, _⟩
    · cases hp
    · obtain ⟨time, hpatch, hle⟩ := h.stamped j ph v p hj hp
      exact ⟨time, hpatch, fun hv t ht => hle hv t (hsub t ht)⟩
  · intro hnone
    show (window (s.log ++ [.landed patch])).length ≤ nudgesOf (recorded initial (s.log ++ [.landed patch])) ∧ _
    obtain ⟨time, hpatch, hle⟩ := h.stamped i _ w patch hi rfl
    rw [hrecorded]
    cases howes : w.owes with
    | some nudges =>
      -- the prompt is accounted for
      obtain rfl : w = .nudge nudges := by cases w <;> cases howes; rfl
      have hlength := h.owed i _ nudges hi rfl
      subst hpatch
      refine ⟨hshort.trans hlength, fun t ht => ⟨time, rfl, hle rfl t (hsub t ht)⟩⟩
    | none =>
      have hsettled := h.settled (not_owing_iff.mpr fun j y hy => by
        by_cases hj : j = i
        · subst hj
          obtain rfl : Phase.patchWrite w patch current = y := some.inj (hi.symm.trans hy)
          exact howes
        · exact not_owing_iff.mp hnone j y (InFlight.set_other _ hj hy))
      rcases w.patch_keeps howes time with hresets | ⟨hnudges, hlast⟩
      · have hempty : window (s.log ++ [.landed patch]) = [] := by rw [hwindow, hpatch, if_pos hresets]
        rw [hempty]
        exact ⟨Nat.zero_le _, nofun⟩
      · rw [← hpatch] at hnudges hlast
        have hsame : nudgesOf (merge (recorded initial s.log) patch) = nudgesOf (recorded initial s.log) := by
          rw [nudgesOf, merge, hnudges]
          rfl
        rw [hsame]
        refine ⟨hshort.trans hsettled.1, fun t ht => ?_⟩
        obtain ⟨u, hu, htu⟩ := hsettled.2 t (hsub t ht)
        refine ⟨u, ?_, htu⟩
        rw [merge, hlast]
        exact hu
  · intro j ph nudges hj ho
    rcases hother j ph hj with ⟨rfl, rfl⟩ | ⟨_, hj, _⟩
    · cases ho
    · exact hshort.trans (h.owed j ph nudges hj ho)
  · intro j k ph ph' hj hk ho ho'
    rcases hother j ph hj with ⟨rfl, rfl⟩ | ⟨_, hj', _⟩
    · cases ho
    rcases hother k ph' hk with ⟨rfl, rfl⟩ | ⟨_, hk', _⟩
    · cases ho'
    exact h.oneOwing j k ph ph' hj' hk' ho ho'
  · intro t ht
    exact h.past t (hsub t ht)
  refine ⟨hshort.trans h.bounded.count, fun n t t' hn hn' => ?_, fun before time after hlog => ?_, fun _ => ?_⟩
  · rw [hwindow] at hn hn'
    by_cases hresets : resets patch = true
    · rw [if_pos hresets] at hn
      cases hn
    · rw [if_neg hresets] at hn hn'
      exact h.bounded.spaced n t t' hn hn'
  · rcases split_concat hlog with ⟨_, hentry⟩ | ⟨after', hlog⟩
    · cases hentry
    · exact h.bounded.unpaused before time after' hlog
  · show File.get (if garbled && (s.goto i .wrote).isWriting then .torn else .record (merge current patch)) = _
    rw [halone, Bool.and_false, if_neg (by decide), hrecorded, ← hcurrent]
    rfl

/-! ## Every step -/

theorem decideOn_patch {now : ℕ} (h : decideOn c now projection record = .patch w) : w.owes = none := by
  unfold decideOn at h
  split at h
  · split at h <;> cases h; rfl
  · split at h <;> cases h; rfl
  · split at h <;> cases h; rfl
  · split at h
    · split at h <;> cases h; rfl
    · split at h <;> cases h
  · cases h

theorem Follows.reads {sent : List ℕ} {before : Phase} {now : ℕ} (howes : before.owes = w.owes)
    (hwriting : before.writing = none) (hpast : ∀ t ∈ sent, t ≤ now) : Follows sent before (.patchRead w (w.patch now)) := by
  refine ⟨howes.symm, hwriting.symm, ?_⟩
  rintro _ _ ⟨⟩
  exact .inr ⟨now, rfl, fun _ => hpast⟩

theorem Follows.ends {sent : List ℕ} {before : Phase} (howes : before.owes = none) (hwriting : before.writing = none) :
    Follows sent before .done :=
  ⟨howes.symm, hwriting.symm, (fun _ _ h => by cases h)⟩

theorem Inv.idle (h : Inv c initial s) {phase ph : Phase} (hi : s.procs[i]? = some phase)
    (hb : phase.isIdle = true) (ha : ph.isIdle = true) (hp : ph.patching = none) : Inv c initial (s.goto i ph) :=
  h.goto hi (.idle hb ha hp) s.cache

/-- Step lemma for a call. -/
theorem inv_advance (h : Inv c initial s) {phase : Phase} (hi : s.procs[i]? = some phase) {a : Answers}
    (ho : OrderlyAt c s a phase) : Inv c initial (advance c s i phase a) := by
  cases phase with
  | stat =>
    simp only [advance]
    split
    · exact h.idle hi rfl rfl rfl
    split
    · split <;> exact h.idle hi rfl rfl rfl
    · exact h.idle hi rfl rfl rfl
  | statuses mtimeMs | control mtimeMs last | get projection => exact h.idle hi rfl rfl rfl
  | projected mtimeMs projection => exact h.goto hi (.idle rfl rfl rfl) (some (mtimeMs, projection))
  | decide projection record =>
    simp only [advance]
    cases hdecision : decideOn c s.now projection record with
    | leave => exact h.idle hi rfl rfl rfl
    | patch w => exact h.goto hi (.reads (decideOn_patch hdecision).symm rfl h.past) s.cache
    | nudge =>
      dsimp only
      by_cases hsent : a.sent = true
      · rw [if_pos hsent]
        obtain ⟨hnotwriting, hnotowing, hauto, hnudges, hlast⟩ := ho hdecision hsent
        exact h.sent hi hdecision hnotwriting hnotowing hauto hnudges hlast
      · rw [if_neg hsent]
        exact h.idle hi rfl rfl rfl
  | dispatching nudges => exact h.goto hi (.reads rfl rfl h.past) s.cache
  | patchRead w patch =>
    simp only [advance]
    by_cases hfails : a.fails = true
    · rw [if_pos hfails]
      exact h.goto hi (.ends (ho hfails) rfl) s.cache
    · rw [if_neg hfails]
      have hfollows : Follows (window s.log) (.patchRead w patch) (.patchTruncate w patch s.file.get) :=
        ⟨rfl, rfl, fun _ _ hp => .inl hp⟩
      exact h.goto hi hfollows s.cache
  | patchTruncate w patch current =>
    simp only [advance]
    by_cases hfails : a.fails = true
    · rw [if_pos hfails]
      have howes : w.owes = none := by simpa only [OrderlyAt, hfails, if_true] using ho
      exact h.goto hi (.ends howes rfl) s.cache
    · rw [if_neg hfails]
      simp only [OrderlyAt, hfails, if_false, Bool.false_eq_true] at ho
      exact h.truncate hi ho.1 ho.2
  | patchWrite w patch current =>
    have hok : a.fails = false := ho
    simp only [advance, hok, Bool.false_eq_true, if_false]
    exact h.landed hi a.garbled
  | wrote => exact h.goto hi (.idle rfl rfl rfl) none
  | done => exact h

theorem inv_step (s : State) (e : Step) (h : Inv c initial s) (ho : Orderly c s e) : Inv c initial (step c s e) := by
  cases e with
  | visit isRunning =>
    simp only [step]
    split
    · exact h.begins ⟨rfl, rfl, (fun _ _ h => by cases h)⟩
    · exact h
  | control request =>
    refine h.begins ⟨rfl, rfl, ?_⟩
    rintro _ _ ⟨⟩
    exact ⟨s.now, rfl, (fun h => by cases h)⟩
  | proc i a =>
    simp only [step]
    split
    · next phase hi => exact inv_advance h hi (ho phase hi)
    · exact h
  | wait ms =>
    exact h.move rfl rfl (Nat.le_add_right _ _) (fun j x hx => .inl ⟨x, hx, .refl _ x⟩) fun j y hy => ⟨y, hy, .refl _ y⟩
  | evict =>
    exact h.move rfl rfl (Nat.le_refl _) (fun j x hx => .inl ⟨x, hx, .refl _ x⟩) fun j y hy => ⟨y, hy, .refl _ y⟩

/-- The server starts with the record that the file holds. -/
def start (file : File) (now : ℕ) : State := ⟨now, file, none, [], []⟩

theorem inv_start (c : ClaudeGoalAutoContinueConfig) (file : File) (now : ℕ) : Inv c file.get (start file now) := by
  have hnone : ∀ (i : ℕ) (ph : Phase), (start file now).procs[i]? = some ph → False := fun i ph hi => by cases hi
  constructor
  · exact fun i ph _ hi => (hnone i ph hi).elim
  · exact fun i _ ph _ hi => (hnone i ph hi).elim
  · exact fun i ph _ _ hi => (hnone i ph hi).elim
  · exact fun _ => ⟨Nat.zero_le _, nofun⟩
  · exact fun i ph _ hi => (hnone i ph hi).elim
  · exact fun i _ ph _ hi => (hnone i ph hi).elim
  · exact nofun
  refine ⟨Nat.zero_le _, nofun, fun before time after hlog => ?_, fun _ => rfl⟩
  cases before <;> cases hlog

/-- In every run of orderly steps the budget, its backoff and the pauses hold throughout. -/
theorem nudges_bounded (c : ClaudeGoalAutoContinueConfig) (file : File) (now : ℕ) (es : List Step)
    (ho : Run.Along (step c) (Orderly c) (start file now) es) :
    ∀ done, done <+: es → Bounded c file.get (done.foldl (step c) (start file now)) := by
  rintro done ⟨rest, rfl⟩
  exact (Run.invariant inv_step (inv_start c file now) (Run.along_append.mp ho).1).bounded

/-! ## Orderly and disorderly runs -/

def oneNudge : ClaudeGoalAutoContinueConfig := { maxNudges := 1 }

/-- The transcript's last verdict is that the goal is not met. -/
def unmet : Answers := { last := some ⟨false, false, none⟩ }

def calls (i n : ℕ) : List Step := List.replicate n (.proc i unmet)

/-- A visit sends a prompt and accounts for it; the next one finds the budget spent. -/
def orderlyNudge : List Step := .visit false :: calls 0 11 ++ .visit false :: calls 1 6

theorem orderly_nudge : Bounded oneNudge {} (orderlyNudge.foldl (step oneNudge) (start .absent 0)) :=
  nudges_bounded oneNudge .absent 0 orderlyNudge (by decide +kernel) _ (prefix_refl _)

/-- Two sweeps visit the session at once. -/
def overlapping : List Step := [.visit false, .visit false] ++ calls 0 6 ++ calls 1 3

/-- The accounting reads the record, a pause lands, and the accounting is written. -/
def pauseOverwritten : List Step := .visit false :: calls 0 8 ++ .control .pause :: calls 1 4 ++ calls 0 3

/-- A pause lands between the reading of the record and the dispatch. -/
def pausedAfterReading : List Step := .visit false :: calls 0 5 ++ .control .pause :: calls 1 4 ++ calls 0 1

/-- The accounting fails, and the next sweep finds the budget whole. -/
def accountingFails : List Step :=
  .visit false :: calls 0 7 ++ .proc 0 { fails := true } :: .visit false :: calls 1 3

def ran (es : List Step) : State := es.foldl (step oneNudge) (start .absent 0)

/-- Two prompts on a budget of one, a pause that is gone, a prompt after a pause, and a
    prompt that nothing counted. -/
theorem disorderly_runs : ¬ Bounded oneNudge {} (ran overlapping) ∧ ¬ Bounded oneNudge {} (ran pauseOverwritten) ∧
      ¬ Bounded oneNudge {} (ran pausedAfterReading) ∧ ¬ Bounded oneNudge {} (ran accountingFails) := by
  refine ⟨fun h => ?_, fun h => ?_, fun h => ?_, fun h => ?_⟩
  · have htwo : (window (ran overlapping).log).length = 2 := by decide +kernel
    have hone : 2 ≤ 1 := htwo ▸ h.count
    omega
  · have hkept := h.kept (by decide +kernel)
    have hlost : (ran pauseOverwritten).file.get.autoContinue ≠
        (recorded {} (ran pauseOverwritten).log).autoContinue := by decide +kernel
    exact hlost (congrArg _ hkept)
  · exact h.unpaused [.landed { autoContinue := some (some false) }] 0 [] (by decide +kernel) rfl
  · have htwo : (window (ran accountingFails).log).length = 2 := by decide +kernel
    have hone : 2 ≤ 1 := htwo ▸ h.count
    omega

end PiWebUi.Goal.ClaudeNudger
