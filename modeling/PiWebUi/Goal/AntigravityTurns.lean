/-
  PiWebUi.Goal.AntigravityTurns — each completed turn advances its goal once.

  The cursor of the record (`lastVerifiedTurnAt`) is what marks a turn processed. A visit moves
  it past the turn it took up, and does so blindly: `Alone` is the comparison it does not make
  (cursor and owed flag as it last saw them, at each write and at each dispatch), and that no
  second visit sends while one has sent and not yet written so. Under it the cursor only grows
  (`PhaseOk`), so the writes that count a turn are at most one (`Counted`), and an accepted
  continuation is either behind the cursor with nothing owed, or about to be recorded by the
  one visit that sent it (`SendInv.settled`).
-/

import PiWebUi.Goal.AntigravityControl

namespace PiWebUi.Goal.Antigravity

open Lib List Option

variable {s : State} {ph : Phase} {i : ℕ}

/-- A cursor as a number: before any turn, or after one. -/
def rank (v : Option Value) : ℕ :=
  match number v with
  | some n => n + 1
  | none => 0

def cursor (r : AntigravityGoalRecord) : Option Value := r .lastVerifiedTurnAt

def owes (r : AntigravityGoalRecord) : Prop := r .pendingContinuation = some (.flag true)

instance (r : AntigravityGoalRecord) : Decidable (owes r) := inferInstanceAs (Decidable (_ = _))

/-- The owed flag once a visit with this copy has superseded it. -/
def Copy.owedAfter (c : Copy) : Option Value := if owes c.record then some (.flag false) else c.record .pendingContinuation

/-! ## The condition -/

/-- The cursor as the visit last saw it, or wrote it. -/
def Write.cursorSeen : Write → Option Value
  | .owedDone c _ => cursor c.record
  | .superseded w | .pausedForErrors w | .strike w | .achieved w _ | .budgetExhausted w _ | .unmet w _ =>
    cursor w.copy.record
  | .refused w => some (.num w.turn.completedAt)
  | .control _ _ | .resumed _ => none

/-- The owed flag, likewise. -/
def Write.owedSeen : Write → Option Value
  | .owedDone _ _ | .superseded _ => some (.flag true)
  | .pausedForErrors w | .strike w | .achieved w _ | .budgetExhausted w _ | .unmet w _ | .refused w => w.copy.owedAfter
  | .control _ _ | .resumed _ => none

/-- Written after a dispatch. -/
def Write.afterDispatch : Write → Bool
  | .owedDone _ _ | .strike _ | .refused _ => true
  | _ => false

/-- A dispatch is asked for, or has ended and is not yet recorded. -/
def Phase.sending : Phase → Bool
  | .dispatch _ => true
  | .patchRead k _ | .patchTruncate k _ _ | .patchWrite k _ _ _ => k.afterDispatch
  | _ => false

/-- Sweeps and turns only, the turns at growing times. -/
def SweepsOnly (s : State) : Step → Prop
  | .control _ => False
  | .turnCompletes t => ∀ u ∈ s.turn, u.completedAt < t.completedAt
  | _ => True

instance (s : State) (e : Step) : Decidable (SweepsOnly s e) := by
  cases e <;> unfold SweepsOnly <;> infer_instance

/-- A visit writes on the cursor and the owed flag it last saw, and sends on those it has just read,
    while no other is sending. -/
def Unchanged (s : State) : Phase → Prop
  | .patchWrite k _ _ _ => k.copy.isSome = true → cursor s.last = k.cursorSeen ∧ s.last .pendingContinuation = k.owedSeen
  | .armedRead d fresh => fresh.any (stillArmed d) = true → s.isRunning = false →
      (∀ ph ∈ s.procs, ph.sending = false) ∧ cursor s.last = d.cursor ∧ (d.isOwed = true → owes s.last)
  | _ => True

instance (s : State) (ph : Phase) : Decidable (Unchanged s ph) := by
  cases ph <;> unfold Unchanged <;> infer_instance

def Alone (s : State) (e : Step) : Prop := PatchesApart s e ∧ SweepsOnly s e ∧ ∀ ph ∈ s.phaseOf e, Unchanged s ph

instance (s : State) (e : Step) : Decidable (Alone s e) := inferInstanceAs (Decidable (_ ∧ _ ∧ _))

/-! ## What is counted -/

/-- By how much a write increased `runs`. -/
def Landing.gain (l : Landing) : ℕ := l.runsAfter.getD 0 - l.runsBefore.getD 0

/-- The increases of `runs` by the writes for a turn. -/
def State.gained (s : State) (turnAt : ℕ) : ℕ := ((s.landed.filter fun l => l.turnAt = some turnAt).map (·.gain)).sum

/-- The strikes counted for a turn. -/
def State.struck (s : State) (turnAt : ℕ) : ℕ := (s.landed.filter fun l => l.turnAt = some turnAt && l.strike).length

/-- The continuations accepted for a turn. -/
def State.dispatched (s : State) (turnAt : ℕ) : ℕ := s.accepted.count (some turnAt)

/-- Runs within the budget, and a running goal still has one. -/
def Budget (r : AntigravityGoalRecord) : Prop :=
  ∃ n m, r .runs = some (.num n) ∧ r .maxRuns = some (.num m) ∧ n ≤ m ∧ (r .status = some (.status .running) → n < m)

def CursorOk (v : Option Value) : Prop := v = none ∨ ∃ n, v = some (.num n)

def latest (turn : Option AgyCompletedTurn) : ℕ := (turn.map fun t => t.completedAt + 1).getD 0

/-- A goal record as a start or a visit leaves it. -/
structure Sound (r : AntigravityGoalRecord) (turn : Option AgyCompletedTurn) : Prop where
  budget : Budget r
  cursor : CursorOk (r .lastVerifiedTurnAt)
  seen : rank (r .lastVerifiedTurnAt) ≤ latest turn

/-! ## What each phase of a visit knows -/

/-- A copy: its cursor is not after the record's, and at the same cursor its runs are the record's. -/
structure CopyOk (last : AntigravityGoalRecord) (c : Copy) : Prop where
  cursorOk : CursorOk (cursor c.record)
  behind : rank (cursor c.record) ≤ rank (cursor last)
  runs : cursor last = cursor c.record → last .runs = c.record .runs
  maxRuns : last .maxRuns = c.record .maxRuns
  budget : Budget c.record

structure WorkOk (last : AntigravityGoalRecord) (seen : ℕ) (w : Work) : Prop where
  copy : CopyOk last w.copy
  armed : armed w.copy.record = true
  isNew : rank (cursor w.copy.record) < w.turn.completedAt + 1
  turn : w.turn.completedAt + 1 ≤ seen

def OwedOk (last : AntigravityGoalRecord) (c : Copy) (turnAt : Option ℕ) : Prop :=
  CopyOk last c ∧ ∀ t, turnAt = some t → cursor c.record = some (.num t)

def DueOk (last : AntigravityGoalRecord) (seen : ℕ) : Due → Prop
  | .owed c turnAt => OwedOk last c turnAt
  | .retry w => WorkOk last seen w ∧ w.turn.isError = true
  | .next w => w.turn.isError = false

def WriteOk (last : AntigravityGoalRecord) (seen : ℕ) : Write → Prop
  | .owedDone c turnAt => OwedOk last c turnAt
  | .superseded w => WorkOk last seen w
  | .pausedForErrors w | .strike w => WorkOk last seen w ∧ w.turn.isError = true
  | .achieved w _ | .budgetExhausted w _ => WorkOk last seen w ∧ w.turn.isError = false
  | .unmet w _ => WorkOk last seen w ∧ w.turn.isError = false ∧ budgetReached w.copy.record = false
  | .refused w => w.turn.isError = false
  | .control _ _ | .resumed _ => False

def WroteOk (last : AntigravityGoalRecord) (seen : ℕ) : Write → Prop
  | .superseded w => WorkOk last seen w
  | .unmet w _ => w.turn.isError = false
  | .control _ _ | .resumed _ => False
  | _ => True

def PhaseOk (last : AntigravityGoalRecord) (seen : ℕ) : Phase → Prop
  | .record | .done => True
  | .recordRead c => ∀ c', c = some c' → CopyOk last c'
  | .turn c => CopyOk last c ∧ armed c.record = true
  | .turnRead c turn => (CopyOk last c ∧ armed c.record = true) ∧
      ∀ t, turn = some t → rank (cursor c.record) ≤ t.completedAt + 1 ∧ t.completedAt + 1 ≤ seen
  | .verify w => WorkOk last seen w ∧ w.turn.isError = false
  | .armedTurn d | .armedRecord d | .armedRead d _ | .dispatch d => DueOk last seen d
  | .patchRead k p | .patchTruncate k p _ | .patchWrite k p _ _ => WriteOk last seen k ∧ ∃ now, p = k.patch now
  | .wrote k => WroteOk last seen k
  | .existing _ | .resumeDispatch => False

theorem rank_num (n : ℕ) : rank (some (.num n)) = n + 1 := rfl

theorem turnIsNew_iff {r : AntigravityGoalRecord} {t : AgyCompletedTurn} (h : CursorOk (cursor r)) :
    turnIsNew r t = true ↔ rank (cursor r) < t.completedAt + 1 := by
  unfold turnIsNew
  obtain h | ⟨n, h⟩ := h <;> unfold cursor at h ⊢ <;> rw [h] <;> simp [rank, number]

/-! ## The steps of a visit -/

/-- How a new turn is taken on. -/
inductive Processes (w : Work) : Phase → Prop
  | pause (p : Patch) (now : ℕ) (he : w.turn.isError = true) (hp : p = (Write.pausedForErrors w).patch now) :
      Processes w (.patchRead (.pausedForErrors w) p)
  | retry (he : w.turn.isError = true) : Processes w (.armedTurn (.retry w))
  | verify (he : w.turn.isError = false) : Processes w (.verify w)
  | busy : Processes w .done

/-- The steps of a visit that touch neither the file nor the history. -/
inductive Moves (s : State) : Phase → Phase → Prop
  | ends (ph : Phase) : Moves s ph .done
  | checked (c : Copy) (h : armed c.record = true) : Moves s (.recordRead (some c)) (.turn c)
  | reads (c : Copy) : Moves s (.turn c) (.turnRead c s.turn)
  | owing (c : Copy) (turn : Option AgyCompletedTurn) (hn : ∀ t, turn = some t → turnIsNew c.record t = false)
      (ho : owes c.record) : Moves s (.turnRead c turn) (.armedTurn (.owed c (turn.map (·.completedAt))))
  | supersedes (c : Copy) (t : AgyCompletedTurn) (hn : turnIsNew c.record t = true) (ho : owes c.record) (p : Patch) (now : ℕ)
      (hp : p = (Write.superseded ⟨c, t⟩).patch now) :
      Moves s (.turnRead c (some t)) (.patchRead (.superseded ⟨c, t⟩) p)
  | takes (c : Copy) (t : AgyCompletedTurn) (hn : turnIsNew c.record t = true) (ph : Phase) (h : Processes ⟨c, t⟩ ph) :
      Moves s (.turnRead c (some t)) ph
  | goesOn (w : Work) (ph : Phase) (h : Processes w ph) : Moves s (.wrote (.superseded w)) ph
  | meets (w : Work) (v : GoalVerificationInfo) (p : Patch) (now : ℕ) (hp : p = (Write.achieved w v).patch now) :
      Moves s (.verify w) (.patchRead (.achieved w v) p)
  | exhausts (w : Work) (v : GoalVerificationInfo) (p : Patch) (now : ℕ) (hp : p = (Write.budgetExhausted w v).patch now) :
      Moves s (.verify w) (.patchRead (.budgetExhausted w v) p)
  | misses (w : Work) (v : GoalVerificationInfo) (hb : budgetReached w.copy.record = false) (p : Patch) (now : ℕ)
      (hp : p = (Write.unmet w v).patch now) : Moves s (.verify w) (.patchRead (.unmet w v) p)
  | sameTurn (d : Due) : Moves s (.armedTurn d) (.armedRecord d)
  | rereads (d : Due) : Moves s (.armedRecord d) (.armedRead d s.file.read)
  | asks (d : Due) (fresh : Option AntigravityGoalRecord) (hf : fresh.any (stillArmed d) = true) (hr : s.isRunning = false) :
      Moves s (.armedRead d fresh) (.dispatch d)
  | refused (w : Work) (p : Patch) (now : ℕ) (hp : p = (Write.refused w).patch now) :
      Moves s (.dispatch (.next w)) (.patchRead (.refused w) p)
  | continues (w : Work) (v : GoalVerificationInfo) : Moves s (.wrote (.unmet w v)) (.armedTurn (.next w))

/-- Where a visit goes when its continuation is accepted. -/
inductive Accepts : Due → Phase → Prop
  | owed (c : Copy) (turnAt : Option ℕ) (p : Patch) (now : ℕ) (hp : p = (Write.owedDone c turnAt).patch now) :
      Accepts (.owed c turnAt) (.patchRead (.owedDone c turnAt) p)
  | retry (w : Work) (p : Patch) (now : ℕ) (hp : p = (Write.strike w).patch now) :
      Accepts (.retry w) (.patchRead (.strike w) p)
  | next (w : Work) : Accepts (.next w) .done

theorem process_cases (s : State) (i : ℕ) (w : Work) : ∃ ph, s.process i w = s.goto i ph ∧ Processes w ph := by
  unfold State.process
  split_ifs with he
  · exact ⟨_, rfl, .pause _ s.now he rfl⟩
  · unfold State.checkArmed
    split_ifs
    · exact ⟨_, rfl, .busy⟩
    · exact ⟨_, rfl, .retry he⟩
  · exact ⟨_, rfl, .verify (by simpa using he)⟩

/-- A step of a visit that does not touch the file: a move, or an accepted continuation. -/
theorem visit_cases (hq : ph.isQuiet = true) {seen : ℕ} (hok : PhaseOk s.last seen ph)
    (a : Answers) : (∃ ph', advance s i ph a = s.goto i ph' ∧ Moves s ph ph') ∨ ∃ d ph', ph = .dispatch d ∧ Accepts d ph' ∧
      advance s i ph a = ({ s with accepted := s.accepted ++ [d.turnAt] } : State).goto i ph' := by
  cases ph with
  | record | patchRead | patchTruncate | patchWrite => cases hq
  | existing | resumeDispatch => exact hok.elim
  | done => exact .inl ⟨_, rfl, .ends _⟩
  | recordRead copy =>
    left
    cases copy with
    | none => exact ⟨_, rfl, .ends _⟩
    | some c =>
      simp only [advance]
      split_ifs with hc
      · exact ⟨_, rfl, .ends _⟩
      · refine ⟨_, rfl, .checked c ?_⟩
        by_contra ha
        exact hc (by simp [ha])
  | turn c => exact .inl ⟨_, rfl, .reads c⟩
  | turnRead c turn =>
    left
    simp only [advance]
    split
    · rename_i hn
      split_ifs with ho
      · unfold State.checkArmed
        split_ifs
        · exact ⟨_, rfl, .ends _⟩
        · refine ⟨_, rfl, .owing c turn ?_ ho⟩
          rintro t rfl
          simpa [Option.filter] using hn
      · exact ⟨_, rfl, .ends _⟩
    · rename_i t hn
      obtain ⟨rfl, hnew⟩ := filter_eq_some_iff.mp hn
      split_ifs with ho
      · exact ⟨_, rfl, .supersedes c t hnew ho _ s.now rfl⟩
      · obtain ⟨ph', h, hp⟩ := process_cases s i ⟨c, t⟩
        exact ⟨ph', h, .takes c t hnew ph' hp⟩
  | verify w =>
    left
    simp only [advance]
    split_ifs with hm hb
    · exact ⟨_, rfl, .meets w _ _ s.now rfl⟩
    · exact ⟨_, rfl, .exhausts w _ _ s.now rfl⟩
    · exact ⟨_, rfl, .misses w _ (by simpa using hb) _ s.now rfl⟩
  | armedTurn d =>
    left
    simp only [advance]
    split_ifs
    · exact ⟨_, rfl, .sameTurn d⟩
    · exact ⟨_, rfl, .ends _⟩
  | armedRecord d => exact .inl ⟨_, rfl, .rereads d⟩
  | armedRead d fresh =>
    left
    simp only [advance]
    split_ifs with h
    · simp only [Bool.and_eq_true, Bool.not_eq_true'] at h
      exact ⟨_, rfl, .asks d fresh h.1 h.2⟩
    · exact ⟨_, rfl, .ends _⟩
  | dispatch d =>
    simp only [advance]
    split_ifs
    · right
      cases d with
      | owed c turnAt => exact ⟨_, _, rfl, .owed c turnAt _ s.now rfl, rfl⟩
      | retry w => exact ⟨_, _, rfl, .retry w _ s.now rfl, rfl⟩
      | next w => exact ⟨_, _, rfl, .next w, rfl⟩
    · left
      cases d with
      | next w => exact ⟨_, rfl, .refused w _ s.now rfl⟩
      | _ => exact ⟨_, rfl, .ends _⟩
  | wrote k =>
    left
    cases k with
    | superseded w =>
      obtain ⟨ph', h, hp⟩ := process_cases s i w
      exact ⟨ph', h, .goesOn w ph' hp⟩
    | unmet w v =>
      simp only [advance, State.checkArmed]
      split_ifs
      · exact ⟨_, rfl, .ends _⟩
      · exact ⟨_, rfl, .continues w v⟩
    | control | resumed => exact hok.elim
    | _ => exact ⟨_, rfl, .ends _⟩

/-! ## The phases along the moves -/

variable {last : AntigravityGoalRecord} {seen : ℕ}

theorem phaseOk_processes {w : Work} (hw : WorkOk last seen w) (h : Processes w ph) : PhaseOk last seen ph := by
  cases h with
  | pause p now he hp => exact ⟨⟨hw, he⟩, now, hp⟩
  | retry he | verify he => exact ⟨hw, he⟩
  | busy => exact True.intro

theorem cursor_of_rank {v : Option Value} {t : ℕ} (hv : CursorOk v) (h : rank v = t + 1) : v = some (.num t) := by
  obtain rfl | ⟨n, rfl⟩ := hv
  · cases h
  · rw [rank_num] at h
    rw [Nat.succ_injective h]

theorem phaseOk_moves {ph ph' : Phase} (hs : rank (cursor s.last) ≤ latest s.turn)
    (hok : PhaseOk s.last (latest s.turn) ph) (h : Moves s ph ph') : PhaseOk s.last (latest s.turn) ph' := by
  cases h with
  | ends => exact True.intro
  | checked c ha => exact ⟨hok c rfl, ha⟩
  | reads c =>
    refine ⟨hok, fun t ht => ?_⟩
    have : latest s.turn = t.completedAt + 1 := by rw [ht]; rfl
    have := hok.1.behind
    omega
  | owing c turn hn ho =>
    refine ⟨hok.1.1, fun t ht => ?_⟩
    obtain ⟨u, rfl, rfl⟩ := map_eq_some_iff.mp ht
    have old : ¬ rank (cursor c.record) < u.completedAt + 1 := by
      rw [← turnIsNew_iff hok.1.1.cursorOk, hn u rfl]
      simp
    have := (hok.2 u rfl).1
    exact cursor_of_rank hok.1.1.cursorOk (by omega)
  | supersedes c t hn ho p now hp =>
    exact ⟨⟨hok.1.1, hok.1.2, (turnIsNew_iff hok.1.1.cursorOk).mp hn, (hok.2 t rfl).2⟩, now, hp⟩
  | takes c t hn ph h => exact phaseOk_processes ⟨hok.1.1, hok.1.2, (turnIsNew_iff hok.1.1.cursorOk).mp hn, (hok.2 t rfl).2⟩ h
  | goesOn w ph h => exact phaseOk_processes hok h
  | meets w v p now hp | exhausts w v p now hp | refused w p now hp => exact ⟨hok, now, hp⟩
  | misses w v hb p now hp => exact ⟨⟨hok.1, hok.2, hb⟩, now, hp⟩
  | sameTurn d | rereads d | asks d fresh | continues w v => exact hok

theorem phaseOk_accepts {d : Due} (hok : DueOk last seen d) (h : Accepts d ph) : PhaseOk last seen ph := by
  cases h with
  | owed c turnAt p now hp | retry w p now hp => exact ⟨hok, now, hp⟩
  | next w => exact True.intro

/-- What a change of the record leaves of every copy, it leaves of every phase. -/
theorem phaseOk_mono {last' : AntigravityGoalRecord} {seen' : ℕ} (hc : ∀ c, CopyOk last c → CopyOk last' c)
    (hn : seen ≤ seen') (h : PhaseOk last seen ph) : PhaseOk last' seen' ph := by
  have work : ∀ w, WorkOk last seen w → WorkOk last' seen' w := fun w hw => ⟨hc _ hw.copy, hw.armed, hw.isNew, hw.turn.trans hn⟩
  have due : ∀ d, DueOk last seen d → DueOk last' seen' d := by
    intro d hd
    cases d with
    | owed c turnAt => exact ⟨hc _ hd.1, hd.2⟩
    | retry w => exact ⟨work _ hd.1, hd.2⟩
    | next w => exact hd
  have write : ∀ k, WriteOk last seen k → WriteOk last' seen' k := by
    intro k hk
    cases k with
    | owedDone c turnAt => exact ⟨hc _ hk.1, hk.2⟩
    | superseded w => exact work _ hk
    | pausedForErrors w | strike w | achieved w v | budgetExhausted w v | unmet w v => exact ⟨work _ hk.1, hk.2⟩
    | refused w => exact hk
    | control | resumed => exact hk.elim
  cases ph with
  | record | done => exact True.intro
  | recordRead c => exact fun c' hc' => hc _ (h c' hc')
  | turn c => exact ⟨hc _ h.1, h.2⟩
  | turnRead c turn => exact ⟨⟨hc _ h.1.1, h.1.2⟩, fun t ht => ⟨(h.2 t ht).1, (h.2 t ht).2.trans hn⟩⟩
  | verify w => exact ⟨work _ h.1, h.2⟩
  | armedTurn d | armedRecord d | armedRead d _ | dispatch d => exact due d h
  | patchRead k p | patchTruncate k p _ | patchWrite k p _ _ => exact ⟨write k h.1, h.2⟩
  | wrote k =>
    cases k with
    | superseded w => exact work _ h
    | _ => exact h
  | existing | resumeDispatch => exact h.elim

/-! ## What a write changes -/

/-- The turn that a write marks processed. -/
def Write.advances : Write → Option ℕ
  | .pausedForErrors w | .strike w | .achieved w _ | .budgetExhausted w _ | .unmet w _ => some w.turn.completedAt
  | _ => none

/-- The writes that count a run. -/
def Write.counts : Write → Option Copy
  | .achieved w _ | .budgetExhausted w _ | .unmet w _ => some w.copy
  | _ => none

section Written

variable {k : Write} {now : ℕ}

section

variable (hk : WriteOk last seen k)
include hk

theorem written_cursor : cursor (merge last (k.patch now)) = match k.advances with
    | some t => some (.num t)
    | none => cursor last := by
  cases k with
  | control | resumed => exact hk.elim
  | _ => rfl

theorem written_runs : (merge last (k.patch now)) .runs = match k.counts with
    | some c => increment (c.record .runs)
    | none => last .runs := by
  cases k with
  | control | resumed => exact hk.elim
  | _ => rfl

theorem written_maxRuns : (merge last (k.patch now)) .maxRuns = last .maxRuns := by
  cases k with
  | control | resumed => exact hk.elim
  | _ => rfl

theorem written_status :
    (merge last (k.patch now)) .status = last .status ∨ (merge last (k.patch now)) .status ≠ some (.status .running) := by
  cases k with
  | control | resumed => exact hk.elim
  | pausedForErrors | achieved | budgetExhausted => right; simp [merge, Write.patch]
  | _ => exact .inl rfl

/-- A turn that is marked processed is after the cursor. -/
theorem advances_lt (hu : cursor last = k.cursorSeen) {t : ℕ} (ha : k.advances = some t) :
    rank (cursor last) < t + 1 ∧ t + 1 ≤ seen := by
  cases k with
  | control | resumed => exact hk.elim
  | owedDone | superseded | refused => cases ha
  | pausedForErrors w | strike w | achieved w v | budgetExhausted w v | unmet w v =>
    cases ha
    rw [hu]
    exact ⟨hk.1.isNew, hk.1.turn⟩

/-- A write that counts a run is of a turn, on a copy with the runs of the record. -/
theorem counts_copy (hu : cursor last = k.cursorSeen) {c : Copy} (hc : k.counts = some c) :
    CopyOk last c ∧ armed c.record = true ∧ last .runs = c.record .runs ∧ k.isError = false ∧ ∃ t, k.advances = some t := by
  cases k with
  | control | resumed => exact hk.elim
  | owedDone | superseded | refused | pausedForErrors | strike => cases hc
  | achieved w v | budgetExhausted w v =>
    cases hc
    exact ⟨hk.1.copy, hk.1.armed, hk.1.copy.runs hu, hk.2, _, rfl⟩
  | unmet w v =>
    cases hc
    exact ⟨hk.1.copy, hk.1.armed, hk.1.copy.runs hu, hk.2.1, _, rfl⟩

end

end Written

/-- The record after a write of a visit, and the write. -/
structure Lands (last : AntigravityGoalRecord) (seen : ℕ) (k : Write) (now : ℕ) (next : AntigravityGoalRecord) : Prop where
  ok : WriteOk last seen k
  cursorSeen : cursor last = k.cursorSeen
  owedSeen : last .pendingContinuation = k.owedSeen
  merged : ∀ f, f ≠ .updatedAt → next f = merge last (k.patch now) f

section Lands

variable {k : Write} {now : ℕ} {next : AntigravityGoalRecord}

section

variable (h : Lands last seen k now next)
include h

theorem Lands.cursor_eq : cursor next = match k.advances with
    | some t => some (.num t)
    | none => cursor last :=
  (h.merged _ (by simp)).trans (written_cursor h.ok)

theorem Lands.grows : rank (cursor last) ≤ rank (cursor next) := by
  rw [h.cursor_eq]
  cases ha : k.advances with
  | none => exact Nat.le_refl _
  | some t => exact (advances_lt h.ok h.cursorSeen ha).1.le

theorem Lands.runs_eq : next .runs = match k.counts with
    | some c => increment (c.record .runs)
    | none => last .runs :=
  (h.merged _ (by simp)).trans (written_runs h.ok)

theorem Lands.copyOk {c : Copy} (hc : CopyOk last c) : CopyOk next c where
  cursorOk := hc.cursorOk
  behind := hc.behind.trans h.grows
  runs he := by
    rw [h.cursor_eq] at he
    cases ha : k.advances with
    | some t =>
      -- the cursor has passed every copy
      rw [ha] at he
      have passed := (advances_lt h.ok h.cursorSeen ha).1
      have behind := hc.behind
      rw [← he, rank_num] at behind
      omega
    | none =>
      rw [ha] at he
      rw [h.runs_eq]
      cases hk : k.counts with
      | none => exact hc.runs he
      | some c' =>
        obtain ⟨-, -, -, -, t, ht⟩ := counts_copy h.ok h.cursorSeen hk
        rw [ha] at ht
        cases ht
  maxRuns := ((h.merged _ (by simp)).trans (written_maxRuns h.ok)).trans hc.maxRuns
  budget := hc.budget

/-- A write of a visit keeps the budget: a run is counted only on a goal that has one left. -/
theorem Lands.budget (hb : Budget last) : Budget next := by
  have hm : next .maxRuns = last .maxRuns := (h.merged _ (by simp)).trans (written_maxRuns h.ok)
  have hs : merge last (k.patch now) .status = last .status ∨ merge last (k.patch now) .status ≠ some (.status .running) :=
    written_status h.ok
  rw [← h.merged _ (by simp)] at hs
  have hr := h.runs_eq
  obtain ⟨n, m, hn, hm', hle, hlt⟩ := hb
  cases hc : k.counts with
  | none =>
    rw [hc] at hr
    refine ⟨n, m, hr.trans hn, hm.trans hm', hle, fun hrun => ?_⟩
    obtain hs | hs := hs
    · exact hlt (hs ▸ hrun)
    · exact absurd hrun hs
  | some c =>
    rw [hc] at hr
    obtain ⟨copyOk, ha, same, -, -⟩ := counts_copy h.ok h.cursorSeen hc
    obtain ⟨n', m', hcn, hcm, -, left⟩ := copyOk.budget
    have running : c.record .status = some (.status .running) := by
      simp only [armed, Bool.and_eq_true, decide_eq_true_eq] at ha
      exact ha.1
    have left := left running
    have : n' = n := by
      have := hcn.symm.trans (same.symm.trans hn)
      simpa using this
    have : m' = m := by
      have := hcm.symm.trans (copyOk.maxRuns.symm.trans hm')
      simpa using this
    subst n' m'
    refine ⟨n + 1, m, ?_, hm.trans hm', left, fun hrun => ?_⟩
    · rw [hr]
      simp [hcn, increment]
    · -- the goal still runs: the budget was not reached
      have hk := h.ok
      cases k with
      | unmet w v =>
        cases hc
        have below := hk.2.2
        unfold budgetReached at below
        rw [hcn, hcm] at below
        simpa [number, increment] using below
      | achieved w v | budgetExhausted w v =>
        rw [h.merged _ (by simp)] at hrun
        simp [merge, Write.patch] at hrun
      | _ => cases hc

theorem Lands.gain (hb : Budget last) :
    ((number (next .runs)).getD 0 - (number (last .runs)).getD 0) ≤ (if k.counts.isSome then 1 else 0) := by
  rw [h.runs_eq]
  cases hc : k.counts with
  | none => simp
  | some c =>
    obtain ⟨-, -, same, -, -⟩ := counts_copy h.ok h.cursorSeen hc
    obtain ⟨n, m, hn, -⟩ := hb
    dsimp only
    rw [← same, hn]
    simp [increment, number]

end

end Lands

/-! ## Counting -/

structure CountInv (s : State) : Prop where
  phases : ∀ i ph, s.at i ph → PhaseOk s.last (latest s.turn) ph
  budget : Budget s.last
  cursorOk : CursorOk (cursor s.last)
  seen : rank (cursor s.last) ≤ latest s.turn
  counted : ∀ l ∈ s.landed, l.gain ≠ 0 ∨ l.strike = true → ∃ t, l.turnAt = some t ∧ t + 1 ≤ rank (cursor s.last)
  errors : ∀ l ∈ s.landed, l.isError = true → l.gain = 0
  gained : ∀ t, s.gained t ≤ 1
  struck : ∀ t, s.struck t ≤ 1

/-- The record, the turn and the history stay. -/
theorem CountInv.frame {s s' : State} (hi : CountInv s) (hl : s'.last = s.last) (ht : s'.turn = s.turn)
    (hh : s'.landed = s.landed) (hp : ∀ i ph, s'.at i ph → PhaseOk s.last (latest s.turn) ph) : CountInv s' := by
  refine ⟨?_, ?_, ?_, ?_, ?_, ?_, ?_, ?_⟩
  · rw [hl, ht]
    exact hp
  · exact hl ▸ hi.budget
  · exact hl ▸ hi.cursorOk
  · rw [hl, ht]
    exact hi.seen
  · rw [hl, hh]
    exact hi.counted
  · exact hh ▸ hi.errors
  · unfold State.gained
    rw [hh]
    exact hi.gained
  · unfold State.struck
    rw [hh]
    exact hi.struck

theorem CountInv.goto (hi : CountInv s) (h : PhaseOk s.last (latest s.turn) ph)
    (accepted : List (Option ℕ)) : CountInv (({ s with accepted } : State).goto i ph) := by
  refine hi.frame rfl rfl rfl fun j x hx => ?_
  obtain ⟨-, rfl⟩ | ⟨-, hx⟩ := at_goto hx
  · exact h
  · exact hi.phases j x hx

/-- The write that a visit is about to end, under the condition. -/
theorem lands_of {k : Write} {p : Patch} {next : AntigravityGoalRecord} {n : ℕ} (hf : FileInv s)
    (hi : CountInv s) (h : s.at i (.patchWrite k p next n)) (hu : Unchanged s (.patchWrite k p next n)) :
    k.copy.isSome = true ∧ ∃ now, p = k.patch now ∧ Lands s.last (latest s.turn) k now next := by
  obtain ⟨hk, now, rfl⟩ := hi.phases i _ h
  have copy : k.copy.isSome = true := by
    cases k with
    | control | resumed => exact hk.elim
    | _ => rfl
  obtain ⟨hc, ho⟩ := hu copy
  exact ⟨copy, now, rfl, hk, hc, ho, hf.merges i _ h⟩

theorem strike_advances {k : Write} (hs : k.isStrike = true) : ∃ t, k.advances = some t := by
  cases k with
  | strike w | pausedForErrors w => exact ⟨_, rfl⟩
  | _ => cases hs

theorem turnAt_of_advances {k : Write} {t : ℕ} (h : k.advances = some t) : k.turnAt = some t := by
  cases k with
  | pausedForErrors w | strike w | achieved w v | budgetExhausted w v | unmet w v => exact h
  | _ => cases h

theorem countInv_land {k : Write} {p : Patch} {next : AntigravityGoalRecord} {n : ℕ} (hf : FileInv s)
    (hi : CountInv s) (h : s.at i (.patchWrite k p next n)) (hu : Unchanged s (.patchWrite k p next n)) :
    CountInv ((s.land k p next true).goto i (.wrote k)) := by
  obtain ⟨copy, now, rfl, lands⟩ := lands_of hf hi h hu
  set l : Landing := { turnAt := k.turnAt, isError := k.isError, strike := k.isStrike
                       runsBefore := number (s.last .runs), runsAfter := number (next .runs) } with hl
  have landed : (s.land k (k.patch now) next true).landed = s.landed ++ [l] := by
    simp only [State.land, Write.landing, if_pos copy, if_true, hl]
  have gain := lands.gain hi.budget
  have counts : l.gain ≠ 0 → k.counts.isSome = true := by
    intro hg
    by_contra hc
    rw [if_neg hc] at gain
    exact hg (Nat.le_zero.mp gain)
  have marks : l.gain ≠ 0 ∨ l.strike = true → ∃ t, k.advances = some t := by
    rintro (hg | hs)
    · obtain ⟨c, hc⟩ := isSome_iff_exists.mp (counts hg)
      exact (counts_copy lands.ok lands.cursorSeen hc).2.2.2.2
    · exact strike_advances hs
  -- an earlier write that counted this turn would have moved the cursor past it
  have first : ∀ t, k.advances = some t → ∀ e ∈ s.landed, e.turnAt = some t → e.gain = 0 ∧ e.strike = false := by
    intro t ht e he hte
    have below := (advances_lt lands.ok lands.cursorSeen ht).1
    constructor
    · by_contra hg
      obtain ⟨t', ht', hle⟩ := hi.counted e he (.inl hg)
      cases hte.symm.trans ht'
      omega
    · by_contra hs
      obtain ⟨t', ht', hle⟩ := hi.counted e he (.inr (by simpa using hs))
      cases hte.symm.trans ht'
      omega
  have base : CountInv (s.land k (k.patch now) next true) := by
    refine ⟨?_, lands.budget hi.budget, ?_, ?_, ?_, ?_, ?_, ?_⟩
    · exact fun j x hx => phaseOk_mono (fun _ => lands.copyOk) (Nat.le_refl _) (hi.phases j x hx)
    · show CursorOk (cursor next)
      rw [lands.cursor_eq]
      split
      · exact .inr ⟨_, rfl⟩
      · exact hi.cursorOk
    · show rank (cursor next) ≤ latest s.turn
      rw [lands.cursor_eq]
      split
      · rename_i t ht
        exact (advances_lt lands.ok lands.cursorSeen ht).2
      · exact hi.seen
    · show ∀ e ∈ (s.land k (k.patch now) next true).landed, _ → ∃ t, e.turnAt = some t ∧ t + 1 ≤ rank (cursor next)
      rw [landed]
      intro e he hc
      obtain he | he := mem_append.mp he
      · obtain ⟨t, ht, hle⟩ := hi.counted e he hc
        exact ⟨t, ht, hle.trans lands.grows⟩
      · cases mem_singleton.mp he
        obtain ⟨t, ht⟩ := marks hc
        refine ⟨t, turnAt_of_advances ht, ?_⟩
        rw [lands.cursor_eq, ht, rank_num]
    · rw [landed]
      intro e he hx
      obtain he | he := mem_append.mp he
      · exact hi.errors e he hx
      · cases mem_singleton.mp he
        by_contra hg
        obtain ⟨c, hc⟩ := isSome_iff_exists.mp (counts hg)
        have ok := (counts_copy lands.ok lands.cursorSeen hc).2.2.2.1
        rw [show k.isError = true from hx] at ok
        cases ok
    · intro t
      show ((((s.land k (k.patch now) next true).landed).filter fun e => e.turnAt = some t).map (·.gain)).sum ≤ 1
      rw [landed, filter_append, map_append, sum_append]
      have before := hi.gained t
      unfold State.gained at before
      by_cases hg : l.turnAt = some t ∧ l.gain ≠ 0
      · obtain ⟨t', ht'⟩ := marks (.inl hg.2)
        cases (turnAt_of_advances ht').symm.trans hg.1
        have none : ((s.landed.filter fun e => e.turnAt = some t).map (·.gain)).sum = 0 := by
          apply List.sum_eq_zero
          intro g hg
          obtain ⟨e, he, rfl⟩ := mem_map.mp hg
          obtain ⟨he, hte⟩ := mem_filter.mp he
          exact (first t ht' e he (by simpa using hte)).1
        rw [none]
        simp only [filter_cons, hg.1, decide_true, if_true, filter_nil, map_cons, map_nil,
          sum_cons, sum_nil, Nat.add_zero, Nat.zero_add]
        have : (if k.counts.isSome then 1 else 0) ≤ 1 := by split_ifs <;> omega
        exact gain.trans this
      · have zero : (([l].filter fun e => e.turnAt = some t).map (·.gain)).sum = 0 := by
          by_cases ht : l.turnAt = some t
          · have : l.gain = 0 := by
              by_contra h
              exact hg ⟨ht, h⟩
            simp [ht, this]
          · simp [ht]
        omega
    · intro t
      show (((s.land k (k.patch now) next true).landed).filter fun e => e.turnAt = some t && e.strike).length ≤ 1
      rw [landed, filter_append, length_append]
      have before := hi.struck t
      by_cases hs : (decide (l.turnAt = some t) && l.strike) = true
      · simp only [Bool.and_eq_true, decide_eq_true_eq] at hs
        obtain ⟨t', ht'⟩ := marks (.inr hs.2)
        cases (turnAt_of_advances ht').symm.trans hs.1
        have none : s.landed.filter (fun e => e.turnAt = some t && e.strike) = [] := by
          apply filter_eq_nil_iff.mpr
          intro e he hx
          simp only [Bool.and_eq_true, decide_eq_true_eq] at hx
          rw [(first t ht' e he hx.1).2] at hx
          cases hx.2
        rw [none]
        simp [hs.1, hs.2]
      · have none : [l].filter (fun e => e.turnAt = some t && e.strike) = [] := by
          apply filter_eq_nil_iff.mpr
          intro e he
          cases mem_singleton.mp he
          exact hs
        rw [none]
        exact before
  refine base.frame rfl rfl rfl fun j x hx => ?_
  obtain ⟨-, rfl⟩ | ⟨-, hx⟩ := at_goto hx
  · have hk := lands.ok
    have work : ∀ w, WorkOk s.last (latest s.turn) w → WorkOk next (latest s.turn) w :=
      fun w hw => ⟨lands.copyOk hw.copy, hw.armed, hw.isNew, hw.turn⟩
    cases k with
    | superseded w => exact work w hk
    | unmet w v => exact hk.2.1
    | control | resumed => exact hk.elim
    | _ => exact True.intro
  · exact base.phases j x hx

theorem countInv_advance {ph : Phase} (hf : FileInv s) (hi : CountInv s) (h : s.at i ph) (a : Answers)
    (hu : Unchanged s ph) : CountInv (advance s i ph a) := by
  have hok := hi.phases i ph h
  cases hq : ph.isQuiet with
  | true =>
    obtain ⟨ph', he, hm⟩ | ⟨d, ph', rfl, ha, he⟩ := visit_cases hq hok a
    · rw [he]
      exact hi.goto (phaseOk_moves hi.seen hok hm) s.accepted
    · rw [he]
      exact hi.goto (phaseOk_accepts hok ha) _
  | false =>
    cases ph with
    | record =>
      refine hi.goto ?_ s.accepted
      intro c hc
      obtain ⟨r, hr, rfl⟩ := map_eq_some_iff.mp hc
      have read : s.last = r := by
        unfold File.read at hr
        split at hr
        · rename_i r' hfile
          cases hr
          exact hf.whole r hfile
        · cases hr
      subst read
      exact ⟨hi.cursorOk, Nat.le_refl _, fun _ => rfl, rfl, hi.budget⟩
    | patchRead k p =>
      refine hi.goto ?_ s.accepted
      exact hok
    | patchTruncate k p next =>
      have hi : CountInv { s with file := .torn, truncations := s.truncations + 1 } := hi.frame rfl rfl rfl hi.phases
      refine hi.goto ?_ s.accepted
      exact hok
    | patchWrite k p next n =>
      rw [(fileInv_patchWrite hf h a).2]
      exact countInv_land hf hi h hu
    | _ => cases hq

theorem countInv_step (s : State) (e : Step) (hf : FileInv s) (hi : CountInv s) (hc : Alone s e) : CountInv (step s e) := by
  cases e with
  | tick ms | runningChanges running => exact hi.frame rfl rfl rfl hi.phases
  | turnCompletes t =>
    have later : latest s.turn ≤ latest (some t) := by
      have ht := hc.2.1
      cases hs : s.turn with
      | none => exact Nat.zero_le _
      | some u =>
        have := ht u hs
        simp only [latest, map_some, getD_some]
        omega
    exact ⟨fun i ph h => phaseOk_mono (fun _ hc => hc) later (hi.phases i ph h), hi.budget, hi.cursorOk, hi.seen.trans later,
      hi.counted, hi.errors, hi.gained, hi.struck⟩
  | sweep =>
    refine hi.frame rfl rfl rfl fun i ph h => ?_
    obtain h | rfl := at_append h
    · exact hi.phases i ph h
    · exact True.intro
  | control request => exact hc.2.1.elim
  | proc i a =>
    simp only [step]
    split
    · rename_i ph h
      exact countInv_advance hf hi h a (hc.2.2 ph h)
    · exact hi
  | fails i =>
    simp only [step]
    split
    · split_ifs
      · refine hi.goto ?_ s.accepted
        exact True.intro
      · exact hi
    · exact hi

/-! ## Sending -/

/-- The turn that a write after its acceptance records. -/
def Write.answered : Write → Option ℕ
  | .owedDone _ turnAt => turnAt
  | .strike w => some w.turn.completedAt
  | _ => none

def Phase.answered : Phase → Option ℕ
  | .patchRead k _ | .patchTruncate k _ _ | .patchWrite k _ _ _ => k.answered
  | _ => none

/-- The turn whose next continuation the visit is about to send, or has seen refused. -/
def Phase.chain : Phase → Option ℕ
  | .wrote (.unmet w _) => some w.turn.completedAt
  | .armedTurn (.next w) | .armedRecord (.next w) | .armedRead (.next w) _ | .dispatch (.next w) => some w.turn.completedAt
  | .patchRead (.refused w) _ | .patchTruncate (.refused w) _ _ | .patchWrite (.refused w) _ _ _ => some w.turn.completedAt
  | _ => none

/-- The turn of an owed continuation, or of a retry, that is being sent. -/
def Phase.asking : Phase → Option ℕ
  | .dispatch (.owed _ turnAt) => turnAt
  | .dispatch (.retry w) => some w.turn.completedAt
  | _ => none

structure SendInv (s : State) : Prop where
  one : ∀ i j ph qh, s.at i ph → s.at j qh → ph.sending = true → qh.sending = true → i = j
  unique : ∀ i j ph qh t, s.at i ph → s.at j qh → ph.chain = some t → qh.chain = some t → i = j
  passed : ∀ i ph t, s.at i ph → ph.chain = some t → t + 1 ≤ rank (cursor s.last)
  paid : ∀ i ph t, s.at i ph → ph.chain = some t → cursor s.last = some (.num t) → ¬ owes s.last
  fresh : ∀ i ph t, s.at i ph → ph.chain = some t → some t ∈ s.accepted → ∃ j qh, s.at j qh ∧ qh.answered = some t
  asking : ∀ i ph t, s.at i ph → ph.asking = some t → some t ∉ s.accepted
  settled : ∀ t, some t ∈ s.accepted → (t + 1 ≤ rank (cursor s.last) ∧ (cursor s.last = some (.num t) → ¬ owes s.last)) ∨
    ∃ j qh, s.at j qh ∧ qh.answered = some t
  once : ∀ t, s.accepted.count (some t) ≤ 1

theorem sending_of_answered {t : ℕ} (h : ph.answered = some t) : ph.sending = true := by
  cases ph with
  | patchRead k p | patchTruncate k p _ | patchWrite k p _ _ =>
    cases k with
    | owedDone | strike => rfl
    | _ => cases h
  | _ => cases h

theorem SendInv.frame {s s' : State} (hi : SendInv s) (hl : s'.last = s.last) (ha : s'.accepted = s.accepted)
    (hp : s'.procs = s.procs) : SendInv s' := by
  have hat : ∀ i x, s'.at i x ↔ s.at i x := by
    intro i x
    unfold State.at
    rw [hp]
  refine ⟨?_, ?_, ?_, ?_, ?_, ?_, ?_, ?_⟩ <;> simp only [hat, hl, ha]
  · exact hi.one
  · exact hi.unique
  · exact hi.passed
  · exact hi.paid
  · exact hi.fresh
  · exact hi.asking
  · exact hi.settled
  · exact hi.once

/-- A step that changes nothing about sending. -/
theorem SendInv.goto (hi : SendInv s) {ph ph' : Phase} (h : s.at i ph)
    (hs : ph'.sending = true → ph.sending = true) (hc : ∀ t, ph'.chain = some t → ph.chain = some t)
    (ha : ph'.answered = ph.answered) (hk : ph'.asking = none) : SendInv (s.goto i ph') := by
  have keeps : ∀ t, (∃ j qh, s.at j qh ∧ qh.answered = some t) → ∃ j qh, (s.goto i ph').at j qh ∧ qh.answered = some t := by
    rintro t ⟨j, qh, hj, hq⟩
    by_cases hji : j = i
    · subst hji
      cases h.symm.trans hj
      exact ⟨j, ph', at_self ph' h, ha.trans hq⟩
    · exact ⟨j, qh, at_other ph' hji hj, hq⟩
  -- who has an attribute now had it before
  have sends : ∀ j x, (s.goto i ph').at j x → x.sending = true → ∃ y, s.at j y ∧ y.sending = true := by
    intro j x hx hxs
    obtain ⟨rfl, rfl⟩ | ⟨-, hx⟩ := at_goto hx
    · exact ⟨ph, h, hs hxs⟩
    · exact ⟨x, hx, hxs⟩
  have chains : ∀ j x t, (s.goto i ph').at j x → x.chain = some t → ∃ y, s.at j y ∧ y.chain = some t := by
    intro j x t hx hxc
    obtain ⟨rfl, rfl⟩ | ⟨-, hx⟩ := at_goto hx
    · exact ⟨ph, h, hc t hxc⟩
    · exact ⟨x, hx, hxc⟩
  refine ⟨?_, ?_, ?_, ?_, ?_, ?_, ?_, hi.once⟩
  · intro a b x y hx hy px py
    obtain ⟨x', hx, px⟩ := sends a x hx px
    obtain ⟨y', hy, py⟩ := sends b y hy py
    exact hi.one a b x' y' hx hy px py
  · intro a b x y t hx hy px py
    obtain ⟨x', hx, px⟩ := chains a x t hx px
    obtain ⟨y', hy, py⟩ := chains b y t hy py
    exact hi.unique a b x' y' t hx hy px py
  · intro a x t hx px
    obtain ⟨x', hx, px⟩ := chains a x t hx px
    exact hi.passed a x' t hx px
  · intro a x t hx px
    obtain ⟨x', hx, px⟩ := chains a x t hx px
    exact hi.paid a x' t hx px
  · intro a x t hx px hm
    obtain ⟨x', hx, px⟩ := chains a x t hx px
    exact keeps t (hi.fresh a x' t hx px hm)
  · intro a x t hx px
    obtain ⟨rfl, rfl⟩ | ⟨-, hx⟩ := at_goto hx
    · rw [hk] at px
      cases px
    · exact hi.asking a x t hx px
  · exact fun t hm => (hi.settled t hm).imp_right (keeps t)

/-- The phases that neither send nor record have none of it. -/
theorem processes_silent {w : Work} (h : Processes w ph) :
    ph.sending = false ∧ ph.chain = none ∧ ph.answered = none ∧ ph.asking = none := by
  cases h <;> exact ⟨rfl, rfl, rfl, rfl⟩

theorem answered_of_quiet (h : ph.isQuiet = true) : ph.answered = none := by
  cases ph <;> first | rfl | cases h

/-- A move sends nothing new, but for the step that asks. -/
theorem moves_silent {ph ph' : Phase} (h : Moves s ph ph') : ph'.answered = none ∧
    (∀ t, ph'.chain = some t → ph.chain = some t) ∧ (ph'.asking = none ∧ (ph'.sending = true → ph.sending = true) ∨
      ∃ d fresh, ph = .armedRead d fresh ∧ ph' = .dispatch d ∧ fresh.any (stillArmed d) = true ∧ s.isRunning = false) := by
  have silent : ∀ {w : Work} {ph' : Phase}, Processes w ph' → ph'.answered = none ∧ (∀ t, ph'.chain = some t → ph.chain = some t) ∧
      ph'.asking = none ∧ (ph'.sending = true → ph.sending = true) := by
    intro w ph' h
    obtain ⟨hs, hc, ha, hk⟩ := processes_silent h
    refine ⟨ha, fun t ht => ?_, hk, fun hx => ?_⟩
    · rw [hc] at ht
      cases ht
    · rw [hs] at hx
      cases hx
  cases h with
  | takes c t hn ph h | goesOn w ph h =>
    obtain ⟨ha, hc, hk⟩ := silent h
    exact ⟨ha, hc, .inl hk⟩
  | asks d fresh hf hr =>
    refine ⟨rfl, fun t ht => ?_, .inr ⟨d, fresh, rfl, rfl, hf, hr⟩⟩
    cases d with
    | next w => exact ht
    | _ => cases ht
  | sameTurn d | rereads d =>
    refine ⟨rfl, fun t ht => ?_, .inl ⟨rfl, nofun⟩⟩
    cases d with
    | next w => exact ht
    | _ => cases ht
  | refused w p now hp => exact ⟨rfl, fun t ht => ht, .inl ⟨rfl, fun h => h⟩⟩
  | continues w v => exact ⟨rfl, fun t ht => ht, .inl ⟨rfl, nofun⟩⟩
  | _ => exact ⟨rfl, nofun, .inl ⟨rfl, nofun⟩⟩

theorem sending_of_asking {t : ℕ} (h : ph.asking = some t) : ph.sending = true := by
  cases ph with
  | dispatch d => rfl
  | _ => cases h

/-- A continuation is asked for: none was accepted for its turn. -/
theorem sendInv_asks {d : Due} {fresh : Option AntigravityGoalRecord} (hi : SendInv s)
    (h : s.at i (.armedRead d fresh)) (hok : DueOk s.last (latest s.turn) d) (alone : ∀ ph ∈ s.procs, ph.sending = false)
    (hc : cursor s.last = d.cursor) (ho : d.isOwed = true → owes s.last) : SendInv (s.goto i (.dispatch d)) := by
  have quiet : ∀ j x, s.at j x → x.sending = false := fun j x hx => alone x (mem_of_getElem? hx)
  have unanswered : ∀ t, ¬ ∃ j qh, s.at j qh ∧ qh.answered = some t := by
    rintro t ⟨j, qh, hj, hq⟩
    have := sending_of_answered hq
    rw [quiet j qh hj] at this
    cases this
  have chains : ∀ j x t, (s.goto i (.dispatch d)).at j x → x.chain = some t → ∃ y, s.at j y ∧ y.chain = some t := by
    intro j x t hx hxc
    obtain ⟨rfl, rfl⟩ | ⟨-, hx⟩ := at_goto hx
    · refine ⟨_, h, ?_⟩
      cases d with
      | next w => exact hxc
      | _ => cases hxc
    · exact ⟨x, hx, hxc⟩
  refine ⟨?_, ?_, ?_, ?_, ?_, ?_, ?_, hi.once⟩
  · intro a b x y hx hy px py
    obtain ⟨rfl, -⟩ | ⟨-, hx⟩ := at_goto hx
    · obtain ⟨rfl, -⟩ | ⟨-, hy⟩ := at_goto hy
      · rfl
      · rw [quiet b y hy] at py
        cases py
    · rw [quiet a x hx] at px
      cases px
  · intro a b x y t hx hy px py
    obtain ⟨x', hx, px⟩ := chains a x t hx px
    obtain ⟨y', hy, py⟩ := chains b y t hy py
    exact hi.unique a b x' y' t hx hy px py
  · intro a x t hx px
    obtain ⟨x', hx, px⟩ := chains a x t hx px
    exact hi.passed a x' t hx px
  · intro a x t hx px
    obtain ⟨x', hx, px⟩ := chains a x t hx px
    exact hi.paid a x' t hx px
  · intro a x t hx px hm
    obtain ⟨x', hx, px⟩ := chains a x t hx px
    exact absurd (hi.fresh a x' t hx px hm) (unanswered t)
  · intro a x t hx px hm
    obtain ⟨rfl, rfl⟩ | ⟨-, hx⟩ := at_goto hx
    · obtain ⟨past, clear⟩ := (hi.settled t hm).resolve_right (unanswered t)
      cases d with
      | owed c turnAt =>
        have at_cursor : cursor s.last = some (.num t) := hc.trans (hok.2 t px)
        exact clear at_cursor (ho rfl)
      | retry w =>
        cases px
        have := hok.1.isNew
        rw [show cursor w.copy.record = cursor s.last from hc.symm] at this
        omega
      | next w => cases px
    · have := sending_of_asking px
      rw [quiet a x hx] at this
      cases this
  · exact fun t hm => .inl ((hi.settled t hm).resolve_right (unanswered t))

/-- A continuation is accepted. -/
theorem sendInv_accepts {d : Due} (hi : SendInv s) (h : s.at i (.dispatch d))
    (ha : Accepts d ph) : SendInv (({ s with accepted := s.accepted ++ [d.turnAt] } : State).goto i ph) := by
  have others : ∀ j x, j ≠ i → s.at j x → x.sending = false := by
    intro j x hj hx
    by_contra hs
    exact hj (hi.one j i x _ hx h (by simpa using hs) rfl)
  have unanswered : ∀ t, ¬ ∃ j qh, s.at j qh ∧ qh.answered = some t := by
    rintro t ⟨j, qh, hj, hq⟩
    have hs := sending_of_answered hq
    obtain rfl := hi.one j i qh _ hj h hs rfl
    cases h.symm.trans hj
    cases hq
  have silent : ph.chain = none ∧ ph.asking = none := by cases ha <;> exact ⟨rfl, rfl⟩
  -- what this acceptance adds: the turn of a chain, or one that is about to be recorded
  have adds : ∀ t, d.turnAt = some t → some t ∉ s.accepted ∧ ((Phase.dispatch d).chain = some t ∨ ph.answered = some t) := by
    intro t ht
    cases ha with
    | owed c turnAt p now hp | retry w p now hp => exact ⟨hi.asking i _ t h ht, .inr ht⟩
    | next w => exact ⟨fun hm => unanswered t (hi.fresh i _ t h ht hm), .inl ht⟩
  have recorded : ∀ t, ph.answered = some t →
      ∃ j qh, (({ s with accepted := s.accepted ++ [d.turnAt] } : State).goto i ph).at j qh ∧ qh.answered = some t :=
    fun t ht => ⟨i, ph, at_self (s := { s with accepted := s.accepted ++ [d.turnAt] }) ph h, ht⟩
  have chains : ∀ j x t, (({ s with accepted := s.accepted ++ [d.turnAt] } : State).goto i ph).at j x → x.chain = some t →
      j ≠ i ∧ s.at j x := by
    intro j x t hx hxc
    obtain ⟨rfl, rfl⟩ | ⟨hj, hx⟩ := at_goto hx
    · rw [silent.1] at hxc
      cases hxc
    · exact ⟨hj, hx⟩
  refine ⟨?_, ?_, ?_, ?_, ?_, ?_, ?_, ?_⟩
  · intro a b x y hx hy px py
    obtain ⟨rfl, -⟩ | ⟨hai, hx⟩ := at_goto hx
    · obtain ⟨rfl, -⟩ | ⟨hbi, hy⟩ := at_goto hy
      · rfl
      · rw [others b y hbi hy] at py
        cases py
    · rw [others a x hai hx] at px
      cases px
  · intro a b x y t hx hy px py
    exact hi.unique a b x y t (chains a x t hx px).2 (chains b y t hy py).2 px py
  · exact fun a x t hx px => hi.passed a x t (chains a x t hx px).2 px
  · exact fun a x t hx px => hi.paid a x t (chains a x t hx px).2 px
  · intro a x t hx px hm
    obtain ⟨hai, hx⟩ := chains a x t hx px
    obtain hm | hm := mem_append.mp hm
    · exact absurd (hi.fresh a x t hx px hm) (unanswered t)
    · obtain hc | hr := (adds t (mem_singleton.mp hm).symm).2
      · exact absurd (hi.unique a i x _ t hx h px hc) hai
      · exact recorded t hr
  · intro a x t hx px hm
    obtain ⟨rfl, rfl⟩ | ⟨hai, hx⟩ := at_goto hx
    · rw [silent.2] at px
      cases px
    · have := sending_of_asking px
      rw [others a x hai hx] at this
      cases this
  · intro t hm
    obtain hm | hm := mem_append.mp hm
    · exact .inl ((hi.settled t hm).resolve_right (unanswered t))
    · obtain hc | hr := (adds t (mem_singleton.mp hm).symm).2
      · exact .inl ⟨hi.passed i _ t h hc, hi.paid i _ t h hc⟩
      · exact .inr (recorded t hr)
  · intro t
    show (s.accepted ++ [d.turnAt]).count (some t) ≤ 1
    rw [count_append]
    by_cases ht : d.turnAt = some t
    · rw [List.count_eq_zero.mpr (adds t ht).1, ht]
      simp
    · have : [d.turnAt].count (some t) = 0 := by
        apply List.count_eq_zero.mpr
        intro hm
        exact ht (mem_singleton.mp hm).symm
      have := hi.once t
      omega

section Lands

variable {k : Write} {now : ℕ} {next : AntigravityGoalRecord}

/-- Every write of a visit but a refusal leaves nothing owed. -/
theorem Lands.clears (h : Lands last seen k now next) (hk : ∀ w, k ≠ .refused w) : ¬ owes next := by
  have pending := h.merged .pendingContinuation (by simp)
  have seen := h.owedSeen
  unfold owes
  rw [pending]
  have after : ∀ c : Copy, c.owedAfter ≠ some (.flag true) := by
    intro c
    unfold Copy.owedAfter
    split_ifs with ho
    · simp
    · exact ho
  cases k with
  | owedDone | superseded => simp [merge, Write.patch]
  | pausedForErrors w | strike w | achieved w v | budgetExhausted w v | unmet w v =>
    show last .pendingContinuation ≠ _
    rw [seen]
    exact after w.copy
  | refused w => exact absurd rfl (hk w)
  | control | resumed => exact h.ok.elim

/-- A write that records an acceptance puts the cursor at its turn, or found it there and the turn owed. -/
theorem Lands.answered (h : Lands last seen k now next) {t : ℕ} (ht : k.answered = some t) : t + 1 ≤ rank (cursor next) ∧
    (rank (cursor last) < t + 1 ∨ cursor last = some (.num t) ∧ owes last) := by
  have moved := h.cursor_eq
  cases k with
  | owedDone c turnAt =>
    have at_turn : cursor last = some (.num t) := h.cursorSeen.trans (h.ok.2 t ht)
    refine ⟨?_, .inr ⟨at_turn, h.owedSeen⟩⟩
    rw [show cursor next = some (.num t) from moved.trans at_turn]
    exact Nat.le_refl _
  | strike w =>
    have before := advances_lt h.ok h.cursorSeen ht
    refine ⟨?_, .inl before.1⟩
    cases ht
    rw [show cursor next = _ from moved]
    exact Nat.le_refl _
  | _ => cases ht

/-- The write of an unmet turn puts the cursor at it. -/
theorem Lands.chain (h : Lands last seen k now next) {t : ℕ} (ht : (Phase.wrote k).chain = some t) :
    rank (cursor last) < t + 1 ∧ t + 1 ≤ rank (cursor next) := by
  have moved := h.cursor_eq
  cases k with
  | unmet w v =>
    have before := advances_lt (t := t) h.ok h.cursorSeen ht
    cases ht
    refine ⟨before.1, ?_⟩
    rw [show cursor next = _ from moved]
    exact Nat.le_refl _
  | _ => cases ht

end Lands

theorem sendInv_land {k : Write} {p : Patch} {next : AntigravityGoalRecord} {n now : ℕ} (hi : SendInv s)
    (h : s.at i (.patchWrite k p next n)) (lands : Lands s.last (latest s.turn) k now next) :
    SendInv ((s.land k p next true).goto i (.wrote k)) := by
  have stays : ∀ j x, j ≠ i → s.at j x → ((s.land k p next true).goto i (.wrote k)).at j x :=
    fun j x hj hx => at_other (s := s.land k p next true) _ hj hx
  -- a visit that is to continue after this turn has passed it, and owes nothing
  have apart : ∀ j x t, s.at j x → x.chain = some t → k.answered ≠ some t := by
    intro j x t hx hc ha
    have past := hi.passed j x t hx hc
    obtain before | ⟨at_turn, owed⟩ := (lands.answered ha).2
    · omega
    · exact hi.paid j x t hx hc at_turn owed
  have settles : ∀ t, (∃ j qh, s.at j qh ∧ qh.answered = some t) → k.answered = some t ∨
      ∃ j qh, ((s.land k p next true).goto i (.wrote k)).at j qh ∧ qh.answered = some t := by
    rintro t ⟨j, qh, hj, hq⟩
    by_cases hji : j = i
    · subst hji
      cases h.symm.trans hj
      exact .inl hq
    · exact .inr ⟨j, qh, stays j qh hji hj, hq⟩
  have chainOf : ∀ w, k = .refused w → (Phase.patchWrite k p next n).chain = some w.turn.completedAt := by
    rintro w rfl
    rfl
  -- a refusal is of a turn that was not accepted
  have unaccepted : ∀ w, k = .refused w → some w.turn.completedAt ∉ s.accepted := by
    intro w hk hm
    obtain ⟨j, qh, hj, hq⟩ := hi.fresh i _ _ h (chainOf w hk) hm
    have same := hi.one j i qh _ hj h (sending_of_answered hq) (by rw [hk]; rfl)
    subst same
    cases h.symm.trans hj
    rw [hk] at hq
    cases hq
  have atRefused : ∀ w, k = .refused w → cursor next = some (.num w.turn.completedAt) := by
    intro w hk
    subst hk
    exact lands.cursor_eq.trans lands.cursorSeen
  refine ⟨?_, ?_, ?_, ?_, ?_, ?_, ?_, hi.once⟩
  · intro a b x y hx hy px py
    obtain ⟨rfl, rfl⟩ | ⟨-, hx⟩ := at_goto hx
    · cases px
    obtain ⟨rfl, rfl⟩ | ⟨-, hy⟩ := at_goto hy
    · cases py
    exact hi.one a b x y hx hy px py
  · intro a b x y t hx hy px py
    obtain ⟨rfl, rfl⟩ | ⟨-, hx'⟩ := at_goto hx
    · obtain ⟨rfl, -⟩ | ⟨-, hy'⟩ := at_goto hy
      · rfl
      · have := hi.passed b y t hy' py
        have := (lands.chain px).1
        omega
    · obtain ⟨rfl, rfl⟩ | ⟨-, hy'⟩ := at_goto hy
      · have := hi.passed a x t hx' px
        have := (lands.chain py).1
        omega
      · exact hi.unique a b x y t hx' hy' px py
  · intro a x t hx px
    obtain ⟨rfl, rfl⟩ | ⟨-, hx⟩ := at_goto hx
    · exact (lands.chain px).2
    · exact (hi.passed a x t hx px).trans lands.grows
  · intro a x t hx px hc
    by_cases hk : ∃ w, k = .refused w
    · obtain ⟨w, hk⟩ := hk
      obtain ⟨-, rfl⟩ | ⟨hai, hx⟩ := at_goto hx
      · rw [hk] at px
        cases px
      · -- the visit refused is the only one that was to continue after this turn
        cases (atRefused w hk).symm.trans hc
        exact absurd (hi.unique a i x _ _ hx h px (chainOf w hk)) hai
    · exact lands.clears fun w hw => hk ⟨w, hw⟩
  · intro a x t hx px hm
    obtain ⟨rfl, rfl⟩ | ⟨-, hx⟩ := at_goto hx
    · obtain ⟨past, -⟩ | answered := hi.settled t hm
      · have := (lands.chain px).1
        omega
      · refine (settles t answered).resolve_left fun ha => ?_
        cases k with
        | unmet w v => cases ha
        | _ => cases px
    · exact (settles t (hi.fresh a x t hx px hm)).resolve_left (apart a x t hx px)
  · intro a x t hx px
    obtain ⟨rfl, rfl⟩ | ⟨-, hx⟩ := at_goto hx
    · cases px
    · exact hi.asking a x t hx px
  · intro t hm
    have clear : cursor next = some (.num t) → ¬ owes next := by
      intro hc
      apply lands.clears
      intro w hk
      cases (atRefused w hk).symm.trans hc
      exact unaccepted w hk hm
    obtain ⟨past, -⟩ | answered := hi.settled t hm
    · exact .inl ⟨past.trans lands.grows, clear⟩
    · exact (settles t answered).imp_left fun ha => ⟨(lands.answered ha).1, clear⟩

theorem sendInv_advance {ph : Phase} (hf : FileInv s) (hi : CountInv s) (hs : SendInv s) (h : s.at i ph)
    (a : Answers) (hu : Unchanged s ph) : SendInv (advance s i ph a) := by
  have hok := hi.phases i ph h
  cases hq : ph.isQuiet with
  | true =>
    obtain ⟨ph', he, hm⟩ | ⟨d, ph', rfl, ha, he⟩ := visit_cases hq hok a
    · rw [he]
      obtain ⟨answered, chain, ⟨asking, sending⟩ | ⟨d, fresh, rfl, rfl, armed, idle⟩⟩ := moves_silent hm
      · exact hs.goto h sending chain (answered.trans (answered_of_quiet hq).symm) asking
      · obtain ⟨alone, hc, ho⟩ := hu armed idle
        exact sendInv_asks hs h hok alone hc ho
    · rw [he]
      exact sendInv_accepts hs h ha
  | false =>
    cases ph with
    | record => exact hs.goto h nofun nofun rfl rfl
    | patchRead k p =>
      refine hs.goto h (fun h => h) (fun t ht => ?_) rfl rfl
      cases k with
      | refused w => exact ht
      | _ => cases ht
    | patchTruncate k p next =>
      have hs : SendInv { s with file := .torn, truncations := s.truncations + 1 } := hs.frame rfl rfl rfl
      have before : ({ s with file := .torn, truncations := s.truncations + 1 } : State).at i (.patchTruncate k p next) := h
      refine hs.goto before (fun h => h) (fun t ht => ?_) rfl rfl
      cases k with
      | refused w => exact ht
      | _ => cases ht
    | patchWrite k p next n =>
      rw [(fileInv_patchWrite hf h a).2]
      obtain ⟨-, now, -, lands⟩ := lands_of hf hi h hu
      exact sendInv_land hs h lands
    | _ => cases hq

/-- A sweep comes. -/
theorem sendInv_sweep (hi : SendInv s) : SendInv { s with procs := s.procs ++ [.record] } := by
  have stays : ∀ j x, s.at j x → ({ s with procs := s.procs ++ [.record] } : State).at j x := by
    intro j x hx
    exact InFlight.append_left _ hx
  have old : ∀ j x, ({ s with procs := s.procs ++ [.record] } : State).at j x →
      (x.sending = true ∨ x.chain.isSome = true ∨ x.asking.isSome = true) → s.at j x := by
    intro j x hx hp
    obtain hx | rfl := at_append hx
    · exact hx
    · obtain hp | hp | hp := hp <;> cases hp
  have keeps : ∀ t, (∃ j qh, s.at j qh ∧ qh.answered = some t) →
      ∃ j qh, ({ s with procs := s.procs ++ [.record] } : State).at j qh ∧ qh.answered = some t := by
    rintro t ⟨j, qh, hj, hq⟩
    exact ⟨j, qh, stays j qh hj, hq⟩
  have chained : ∀ {x : Phase} {t : ℕ}, x.chain = some t → x.sending = true ∨ x.chain.isSome = true ∨ x.asking.isSome = true := by
    intro x t hx
    rw [hx]
    exact .inr (.inl rfl)
  refine ⟨?_, ?_, ?_, ?_, ?_, ?_, ?_, hi.once⟩
  · exact fun a b x y hx hy px py => hi.one a b x y (old a x hx (.inl px)) (old b y hy (.inl py)) px py
  · exact fun a b x y t hx hy px py => hi.unique a b x y t (old a x hx (chained px)) (old b y hy (chained py)) px py
  · exact fun a x t hx px => hi.passed a x t (old a x hx (chained px)) px
  · exact fun a x t hx px => hi.paid a x t (old a x hx (chained px)) px
  · exact fun a x t hx px hm => keeps t (hi.fresh a x t (old a x hx (chained px)) px hm)
  · exact fun a x t hx px => hi.asking a x t (old a x hx (.inl (sending_of_asking px))) px
  · exact fun t hm => (hi.settled t hm).imp_right (keeps t)

theorem sendInv_step (s : State) (e : Step) (hf : FileInv s) (hi : CountInv s) (hs : SendInv s) (hc : Alone s e) :
    SendInv (step s e) := by
  cases e with
  | tick ms | runningChanges running | turnCompletes t => exact hs.frame rfl rfl rfl
  | sweep => exact sendInv_sweep hs
  | control request => exact hc.2.1.elim
  | proc i a =>
    simp only [step]
    split
    · rename_i ph h
      exact sendInv_advance hf hi hs h a (hc.2.2 ph h)
    · exact hs
  | fails i =>
    simp only [step]
    split
    · rename_i ph h
      split_ifs with hm
      · refine hs.goto h (fun h => by cases h) (fun _ h => by cases h) ?_ rfl
        cases ph <;> first | rfl | cases hm
      · exact hs
    · exact hs

/-! ## Once -/

structure TurnInv (s : State) : Prop where
  file : FileInv s
  count : CountInv s
  send : SendInv s

theorem turnInv_step (s : State) (e : Step) (hi : TurnInv s) (hc : Alone s e) : TurnInv (step s e) where
  file := fileInv_step s e hi.file hc.1
  count := countInv_step s e hi.file hi.count hc
  send := sendInv_step s e hi.file hi.count hi.send hc

theorem turnInv_start {r : AntigravityGoalRecord} {turn : Option AgyCompletedTurn} (hr : Sound r turn) (now : ℕ) :
    TurnInv (.start (some r) turn now) where
  file := fileInv_start _ _ _
  count := {
    phases := fun i ph h => (by cases h)
    budget := hr.budget
    cursorOk := hr.cursor
    seen := hr.seen
    counted := fun l hl => (by cases hl)
    errors := fun l hl => (by cases hl)
    gained := fun t => Nat.zero_le 1
    struck := fun t => Nat.zero_le 1 }
  send := {
    one := fun i j ph qh h => (by cases h)
    unique := fun i j ph qh t h => (by cases h)
    passed := fun i ph t h => (by cases h)
    paid := fun i ph t h => (by cases h)
    fresh := fun i ph t h => (by cases h)
    asking := fun i ph t h => (by cases h)
    settled := fun t h => (by cases h)
    once := fun t => Nat.zero_le 1 }

/-- Each turn has counted at most one run (a failed one none) and at most one strike, at most one
    continuation was accepted for it, and the runs are within the budget. -/
structure AdvancedOnce (s : State) : Prop where
  gained : ∀ t, s.gained t ≤ 1
  errors : ∀ l ∈ s.landed, l.isError = true → l.gain = 0
  struck : ∀ t, s.struck t ≤ 1
  dispatched : ∀ t, s.dispatched t ≤ 1
  budget : ∃ n m, s.last .runs = some (.num n) ∧ s.last .maxRuns = some (.num m) ∧ n ≤ m

/-- In every run of overlapping sweeps and completing turns that writes and sends on what it last saw. -/
theorem each_turn_advances_once (r : AntigravityGoalRecord) (turn : Option AgyCompletedTurn) (now : ℕ) (hr : Sound r turn)
    (es : List Step) (h : Run.Along step Alone (.start (some r) turn now) es) :
    AdvancedOnce (es.foldl step (.start (some r) turn now)) := by
  have hi : TurnInv (es.foldl step (.start (some r) turn now)) := Run.invariant turnInv_step (turnInv_start hr now) h
  obtain ⟨n, m, hn, hm, hle, -⟩ := hi.count.budget
  exact ⟨hi.count.gained, hi.count.errors, hi.count.struck, hi.send.once, n, m, hn, hm, hle⟩

/-- A visit counts the first turn and continues; a second finds nothing new. -/
def oneByOne : List Step := .sweep :: procSteps 0 13 {} ++ .sweep :: procSteps 1 4 {}

theorem sampleGoal_sound : Sound runningGoal (some firstTurn) where
  budget := ⟨0, 100, rfl, rfl, by omega, fun _ => by omega⟩
  cursor := .inl rfl
  seen := by decide

theorem one_by_one : (oneByOne.foldl step sampleGoal).gained 5 = 1 ∧ (oneByOne.foldl step sampleGoal).dispatched 5 = 1 ∧
    AdvancedOnce (oneByOne.foldl step sampleGoal) :=
  ⟨by decide +kernel, by decide +kernel,
   each_turn_advances_once runningGoal (some firstTurn) 6 sampleGoal_sound oneByOne (by decide +kernel)⟩

/-- Two visits, each a step behind the other. -/
def sideBySide : List Step :=
  .sweep :: .sweep :: (List.replicate 13 [Step.proc 0 {}, Step.proc 1 {}]).flatten

/-- The turn is sent on twice. -/
theorem sent_on_twice : ¬ AdvancedOnce (sideBySide.foldl step sampleGoal) := by
  intro h
  have twice : (sideBySide.foldl step sampleGoal).dispatched 5 = 2 := by decide +kernel
  have once := h.dispatched 5
  omega

end PiWebUi.Goal.Antigravity
