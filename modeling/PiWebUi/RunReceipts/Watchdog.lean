/-
  PiWebUi.RunReceipts.Watchdog — a run is announced once, by the pass that finished it.

  In every run whose steps are `Watched` each run has one announcement at most, its callbacks
  are called once, and the pass that announces it has itself moved the receipt to `failed`
  with that error code (`announced_once`). A pass whose `finish` takes the lock of a receipt
  that is already terminal with the error code it asks for is not: it takes another's
  decision for its own, and `overlapping_passes` is two passes of the timer that announce one
  run twice.
-/

import Mathlib.Data.List.Perm.Subperm
import PiWebUi.RunReceipts.RunOrder

namespace PiWebUi.RunReceipts

open Lib List Option

inductive Callback where
  | onStalled (run : ℕ)
  | onRunNeverStarted (run : ℕ)
  | neverStartedListener (i run : ℕ)
  deriving DecidableEq

def Callback.run : Callback → ℕ
  | .onStalled run | .onRunNeverStarted run | .neverStartedListener _ run => run

def Announcement.calls (a : Announcement) : List Callback :=
  if a.errorCode = NEVER_STARTED then .onRunNeverStarted a.run :: (List.range a.listeners).map (.neverStartedListener · a.run)
  else [.onStalled a.run]

namespace RunReceiptManager

/-- What is claimed of the watchdog. -/
structure AnnouncedOnce (s : RunReceiptManager) : Prop where
  once : ∀ run, (s.announcements.filter (·.run = run)).length ≤ 1
  calls : (s.announcements.flatMap (·.calls)).Nodup
  counted : s.stalledRunCount = (s.announcements.filter (·.errorCode ≠ NEVER_STARTED)).length
  moved : ∀ a ∈ s.announcements, (a.pass, .failed, some a.errorCode) ∈ (s.cells a.run).moved

end RunReceiptManager

/-- The lock is not taken by a pass for a receipt that is terminal with the code it asks for. -/
def RunCell.TakesOwn (s : RunCell) : Prop :=
  ∀ t ∈ s.runLock.head?, t.phase = .waiting → t.pass ≠ none → ∀ x ∈ s.receipt, isTerminal x.status = true →
    ∀ answer ∈ RunCell.answerOf t (some x), x.errorCode ≠ answer.errorCode

def RunCell.Watched (s : RunCell) (e : RunEvent) : Prop :=
  RunCell.Managed e ∧ ((∃ now captured, e = .acquire now captured) → s.TakesOwn)

instance RunCell.TakesOwn.decidable (s : RunCell) : Decidable s.TakesOwn :=
  inferInstanceAs (Decidable (∀ t ∈ s.runLock.head?, t.phase = .waiting → t.pass ≠ none → ∀ x ∈ s.receipt, isTerminal x.status = true →
    ∀ answer ∈ RunCell.answerOf t (some x), x.errorCode ≠ answer.errorCode))

instance RunCell.Watched.decidable (s : RunCell) : (e : RunEvent) → Decidable (s.Watched e)
  | .acquire now captured => decidable_of_iff s.TakesOwn ⟨fun h => ⟨trivial, fun _ => h⟩, fun h => h.2 ⟨now, captured, rfl⟩⟩
  | .unlock _ (.store call) => isFalse fun h => h.1 call rfl
  | .unlock _ .reconcile | .unlock _ .confirm => isTrue ⟨fun _ h => (by cases h), fun ⟨_, _, h⟩ => (by cases h)⟩
  | .beginRun _ _ | .createRename | .createSettle _ | .createPruned _ | .observe _ _ | .attachLease _ | .issue _ | .begin _ _ | .rename
  | .settle _ | .pruned _ _ _ | .unlockedBegin _ _ _ | .unlockedRename _ | .unlockedSettle _ _ | .drained | .drainTimeout | .delete | .unlink =>
    isTrue ⟨trivial, fun ⟨_, _, h⟩ => (by cases h)⟩

namespace RunReceiptManager

def Watched (s : RunReceiptManager) : ManagerEvent → Prop
  | .run run event => (s.cells run).Watched event
  | _ => True

instance Watched.decidable (s : RunReceiptManager) : (e : ManagerEvent) → Decidable (s.Watched e)
  | .run run event => inferInstanceAs (Decidable ((s.cells run).Watched event))
  | .addNeverStartedListener | .tick _ | .visit _ | .reach _ | .resume _ _ | .restart _ _ _ => isTrue trivial

end RunReceiptManager

/-! ## Who asks -/

/-- A pass asks for a failed run. -/
def Task.Asks (t : Task) : Prop := t.pass ≠ none → ∃ outcome, t.op = .finish outcome ∧ outcome.finishStatus = .failed

namespace RunCell

def Asked (s : RunCell) : Prop := ∀ t ∈ s.runLock, t.Asks

variable {s : RunCell}

theorem asked_of_sub {s' : RunCell} (h : s.Asked) (hsub : ∀ t ∈ s'.runLock, t ∈ s.runLock) : s'.Asked := fun t ht => h t (hsub t ht)

theorem asked_complete (h : s.Asked) (task : Task) (receipt : Option PersistedRunReceipt) : (s.complete task receipt).Asked :=
  asked_of_sub h fun _ ht => mem_of_mem_tail ht

theorem asked_reject (h : s.Asked) (task : Task) : (s.reject task).Asked := by
  unfold reject
  split
  · exact asked_of_sub h fun _ ht => mem_of_mem_tail ht
  · exact asked_complete h task none

theorem asked_setPhase (h : s.Asked) {task : Task} (ht : task ∈ s.runLock) (phase : Phase) : (s.setPhase task phase).Asked := by
  intro t ht'
  rcases mem_cons.mp ht' with rfl | ht'
  · exact h task ht
  · exact h t (mem_of_mem_tail ht')

theorem asked_call (h : s.Asked) {task : Task} (ht : task ∈ s.runLock) (call : StoreCall) (after : After) :
    (s.call task call after).Asked := asked_setPhase h ht _

theorem asked_enqueue (h : s.Asked) (op : RunOp) {pass : Option ℕ} (hasks : (⟨op, pass, .waiting⟩ : Task).Asks) :
    (s.enqueue op pass).Asked := by
  exact forall_mem_append.mpr ⟨h, forall_mem_singleton.mpr hasks⟩

theorem asks_none (op : RunOp) (phase : Phase) : (⟨op, none, phase⟩ : Task).Asks := fun h => absurd rfl h

@[simp] theorem runLock_markActive (s : RunCell) (startedAtMs : ℤ) : (s.markActive startedAtMs).runLock = s.runLock := by
  unfold markActive
  split <;> rfl

variable (c : RunReceiptManagerConfig)

@[simp] theorem runLock_terminalize (s : RunCell) (record : PersistedRunReceipt) : (s.terminalize c record).runLock = s.runLock := by
  unfold terminalize
  dsimp only
  split
  · rfl
  split
  · rfl
  split <;> rfl

theorem asked_observeEvent (h : s.Asked) (now : ℤ) (e : ObservedEvent) : (s.observeEvent now e).Asked := by
  have hactive : ∀ a, ({ s with active := a } : RunCell).Asked := fun _ => asked_of_sub h fun _ ht => ht
  unfold observeEvent
  dsimp only
  split
  · split
    · exact asked_enqueue (hactive _) _ (asks_none _ _)
    split
    · exact asked_enqueue (hactive _) _ (asks_none _ _)
    · exact hactive _
  · split
    · exact asked_enqueue h _ (asks_none _ _)
    · exact h

theorem asked_acquireOp (h : s.Asked) (now : ℤ) (captured : Captured) {task : Task} (ht : task ∈ s.runLock) :
    (s.acquireOp c now captured task).Asked := by
  unfold acquireOp
  repeat' split
  all_goals first | exact asked_call h ht _ _ | exact asked_complete h _ _

theorem asked_goOn (h : s.Asked) (now : ℤ) (captured : Captured) {task : Task} (ht : task ∈ s.runLock) (after : After)
    (written : PersistedRunReceipt) : (s.goOn c now captured task after written).Asked := by
  have hmark : ∀ n, (s.markActive n).Asked := fun n => asked_of_sub h fun _ ht => by rwa [runLock_markActive] at ht
  cases after with
  | done => exact asked_complete h _ _
  | markedStarted startedAtMs => exact asked_complete (hmark _) _ _
  | startedThenFinish startedAtMs =>
    simp only [goOn]
    split
    · exact asked_call (hmark _) (by rwa [runLock_markActive]) _ _
    · exact asked_complete (hmark _) _ _
  | terminalize => exact asked_complete (asked_of_sub h fun _ ht => by rwa [runLock_terminalize] at ht) _ _

/-- The events that leave the lock's operations alone. -/
def Aside : RunEvent → Prop
  | .issue _ | .observe _ _ | .acquire _ _ | .begin _ _ | .rename | .settle _ | .pruned _ _ _ => False
  | _ => True

structure SameQueue (s s' : RunCell) : Prop where
  lock : s'.runLock = s.runLock
  answers : s'.answers = s.answers
  moved : s'.moved = s.moved

theorem sameQueue_finishDrain (s : RunCell) : SameQueue s s.finishDrain := by
  unfold finishDrain
  split <;> exact ⟨rfl, rfl, rfl⟩

theorem sameQueue_answerUnlocked (s : RunCell) (i : ℕ) (op : UnlockedOp) (result : Option PersistedRunReceipt) :
    SameQueue s (s.answerUnlocked i op result) := by
  have hdrain := sameQueue_finishDrain { s with unlocked := s.unlocked.eraseIdx i }
  unfold answerUnlocked
  dsimp only
  split
  · exact ⟨hdrain.lock, hdrain.answers, hdrain.moved⟩
  · split
    · exact ⟨hdrain.lock, hdrain.answers, hdrain.moved⟩
    · exact ⟨rfl, rfl, rfl⟩
  · exact ⟨rfl, rfl, rfl⟩

theorem sameQueue_step (s : RunCell) {e : RunEvent} (h : Aside e) : SameQueue s (s.step c e) := by
  cases e with
  | unlock now op =>
    simp only [step, unlock]
    repeat' split
    all_goals exact ⟨rfl, rfl, rfl⟩
  | unlockedBegin i now valid =>
    simp only [step, unlockedBegin]
    repeat' split
    all_goals first | exact ⟨rfl, rfl, rfl⟩ | exact sameQueue_answerUnlocked s i _ _
  | unlockedRename i =>
    simp only [step, unlockedRename]
    split <;> exact ⟨rfl, rfl, rfl⟩
  | unlockedSettle i ok =>
    simp only [step, unlockedSettle]
    split
    · next op read next renamed hi =>
      split
      · have ha := sameQueue_answerUnlocked { s with file := some next, receipt := some next } i op (some next)
        exact ⟨ha.lock, ha.answers, ha.moved⟩
      · split
        · exact ⟨rfl, rfl, rfl⟩
        · exact sameQueue_answerUnlocked s i op none
    · exact ⟨rfl, rfl, rfl⟩
  | drained => exact sameQueue_finishDrain s
  | drainTimeout => exact ⟨rfl, rfl, rfl⟩
  | beginRun now key =>
    simp only [step, beginRun]
    split <;> exact ⟨rfl, rfl, rfl⟩
  | createRename =>
    simp only [step, createRename]
    split <;> exact ⟨rfl, rfl, rfl⟩
  | createSettle ok =>
    simp only [step, createSettle]
    repeat' split
    all_goals exact ⟨rfl, rfl, rfl⟩
  | createPruned ok =>
    simp only [step, createPruned]
    repeat' split
    all_goals exact ⟨rfl, rfl, rfl⟩
  | attachLease lease =>
    simp only [step, attachLease]
    split <;> exact ⟨rfl, rfl, rfl⟩
  | delete =>
    simp only [step, delete]
    split <;> exact ⟨rfl, rfl, rfl⟩
  | unlink =>
    simp only [step, unlink]
    split <;> exact ⟨rfl, rfl, rfl⟩
  | _ => exact h.elim

theorem asked_step (h : s.Asked) (e : RunEvent) : (s.step c e).Asked := by
  have hsame : ∀ s' : RunCell, s'.runLock = s.runLock → s'.Asked := fun s' hl => asked_of_sub h fun _ ht => hl ▸ ht
  by_cases ha : Aside e
  · exact hsame _ (sameQueue_step c s ha).lock
  cases e with
  | issue op => exact asked_enqueue h op (asks_none _ _)
  | observe now event => exact asked_observeEvent h now event
  | acquire now captured =>
    simp only [step, acquire]
    split
    · next task rest hl =>
      split
      · exact asked_acquireOp c h now captured (hl ▸ mem_cons_self)
      · exact h
    · exact h
  | begin now valid =>
    simp only [step, begin]
    split
    · next task rest hl =>
      have ht : task ∈ s.runLock := hl ▸ mem_cons_self
      repeat' split
      all_goals first | exact h | exact asked_setPhase h ht _ | exact asked_reject h _ | exact asked_complete h _ _
    · exact h
  | rename =>
    simp only [step, rename]
    split
    · next task rest hl =>
      split
      · exact asked_setPhase (hsame { s with file := _ } rfl) (hl ▸ mem_cons_self) _
      · exact h
    · exact h
  | settle ok =>
    simp only [step, settle]
    split
    · next task rest hl =>
      have ht : task ∈ s.runLock := hl ▸ mem_cons_self
      split
      · split
        · split
          · apply asked_setPhase
            · exact hsame _ rfl
            · exact ht
          · apply asked_complete
            exact hsame _ rfl
        · split
          · exact h
          · exact asked_reject h _
      · exact h
    · exact h
  | pruned ok now captured =>
    simp only [step, pruned]
    split
    · next task rest hl =>
      split
      · split
        · exact asked_goOn c h now captured (hl ▸ mem_cons_self) _ _
        · exact asked_reject h _
      · exact h
    · exact h
  | _ => exact absurd trivial ha

end RunCell

/-! ## What is promised -/

/-- The pass that gets this answer announces the run. -/
def Answer.counts (a : Answer) : Bool := a.errorCode.isSome && a.receipt.bind (·.errorCode) = a.errorCode

def Answer.move (a : Answer) : ℕ × RunReceiptStatus × Option JsString := (a.pass, .failed, a.errorCode)

theorem counts_none (pass : ℕ) (errorCode : Option JsString) : Answer.counts ⟨pass, errorCode, none⟩ = false := by
  cases errorCode <;> rfl

/-- The move of an operation that is pruning. -/
def Task.pending (t : Task) : List (ℕ × RunReceiptStatus × Option JsString) :=
  match t.phase with
  | .pruning _ after => RunCell.moveOf t after
  | _ => []

namespace RunCell

def pending (s : RunCell) : List (ℕ × RunReceiptStatus × Option JsString) := s.runLock.head?.elim [] Task.pending

/-- The announcements that the run's answers will be. -/
def owed (answers : List Answer) : List (ℕ × RunReceiptStatus × Option JsString) := (answers.filter (·.counts)).map (·.move)

def promised (s : RunCell) : List (ℕ × RunReceiptStatus × Option JsString) := owed s.answers ++ s.pending

/-- A step promises what it moves, and nothing else. -/
def Tells (s s' : RunCell) : Prop := ∃ new, s'.moved = s.moved ++ new ∧ s'.promised.Subperm (s.promised ++ new)

theorem owed_append (l l' : List Answer) : owed (l ++ l') = owed l ++ owed l' := by
  rw [owed, filter_append, map_append]
  rfl

theorem owed_answerOf_none (task : Task) : owed (answerOf task none) = [] := by
  unfold answerOf
  split
  · rw [owed, filter_cons_of_neg (by rw [counts_none]; exact Bool.false_ne_true)]
    rfl
  · rfl

variable {task : Task} {s : RunCell}

theorem answerOf_of_not_finish (h : ∀ outcome, task.op ≠ .finish outcome) (receipt : Option PersistedRunReceipt) :
    answerOf task receipt = [] := by
  unfold answerOf
  split
  · next outcome _ hop => exact absurd hop (h outcome)
  · rfl

theorem moveOf_of_not_finish (h : ∀ outcome, task.op ≠ .finish outcome) (after : After) : moveOf task after = [] := by
  unfold moveOf
  split
  · next outcome _ hop => exact absurd hop (h outcome)
  · rfl

theorem pending_of_phase {rest : List Task} (hl : s.runLock = task :: rest)
    (h : ∀ written after, task.phase ≠ .pruning written after) : s.pending = [] := by
  rw [pending, hl]
  show task.pending = []
  unfold Task.pending
  split
  · next hp => exact absurd hp (h _ _)
  · rfl

theorem pending_of_waiting (h : ∀ t ∈ s.runLock.head?, t.phase = .waiting) : s.pending = [] := by
  cases hl : s.runLock with
  | nil =>
    rw [pending, hl]
    rfl
  | cons task rest =>
    refine pending_of_phase hl fun written after hp => ?_
    rw [h task (by rw [hl]; rfl)] at hp
    cases hp

theorem Tells.refl (s : RunCell) : Tells s s := ⟨[], (append_nil _).symm, by rw [append_nil]⟩

theorem Tells.trans {s' s'' : RunCell} (h : Tells s s') (h' : Tells s' s'') : Tells s s'' := by
  obtain ⟨new, hm, hp⟩ := h
  obtain ⟨new', hm', hp'⟩ := h'
  refine ⟨new ++ new', by rw [hm', hm, append_assoc], hp'.trans ?_⟩
  rw [← append_assoc]
  exact (subperm_append_right new').mpr hp

/-- The queue, the answers and the moves are what they were. -/
theorem tells_same {s' : RunCell} (hlock : s'.runLock = s.runLock) (hanswers : s'.answers = s.answers) (hmoved : s'.moved = s.moved) :
    Tells s s' := by
  refine ⟨[], by rw [hmoved, append_nil], ?_⟩
  rw [append_nil, promised, promised, pending, pending, hlock, hanswers]

/-- Only the queue moves, and its head is not being pruned. -/
theorem tells_queue {s' : RunCell} (hanswers : s'.answers = s.answers) (hmoved : s'.moved = s.moved) (hp : s'.pending = []) : Tells s s' := by
  refine ⟨[], by rw [hmoved, append_nil], ?_⟩
  rw [append_nil, promised, promised, hanswers, hp, append_nil]
  exact (sublist_append_left _ _).subperm

theorem tells_setPhase (task : Task) {phase : Phase} (h : ∀ written after, phase ≠ .pruning written after) :
    Tells s (s.setPhase task phase) := tells_queue rfl rfl (pending_of_phase rfl h)

theorem tells_call (s : RunCell) (task : Task) (call : StoreCall) (after : After) : Tells s (s.call task call after) :=
  tells_setPhase task fun _ _ h => (by cases h)

theorem tells_enqueue (s : RunCell) (op : RunOp) (pass : Option ℕ) : Tells s (s.enqueue op pass) := by
  cases hl : s.runLock with
  | nil =>
    refine tells_queue rfl rfl (pending_of_waiting fun t ht => ?_)
    rw [enqueue, hl] at ht
    cases some.inj ht
    rfl
  | cons task rest =>
    refine ⟨[], (append_nil _).symm, ?_⟩
    rw [append_nil, promised, promised, pending, pending, enqueue, hl]
    rfl

section

variable (htail : ∀ t ∈ s.runLock.tail, t.phase = .waiting)
include htail

theorem tells_complete (task : Task) {receipt : Option PersistedRunReceipt}
    (h : (owed (answerOf task receipt)).Subperm s.pending) : Tells s (s.complete task receipt) := by
  refine ⟨[], (append_nil _).symm, ?_⟩
  have hp : (s.complete task receipt).pending = [] := pending_of_waiting fun t ht => htail t (mem_of_mem_head? ht)
  rw [append_nil, promised, promised, hp, append_nil]
  show (owed (s.answers ++ answerOf task receipt)).Subperm _
  rw [owed_append]
  exact (subperm_append_left _).mpr h

theorem tells_complete_nil
    {receipt : Option PersistedRunReceipt} (h : owed (answerOf task receipt) = []) : Tells s (s.complete task receipt) :=
  tells_complete htail task (by rw [h]; exact nil_subperm)

theorem tells_complete_op
    (h : ∀ outcome, task.op ≠ .finish outcome) (receipt : Option PersistedRunReceipt) : Tells s (s.complete task receipt) :=
  tells_complete_nil htail (by rw [answerOf_of_not_finish h]; rfl)

theorem tells_reject (task : Task) : Tells s (s.reject task) := by
  unfold reject
  split
  · refine (tells_same (s := s) rfl rfl rfl).trans (tells_complete_nil ?_ (owed_answerOf_none task))
    exact htail
  · exact tells_complete_nil htail (owed_answerOf_none task)

end

variable (c : RunReceiptManagerConfig)

theorem tells_acquireOp (h : s.Orderly) (hown : s.TakesOwn) (now : ℤ) (captured : Captured) {rest : List Task}
    (hl : s.runLock = task :: rest) (hw : task.phase = .waiting) : Tells s (s.acquireOp c now captured task) := by
  unfold acquireOp
  split
  · exact tells_call ..
  · exact tells_call ..
  · exact tells_call ..
  · next hop =>
    have hn : ∀ outcome, task.op ≠ .finish outcome := fun outcome ho => (by rw [hop] at ho; cases ho)
    split
    · exact tells_complete_op h.tail hn none
    · split
      · exact tells_complete_op h.tail hn _
      · exact tells_call ..
  · next hop =>
    have hn : ∀ outcome, task.op ≠ .finish outcome := fun outcome ho => (by rw [hop] at ho; cases ho)
    split
    · exact tells_complete_op h.tail hn none
    split
    · exact tells_complete_op h.tail hn none
    split
    · exact tells_complete_op h.tail hn none
    · exact tells_call ..
  · exact tells_call ..
  · next outcome hop =>
    split
    · exact tells_complete_nil h.tail (owed_answerOf_none task)
    next current hr =>
    split
    · next ht =>
      refine tells_complete_nil h.tail ?_
      rw [owed, filter_eq_nil_iff.mpr, map_nil]
      intro answer ha hcounts
      rw [Answer.counts, Bool.and_eq_true] at hcounts
      have hpass : task.pass ≠ none := by
        intro hp
        rw [answerOf, hp] at ha
        cases ha
      have hreceipt : answer.receipt = some current := by
        unfold answerOf at ha
        split at ha
        · cases mem_singleton.mp ha
          rfl
        · cases ha
      have heq := of_decide_eq_true hcounts.2
      rw [hreceipt] at heq
      exact hown task (by rw [hl]; rfl) hw hpass current hr ht answer ha heq
    split <;> exact tells_call ..
  · next hop =>
    have hn : ∀ outcome, task.op ≠ .finish outcome := fun outcome ho => (by rw [hop] at ho; cases ho)
    split
    · exact tells_complete_op h.tail hn none
    split <;> exact tells_call ..

theorem tells_goOn (h : s.Orderly) (hasks : s.Asked) (now : ℤ) (captured : Captured) {rest : List Task}
    (hl : s.runLock = task :: rest) {written : PersistedRunReceipt} {after : After} (hp : task.phase = .pruning written after) :
    Tells s (s.goOn c now captured task after written) := by
  have hfits := h.head task (by rw [hl]; rfl)
  rw [HeadFits, hp] at hfits
  have hmark : ∀ n, Tells s (s.markActive n) := by
    intro n
    unfold markActive
    split
    · exact tells_same rfl rfl rfl
    · exact Tells.refl s
  have hmarkTail : ∀ n, ∀ t ∈ (s.markActive n).runLock.tail, t.phase = .waiting := fun n => (by rw [runLock_markActive]; exact h.tail)
  cases after with
  | done =>
    refine tells_complete_op h.tail (fun outcome ho => ?_) _
    rcases hfits.finishes outcome ho with ha | ⟨n, ha⟩ <;> cases ha
  | markedStarted startedAtMs =>
    refine (hmark startedAtMs).trans (tells_complete_op (hmarkTail _) (fun outcome ho => ?_) _)
    rcases hfits.finishes outcome ho with ha | ⟨n, ha⟩ <;> cases ha
  | startedThenFinish startedAtMs =>
    simp only [goOn]
    split
    · exact (hmark startedAtMs).trans (tells_call ..)
    · exact (hmark startedAtMs).trans (tells_complete_nil (hmarkTail _) (owed_answerOf_none task))
  | terminalize =>
    have hterm : (s.terminalize c written).runLock = s.runLock := runLock_terminalize c s written
    have hsame : Tells s (s.terminalize c written) := by
      unfold terminalize
      dsimp only
      split
      · exact Tells.refl s
      split
      · exact tells_same rfl rfl rfl
      split <;> exact tells_same rfl rfl rfl
    refine hsame.trans (tells_complete ?_ task ?_)
    · rw [hterm]
      exact h.tail
    · -- the receipt it gives is what it has written, and its move is pending
      have hpending : (s.terminalize c written).pending = moveOf task .terminalize := by
        rw [pending, hterm, hl]
        show task.pending = _
        rw [Task.pending, hp]
      rw [hpending]
      unfold answerOf moveOf
      split
      · next pass outcome hpass hop =>
        simp only [hpass, hop]
        obtain ⟨outcome', ho, hfailed⟩ := hasks task (hl ▸ mem_cons_self) (by rw [hpass]; exact some_ne_none _)
        cases hop.symm.trans ho
        rw [hfailed]
        exact (filter_sublist.map _).subperm
      · exact nil_subperm

theorem tells_step (h : s.Orderly) (hasks : s.Asked) {e : RunEvent} (hw : s.Watched e) : Tells s (s.step c e) := by
  by_cases ha : Aside e
  · have hsame := sameQueue_step c s ha
    exact tells_same hsame.lock hsame.answers hsame.moved
  cases e with
  | issue op => exact tells_enqueue ..
  | observe now event =>
    simp only [step, observeEvent]
    have hactive : ∀ a, Tells s { s with active := a } := fun a => tells_same rfl rfl rfl
    split
    · split
      · exact (hactive _).trans (tells_enqueue ..)
      split
      · exact (hactive _).trans (tells_enqueue ..)
      · exact hactive _
    · split
      · exact tells_enqueue ..
      · exact Tells.refl s
  | acquire now captured =>
    simp only [step, acquire]
    split
    · next task rest hl =>
      split
      · next hp => exact tells_acquireOp c h (hw.2 ⟨now, captured, rfl⟩) now captured hl hp
      · exact Tells.refl s
    · exact Tells.refl s
  | begin now valid =>
    simp only [step, begin]
    split
    swap
    · exact Tells.refl s
    next task rest hl =>
    split
    swap
    · exact Tells.refl s
    next call after hp =>
    have hfits := h.head task (by rw [hl]; rfl)
    rw [HeadFits, hp] at hfits
    split
    · split
      · exact tells_setPhase task fun _ _ hp => (by cases hp)
      · exact tells_reject h.tail task
    · exact Tells.refl s
    · next receipt hreturns =>
      -- a transition never returns
      refine tells_complete_op h.tail (fun outcome ho => ?_) _
      have hprunes := (hfits.finishes outcome ho).1
      cases call with
      | transition status patch =>
        simp only [StoreCall.start] at hreturns
        split at hreturns
        · cases hreturns
        · split at hreturns <;> cases hreturns
      | _ => cases hprunes
    · exact tells_reject h.tail task
  | rename =>
    simp only [step, rename]
    split
    · split
      · exact (tells_same (s := s) rfl rfl rfl).trans (tells_setPhase _ fun _ _ hp => (by cases hp))
      · exact Tells.refl s
    · exact Tells.refl s
  | settle ok =>
    simp only [step, settle]
    split
    swap
    · exact Tells.refl s
    next task rest hl =>
    split
    swap
    · exact Tells.refl s
    next read next renamed prunes after hp =>
    have hfits := h.head task (by rw [hl]; rfl)
    rw [HeadFits, hp] at hfits
    split
    · split
      · refine ⟨moveOf task after, rfl, ?_⟩
        show (owed s.answers ++ moveOf task after).Subperm (owed s.answers ++ s.pending ++ moveOf task after)
        rw [append_assoc]
        exact (subperm_append_left _).mpr (sublist_append_right _ _).subperm
      · next hprunes =>
        have hn : ∀ outcome, task.op ≠ .finish outcome := fun outcome ho => hprunes (hfits.finishes outcome ho).1
        have hmoved : s.moved ++ moveOf task after = s.moved := by rw [moveOf_of_not_finish hn, append_nil]
        have hsame : Tells s { s with file := some next, receipt := some next, moved := s.moved ++ moveOf task after } := tells_same rfl rfl hmoved
        refine hsame.trans (tells_complete_op ?_ hn _)
        exact h.tail
    · split
      · exact Tells.refl s
      · exact tells_reject h.tail task
  | pruned ok now captured =>
    simp only [step, pruned]
    split
    swap
    · exact Tells.refl s
    next task rest hl =>
    split
    swap
    · exact Tells.refl s
    next written after hp =>
    split
    · exact tells_goOn c h hasks now captured hl hp
    · exact tells_reject h.tail task
  | _ => exact absurd trivial ha

/-! ### Restarts -/

def Filed (s : RunCell) : Prop := s.file ≠ none → s.created = true

/-- What is written is of a run whose id has been given out. -/
theorem created_of_write (h : s.Orderly) {w : PersistedRunReceipt × PersistedRunReceipt} (hw : w ∈ s.writes) : s.created = true := by
  rcases mem_writes.mp hw with ⟨t, ht, hw⟩ | ⟨t, ht, hw⟩
  · have hhead : s.runLock.head? = some t := by
      cases hl : s.runLock with
      | nil =>
        rw [hl] at ht
        cases ht
      | cons task rest =>
        rw [hl] at ht
        rcases mem_cons.mp ht with rfl | ht
        · rfl
        · rw [Task.write, h.tail t (by rw [hl]; exact ht)] at hw
          cases hw
    have hfits := h.head t hhead
    unfold Task.write at hw
    split at hw
    · next read next _ _ _ hp =>
      rw [HeadFits, hp] at hfits
      cases ht : isTerminal read.status with
      | true => exact (hfits.terminal ht).1.created
      | false => exact (h.stored read (hfits.nonterminal ht)).1
    · cases hw
  · exact (h.unlocked t ht).1.created

theorem filed_step (h : s.Orderly) (hf : s.Filed) (e : RunEvent) : (s.step c e).Filed := by
  have hsame : ∀ s' : RunCell, s'.file = s.file → s'.created = s.created → s'.Filed := by
    intro s' hfile hcreated
    rw [Filed, hfile, hcreated]
    exact hf
  intro hfile
  cases step_effect c s e with
  | quiet hq => exact hsame _ hq.file hq.created hfile
  | begun _ _ _ _ _ _ _ _ hfile' hcreated | deleted _ _ _ _ hfile' hcreated => exact hsame _ hfile' hcreated hfile
  | renamed _ _ _ hmem _ _ hcreated | settled _ _ _ hmem _ _ hcreated => exact hcreated.trans (created_of_write h hmem)
  | creating _ _ _ _ _ hcreated => exact hcreated
  | createRenamed record hcreates _ _ hcreated | createSettled record hcreates _ _ hcreated =>
    obtain ⟨_, _, hc⟩ := hcreates
    exact hcreated.trans (h.creates (by rw [hc]; exact some_ne_none _))
  | unlinked _ _ hnone => exact absurd hnone hfile

theorem isTerminal_recover (now : ℤ) (record : PersistedRunReceipt) : isTerminal (recover now record).status = true := by
  unfold recover
  split
  · next h => exact h
  · rfl

theorem orderly_restart (h : s.Orderly) (hf : s.Filed) (now : ℤ) (loads persisted : Bool) :
    (s.restart now loads persisted).Orderly := by
  have hreceipt : ∀ x ∈ (s.restart now loads persisted).receipt, s.created = true ∧ isTerminal x.status = true := by
    intro x hx
    cases loads with
    | false => cases hx
    | true =>
      obtain ⟨record, hr, rfl⟩ := map_eq_some_iff.mp hx
      exact ⟨hf (by rw [hr]; exact some_ne_none _), isTerminal_recover now record⟩
  have hcreates : ∀ r, ¬ (s.restart now loads persisted).Creates r := fun r ⟨_, _, hr⟩ => (by cases hr)
  refine ⟨fun x hx => ⟨(hreceipt x hx).1, hcreates⟩, fun hn => absurd rfl hn, fun t ht => (by cases ht), fun t ht => (by cases ht),
    fun t ht => (by cases ht), fun hn => absurd rfl hn, fun hm => ⟨(h.moved hm).created, hcreates, fun x hx => (hreceipt x hx).2⟩, h.single⟩

theorem filed_restart (hf : s.Filed) (now : ℤ) (loads persisted : Bool) : (s.restart now loads persisted).Filed := by
  intro hfile
  by_contra hc
  have hnone : s.file = none := by
    by_contra hn
    exact hc (hf hn)
  apply hfile
  unfold restart
  rw [hnone]
  cases loads
  · cases persisted <;> rfl
  · cases persisted <;> rfl

end RunCell

/-! ## The manager -/

namespace RunReceiptManager

/-- The announcements of a run, as the moves they follow. -/
def told (s : RunReceiptManager) (run : ℕ) : List (ℕ × RunReceiptStatus × Option JsString) :=
  (s.announcements.filter (·.run = run)).map fun a => (a.pass, .failed, some a.errorCode)

structure Tallied (s : RunReceiptManager) : Prop where
  orderly : ∀ run, (s.cells run).Orderly
  asked : ∀ run, (s.cells run).Asked
  calling : ∀ p ∈ s.passes, ∀ run outcome, p.state = .calling run outcome → outcome.finishStatus = .failed
  moves : ∀ run, (s.told run ++ (s.cells run).promised).Subperm (s.cells run).moved
  filed : ∀ run, (s.cells run).Filed
  counted : s.stalledRunCount = (s.announcements.filter (·.errorCode ≠ NEVER_STARTED)).length

theorem tallied_new : new.Tallied where
  orderly _ := RunCell.orderly_new
  asked _ _ ht := (by cases ht)
  calling _ hp := (by cases hp)
  moves _ := List.Subperm.refl _
  filed _ hf := absurd rfl hf
  counted := rfl

variable {s : RunReceiptManager}

/-- One run takes a step that promises what it moves. -/
theorem tallied_setCell (h : s.Tallied) {run : ℕ} {cell : RunCell} (horderly : cell.Orderly) (hasked : cell.Asked)
    (hfiled : cell.Filed) (htells : (s.cells run).Tells cell) : (s.setCell run cell).Tallied := by
  have hcell : ∀ P : RunCell → Prop, P cell → (∀ run', P (s.cells run')) → ∀ run', P ((s.setCell run cell).cells run') := by
    intro P hp hps run'
    rw [cells_setCell]
    by_cases hr : run' = run
    · rw [hr, Function.update_self]
      exact hp
    · rw [Function.update_of_ne hr]
      exact hps run'
  refine ⟨hcell _ horderly h.orderly, hcell _ hasked h.asked, h.calling, fun run' => ?_, hcell _ hfiled h.filed, h.counted⟩
  show (s.told run' ++ _).Subperm _
  rw [cells_setCell]
  by_cases hr : run' = run
  · rw [hr, Function.update_self]
    obtain ⟨new, hmoved, hpromised⟩ := htells
    rw [hmoved]
    refine ((subperm_append_left _).mpr hpromised).trans ?_
    rw [← append_assoc]
    exact (subperm_append_right new).mpr (h.moves run)
  · rw [Function.update_of_ne hr]
    exact h.moves run'

theorem tallied_setPass (h : s.Tallied) (pass : ℕ) {p : Pass}
    (hp : ∀ run outcome, p.state = .calling run outcome → outcome.finishStatus = .failed) : (s.setPass pass p).Tallied := by
  refine ⟨h.orderly, h.asked, fun q hq => ?_, h.moves, h.filed, h.counted⟩
  rcases mem_or_eq_of_mem_set hq with hq | rfl
  · exact h.calling q hq
  · exact hp

theorem told_announce (s : RunReceiptManager) (run pass : ℕ) (errorCode : JsString) (threw : Bool) (run' : ℕ) :
    (s.announce run pass errorCode threw).told run' = s.told run' ++ if run = run' then [(pass, .failed, some errorCode)] else [] := by
  have happend : ∀ a : Announcement, a.run = run → a.pass = pass → a.errorCode = errorCode →
      ((s.announcements ++ [a]).filter (·.run = run')).map (fun a => (a.pass, RunReceiptStatus.failed, some a.errorCode)) =
        s.told run' ++ if run = run' then [(pass, .failed, some errorCode)] else [] := by
    rintro a rfl rfl rfl
    rw [filter_append, map_append, told]
    by_cases hr : a.run = run'
    · rw [if_pos hr, filter_cons_of_pos (by exact decide_eq_true hr)]
      rfl
    · rw [if_neg hr, filter_cons_of_neg (by rw [decide_eq_false hr]; exact Bool.false_ne_true)]
      rfl
  unfold announce
  split <;> exact happend _ rfl rfl rfl

theorem counted_announce (h : s.stalledRunCount = (s.announcements.filter (·.errorCode ≠ NEVER_STARTED)).length)
    (run pass : ℕ) (errorCode : JsString) (threw : Bool) : (s.announce run pass errorCode threw).stalledRunCount =
      ((s.announce run pass errorCode threw).announcements.filter (·.errorCode ≠ NEVER_STARTED)).length := by
  have happend : ∀ a : Announcement, a.errorCode = errorCode →
      ((s.announcements ++ [a]).filter (·.errorCode ≠ NEVER_STARTED)).length = s.stalledRunCount + if errorCode = NEVER_STARTED then 0 else 1 := by
    rintro a rfl
    rw [filter_append, length_append, h]
    by_cases hc : a.errorCode = NEVER_STARTED <;> simp [hc]
  unfold announce
  split
  · next hc => rw [happend _ rfl, if_pos hc, Nat.add_zero]
  · next hc => rw [happend _ rfl, if_neg hc]

theorem tallied_announce (h : s.Tallied) {run pass : ℕ} {errorCode : JsString} (threw : Bool)
    (hmove : ((pass, .failed, some errorCode) :: (s.told run ++ (s.cells run).promised)).Subperm (s.cells run).moved) :
    (s.announce run pass errorCode threw).Tallied := by
  have hcells := cells_announce s run pass errorCode threw
  have hpasses : (s.announce run pass errorCode threw).passes = s.passes := by
    unfold announce
    split <;> rfl
  refine ⟨by rw [hcells]; exact h.orderly, by rw [hcells]; exact h.asked, by rw [hpasses]; exact h.calling, fun run' => ?_,
    by rw [hcells]; exact h.filed, counted_announce h.counted ..⟩
  rw [hcells, told_announce]
  by_cases hr : run = run'
  · subst hr
    rw [if_pos rfl, append_assoc]
    exact perm_middle.subperm.trans hmove
  · rw [if_neg hr, append_nil]
    exact h.moves run'

variable (c : RunReceiptManagerConfig)

theorem stallOutcome_failed {now : ℤ} {cell : RunCell} {outcome : RunFinishOutcome} (h : stallOutcome c now cell = some outcome) :
    outcome.finishStatus = .failed := by
  unfold stallOutcome at h
  dsimp only at h
  split at h
  · cases h
  split at h
  · split at h
    · cases h
      rfl
    · cases h
  split at h
  · cases h
  split at h
  · cases h
    rfl
  · cases h

theorem tallied_resume (h : s.Tallied) (pass : ℕ) (threw : Bool) : (s.resume pass threw).Tallied := by
  unfold resume
  split
  swap
  · exact h
  next now rest run _ =>
  split
  · exact h
  next answer hfind =>
  have hmem : answer ∈ (s.cells run).answers := mem_of_find?_eq_some hfind
  have hpass : answer.pass = pass := of_decide_eq_true (find?_some hfind :)
  have herased : (s.setCell run { s.cells run with answers := (s.cells run).answers.erase answer }).Tallied := by
    refine tallied_setCell h ?_ (RunCell.asked_of_sub (h.asked run) fun _ ht => ht) (h.filed run) ⟨[], (append_nil _).symm, ?_⟩
    · exact (h.orderly run).frame rfl rfl rfl (fun t ht => ht) rfl (h.orderly run).tail (h.orderly run).head (h.orderly run).draining
    · rw [append_nil]
      exact (subperm_append_right _).mpr ((erase_sublist.filter _).map _).subperm
  have hlooking : ∀ rest, (s.setCell run { s.cells run with answers := (s.cells run).answers.erase answer }).setPass pass
      ⟨now, rest, .looking⟩ |>.Tallied := fun rest => tallied_setPass herased pass (fun _ _ h => by cases h)
  dsimp only
  split
  · next asked found hasked hfound =>
    split
    · next heq =>
      refine tallied_announce (hlooking (if threw = true then [] else rest)) threw ?_
      -- the answer that is taken is the announcement that is made
      have hcounts : answer.counts = true := by
        rw [Answer.counts, hasked, hfound, heq]
        simp
      have hmove : answer.move = (pass, .failed, some asked) := by rw [Answer.move, hpass, hasked]
      have howed : (RunCell.owed (s.cells run).answers).Perm ((pass, .failed, some asked) :: RunCell.owed ((s.cells run).answers.erase answer)) := by
        have hperm := ((perm_cons_erase hmem).filter (·.counts)).map Answer.move
        rwa [filter_cons_of_pos hcounts, map_cons, hmove] at hperm
      rw [cells_setPass, cells_setCell, Function.update_self]
      refine List.Subperm.trans (List.Perm.subperm ?_) (h.moves run)
      refine perm_middle.symm.trans ?_
      exact (howed.symm.append_right _).append_left (s.told run)
    · exact hlooking rest
  · exact hlooking rest

theorem tallied_step (h : s.Tallied) {e : ManagerEvent} (hw : s.Watched e) : (s.step c e).Tallied := by
  cases e with
  | run run event =>
    exact tallied_setCell h (RunCell.orderly_step c (h.orderly run) hw.1) (RunCell.asked_step c (h.asked run) event)
      (RunCell.filed_step c (h.orderly run) (h.filed run) event) (RunCell.tells_step c (h.orderly run) (h.asked run) hw)
  | addNeverStartedListener => exact ⟨h.orderly, h.asked, h.calling, h.moves, h.filed, h.counted⟩
  | tick now =>
    refine ⟨h.orderly, h.asked, fun p hp run outcome hstate => ?_, h.moves, h.filed, h.counted⟩
    rcases mem_append.mp hp with hp | hp
    · exact h.calling p hp run outcome hstate
    · cases mem_singleton.mp hp
      cases hstate
  | visit pass =>
    simp only [step, visit]
    split
    · split
      · next outcome hstall =>
        refine tallied_setPass h pass fun run' outcome' hstate => ?_
        cases hstate
        exact stallOutcome_failed c hstall
      · exact tallied_setPass h pass fun _ _ hstate => (by cases hstate)
    · exact h
  | reach pass =>
    simp only [step, reach]
    split
    · next now rest run outcome hp =>
      have hfailed := h.calling _ (mem_of_getElem? hp) run outcome rfl
      have hasks : Task.Asks ⟨.finish outcome, some pass, .waiting⟩ := fun _ => ⟨outcome, rfl, hfailed⟩
      have hasked := RunCell.asked_enqueue (h.asked run) (.finish outcome) hasks
      exact tallied_setPass (tallied_setCell h (RunCell.orderly_enqueue (h.orderly run) _ _) hasked (h.filed run) (RunCell.tells_enqueue ..)) pass
        fun _ _ hstate => (by cases hstate)
    · exact h
  | resume pass threw => exact tallied_resume h pass threw
  | restart now loads persisted =>
    refine ⟨fun run => RunCell.orderly_restart (h.orderly run) (h.filed run) .., fun run t ht => (by cases ht), fun p hp => (by cases hp),
      fun run => nil_subperm, fun run => RunCell.filed_restart (h.filed run) _ _ _, rfl⟩

/-! ## Once -/

theorem run_of_mem_calls {a : Announcement} {callback : Callback} (h : callback ∈ a.calls) : callback.run = a.run := by
  unfold Announcement.calls at h
  split at h
  · rcases mem_cons.mp h with rfl | h
    · rfl
    · obtain ⟨i, _, rfl⟩ := mem_map.mp h
      rfl
  · cases mem_singleton.mp h
    rfl

theorem nodup_calls (a : Announcement) : a.calls.Nodup := by
  unfold Announcement.calls
  split
  · refine nodup_cons.mpr ⟨fun hmem => ?_, ?_⟩
    · obtain ⟨i, _, hi⟩ := mem_map.mp hmem
      cases hi
    · refine List.Nodup.map (fun i j hij => ?_) nodup_range
      cases hij
      rfl
  · exact nodup_singleton _

/-- Announcements of different runs call different callbacks. -/
theorem calls_nodup {l : List Announcement} (h : ∀ run, (l.filter (·.run = run)).length ≤ 1) : (l.flatMap (·.calls)).Nodup := by
  refine nodup_flatMap.mpr ⟨fun a _ => nodup_calls a, pairwise_iff_forall_sublist.mpr fun {a b} hab => ?_⟩
  intro callback ha hb
  have hrun : b.run = a.run := (run_of_mem_calls hb).symm.trans (run_of_mem_calls ha)
  have hlen := (hab.filter (·.run = a.run)).length_le
  rw [filter_cons_of_pos (by simp), filter_cons_of_pos (by simpa using hrun)] at hlen
  have hone := h a.run
  simp only [length_cons] at hlen
  omega

theorem announcedOnce_of_tallied (h : s.Tallied) : s.AnnouncedOnce := by
  have honce : ∀ run, (s.announcements.filter (·.run = run)).length ≤ 1 := by
    intro run
    have hlen := (h.moves run).length_le
    rw [length_append, told, length_map] at hlen
    have hsingle := (h.orderly run).single
    omega
  refine ⟨honce, calls_nodup honce, h.counted, fun a ha => ?_⟩
  refine (h.moves a.run).subset (mem_append_left _ (mem_map.mpr ⟨a, ?_, rfl⟩))
  exact mem_filter.mpr ⟨ha, decide_eq_true rfl⟩

theorem announced_once {es : List ManagerEvent} (h : Run.Along (step c) Watched new es) : (es.foldl (step c) new).AnnouncedOnce :=
  announcedOnce_of_tallied (Run.invariant (I := Tallied) (fun _ _ ht hw => tallied_step c ht hw) tallied_new h)

/-- The steps of an operation that writes. -/
def written (run : ℕ) (now : ℤ) : List ManagerEvent :=
  [.run run .rename, .run run (.settle true), .run run (.pruned true now {})]

/-- A run that is created and started at 0. -/
def startedRun : List ManagerEvent :=
  [.run 0 (.beginRun 0 none), .run 0 .createRename, .run 0 (.createSettle true), .run 0 (.createPruned true), .run 0 (.issue .markStarted),
    .run 0 (.acquire 0 {}), .run 0 (.begin 0 true)] ++ written 0 0

def oneMinute : RunReceiptManagerConfig := ⟨60000, 3600000, 0, false⟩

def stalledRun : List ManagerEvent :=
  startedRun ++ [.tick 60000, .visit 0, .reach 0, .run 0 (.acquire 60001 {}), .run 0 (.begin 60001 true)] ++ written 0 60002 ++ [.resume 0 false]

theorem announced_once_stalled : (stalledRun.foldl (step oneMinute) new).AnnouncedOnce := announced_once oneMinute (by decide +kernel)

/-- The second pass looks at the run while the first one's write is on its way. -/
def secondPass : List ManagerEvent :=
  startedRun ++ [.tick 60000, .visit 0, .reach 0, .run 0 (.acquire 60001 {}), .run 0 (.begin 60001 true), .tick 61000, .visit 1, .reach 1] ++
    written 0 61001 ++ [.run 0 (.acquire 61002 {}), .resume 0 false, .resume 1 false]

theorem overlapping_passes : ∃ (c : RunReceiptManagerConfig) (es : List ManagerEvent), ¬ (es.foldl (step c) new).AnnouncedOnce :=
  ⟨oneMinute, secondPass, fun h => absurd (h.once 0) (by decide +kernel)⟩

example : (secondPass.foldl (step oneMinute) new).stalledRunCount = 2 := by decide +kernel

end RunReceiptManager

end PiWebUi.RunReceipts
