/-
  PiWebUi.RunReceipts.RunEffects — what a step of a run does to its receipt.

  A step begins a call of the store (`callOf`), is about a write (`writeOf`), creates,
  deletes, or leaves the receipt, its file and the writes in flight as they are
  (`step_effect`). What is claimed of receipts follows from that and from what a call makes
  of the receipt it reads.
-/

import PiWebUi.RunReceipts.RunReceiptManager

namespace PiWebUi.RunReceipts

open Lib List Option

/-- The receipt a write was made from, and the one it writes. -/
def Task.write (t : Task) : Option (PersistedRunReceipt × PersistedRunReceipt) :=
  match t.phase with
  | .writing read next _ _ _ => some (read, next)
  | _ => none

def UnlockedTask.write (t : UnlockedTask) : Option (PersistedRunReceipt × PersistedRunReceipt) :=
  match t.phase with
  | .writing read next _ => some (read, next)
  | _ => none

def Task.storeCall (t : Task) : Option StoreCall :=
  match t.phase with
  | .calling call _ => some call
  | _ => none

def UnlockedTask.storeCall (t : UnlockedTask) : Option StoreCall :=
  match t.phase with
  | .calling call => some call
  | _ => none

namespace RunCell

def writes (s : RunCell) : List (PersistedRunReceipt × PersistedRunReceipt) := s.runLock.filterMap (·.write) ++ s.unlocked.filterMap (·.write)

/-- The call that reads the cache with this event. -/
def callOf (s : RunCell) : RunEvent → Option StoreCall
  | .begin _ _ => s.runLock.head?.bind (·.storeCall)
  | .unlockedBegin i _ _ => s.unlocked[i]?.bind (·.storeCall)
  | _ => none

/-- The write that replaces the file or the cache with this event. -/
def writeOf (s : RunCell) : RunEvent → Option (PersistedRunReceipt × PersistedRunReceipt)
  | .rename | .settle _ => s.runLock.head?.bind (·.write)
  | .unlockedRename i | .unlockedSettle i _ => s.unlocked[i]?.bind (·.write)
  | _ => none

/-- The receipt is being written for the first time. -/
def Creates (s : RunCell) (record : PersistedRunReceipt) : Prop := ∃ renamed acceptedAtMs, s.creating = some (.writing record renamed acceptedAtMs)

structure Quiet (s s' : RunCell) : Prop where
  receipt : s'.receipt = s.receipt
  file : s'.file = s.file
  created : s'.created = s.created
  creates : ∀ record, s'.Creates record → s.Creates record
  writes : ∀ w ∈ s'.writes, w ∈ s.writes

inductive Effect (s s' : RunCell) (e : RunEvent) : Prop where
  | quiet (h : s.Quiet s')
  | begun (call : StoreCall) (now : ℤ) (read next : PersistedRunReceipt) (hcall : s.callOf e = some call) (hread : s.receipt = some read)
      (hnext : call.start now (some read) = .writes next) (hreceipt : s'.receipt = s.receipt) (hfile : s'.file = s.file)
      (hcreated : s'.created = s.created) (hcreating : s'.creating = s.creating) (hwrites : ∀ w ∈ s'.writes, w ∈ s.writes ∨ w = (read, next))
  | renamed (read next : PersistedRunReceipt) (hwrite : s.writeOf e = some (read, next)) (hmem : (read, next) ∈ s.writes)
      (hreceipt : s'.receipt = s.receipt) (hfile : s'.file = some next) (hcreated : s'.created = s.created)
      (hcreating : s'.creating = s.creating) (hwrites : ∀ w ∈ s'.writes, w ∈ s.writes)
  | settled (read next : PersistedRunReceipt) (hwrite : s.writeOf e = some (read, next)) (hmem : (read, next) ∈ s.writes)
      (hreceipt : s'.receipt = some next) (hfile : s'.file = some next) (hcreated : s'.created = s.created)
      (hcreating : s'.creating = s.creating) (hwrites : ∀ w ∈ s'.writes, w ∈ s.writes)
  | creating (now : ℤ) (key : Option (ℤ × JsString × JsString)) (hnew : s.created = false) (hreceipt : s'.receipt = s.receipt) (hfile : s'.file = s.file)
      (hcreated : s'.created = true) (hcreates : ∀ record, s'.Creates record → record = newReceipt now key) (hwrites : ∀ w ∈ s'.writes, w ∈ s.writes)
  | createRenamed (record : PersistedRunReceipt) (hcreates : s.Creates record) (hreceipt : s'.receipt = s.receipt) (hfile : s'.file = some record)
      (hcreated : s'.created = s.created) (hcreating : ∀ r, s'.Creates r → s.Creates r) (hwrites : ∀ w ∈ s'.writes, w ∈ s.writes)
  | createSettled (record : PersistedRunReceipt) (hcreates : s.Creates record) (hreceipt : s'.receipt = some record) (hfile : s'.file = some record)
      (hcreated : s'.created = s.created) (hcreating : ∀ r, ¬ s'.Creates r) (hwrites : ∀ w ∈ s'.writes, w ∈ s.writes)
  | deleted (x : PersistedRunReceipt) (hx : s.receipt = some x) (hterminal : isTerminal x.status = true) (hreceipt : s'.receipt = none)
      (hfile : s'.file = s.file) (hcreated : s'.created = s.created) (hcreating : s'.creating = s.creating) (hwrites : ∀ w ∈ s'.writes, w ∈ s.writes)
  | unlinked (hnone : s.receipt = none) (hreceipt : s'.receipt = none) (hfile : s'.file = none) (hcreated : s'.created = s.created)
      (hcreating : s'.creating = s.creating) (hwrites : ∀ w ∈ s'.writes, w ∈ s.writes)

/-! ## Quiet steps -/

theorem Quiet.refl (s : RunCell) : s.Quiet s := ⟨rfl, rfl, rfl, fun _ h => h, fun _ h => h⟩

theorem Quiet.trans {s s' s'' : RunCell} (h : s.Quiet s') (h' : s'.Quiet s'') : s.Quiet s'' :=
  ⟨h'.receipt.trans h.receipt, h'.file.trans h.file, h'.created.trans h.created, fun r hr => h.creates r (h'.creates r hr),
    fun w hw => h.writes w (h'.writes w hw)⟩

theorem mem_writes {s : RunCell} {w : PersistedRunReceipt × PersistedRunReceipt} :
    w ∈ s.writes ↔ (∃ t ∈ s.runLock, t.write = some w) ∨ ∃ t ∈ s.unlocked, t.write = some w := by
  rw [writes, mem_append, mem_filterMap, mem_filterMap]

/-- The lists hold what they held, and tasks that do not write. -/
theorem quiet_of_tasks {s s' : RunCell} (hreceipt : s'.receipt = s.receipt) (hfile : s'.file = s.file) (hcreated : s'.created = s.created)
    (hcreating : s'.creating = s.creating) (hlock : ∀ t ∈ s'.runLock, t ∈ s.runLock ∨ t.write = none)
    (hunlocked : ∀ t ∈ s'.unlocked, t ∈ s.unlocked ∨ t.write = none) : s.Quiet s' := by
  refine ⟨hreceipt, hfile, hcreated, fun r hr => ?_, fun w hw => ?_⟩
  · obtain ⟨renamed, acceptedAtMs, h⟩ := hr
    exact ⟨renamed, acceptedAtMs, hcreating ▸ h⟩
  · rw [mem_writes] at hw ⊢
    rcases hw with ⟨t, ht, hw⟩ | ⟨t, ht, hw⟩
    · exact .inl ⟨t, (hlock t ht).resolve_right (by rw [hw]; exact some_ne_none w), hw⟩
    · exact .inr ⟨t, (hunlocked t ht).resolve_right (by rw [hw]; exact some_ne_none w), hw⟩

section

variable (s : RunCell)
include s

theorem quiet_enqueue (op : RunOp) (pass : Option ℕ) : s.Quiet (s.enqueue op pass) := by
  refine quiet_of_tasks rfl rfl rfl rfl (fun t ht => ?_) fun t ht => .inl ht
  rcases mem_append.mp ht with ht | ht
  · exact .inl ht
  · cases mem_singleton.mp ht
    exact .inr rfl

theorem quiet_complete (task : Task) (receipt : Option PersistedRunReceipt) : s.Quiet (s.complete task receipt) :=
  quiet_of_tasks rfl rfl rfl rfl (fun _ ht => .inl (mem_of_mem_tail ht)) fun _ ht => .inl ht

theorem quiet_reject (task : Task) : s.Quiet (s.reject task) := by
  unfold reject
  split
  · exact quiet_of_tasks rfl rfl rfl rfl (fun _ ht => .inl (mem_of_mem_tail ht)) fun _ ht => .inl ht
  · exact quiet_complete s task none

theorem quiet_setPhase (task : Task) {phase : Phase} (h : ({ task with phase } : Task).write = none) :
    s.Quiet (s.setPhase task phase) := by
  refine quiet_of_tasks rfl rfl rfl rfl (fun t ht => ?_) fun t ht => .inl ht
  rcases mem_cons.mp ht with rfl | ht
  · exact .inr h
  · exact .inl (mem_of_mem_tail ht)

theorem quiet_call (task : Task) (call : StoreCall) (after : After) : s.Quiet (s.call task call after) := quiet_setPhase s task rfl

theorem quiet_markActive (startedAtMs : ℤ) : s.Quiet (s.markActive startedAtMs) := by
  unfold markActive
  split
  · exact quiet_of_tasks rfl rfl rfl rfl (fun t ht => .inl ht) fun t ht => .inl ht
  · exact .refl s

theorem quiet_finishDrain : s.Quiet s.finishDrain := by
  unfold finishDrain
  split
  · exact .refl s
  · exact quiet_of_tasks rfl rfl rfl rfl (fun t ht => .inl ht) fun t ht => .inl ht

end

variable (c : RunReceiptManagerConfig)

section

variable (s : RunCell)
include s

theorem quiet_terminalize (record : PersistedRunReceipt) : s.Quiet (s.terminalize c record) := by
  unfold terminalize
  dsimp only
  split
  · exact .refl s
  split
  · exact quiet_of_tasks rfl rfl rfl rfl (fun t ht => .inl ht) fun t ht => .inl ht
  split <;> exact quiet_of_tasks rfl rfl rfl rfl (fun t ht => .inl ht) fun t ht => .inl ht

theorem quiet_acquireOp (now : ℤ) (captured : Captured) (task : Task) : s.Quiet (s.acquireOp c now captured task) := by
  unfold acquireOp
  repeat' split
  all_goals first | exact quiet_call .. | exact quiet_complete ..

theorem quiet_acquire (now : ℤ) (captured : Captured) : s.Quiet (s.acquire c now captured) := by
  unfold acquire
  split
  · split
    · exact quiet_acquireOp ..
    · exact .refl s
  · exact .refl s

theorem quiet_goOn (now : ℤ) (captured : Captured) (task : Task) (after : After) (receipt : PersistedRunReceipt) :
    s.Quiet (s.goOn c now captured task after receipt) := by
  cases after with
  | done => exact quiet_complete ..
  | markedStarted startedAtMs => exact (quiet_markActive s startedAtMs).trans (quiet_complete ..)
  | startedThenFinish startedAtMs =>
    simp only [goOn]
    split
    · exact (quiet_markActive s startedAtMs).trans (quiet_call ..)
    · exact (quiet_markActive s startedAtMs).trans (quiet_complete ..)
  | terminalize => exact (quiet_terminalize c s receipt).trans (quiet_complete ..)

theorem quiet_pruned (ok : Bool) (now : ℤ) (captured : Captured) : s.Quiet (s.pruned c ok now captured) := by
  unfold pruned
  split
  · split
    · split
      · exact quiet_goOn ..
      · exact quiet_reject ..
    · exact .refl s
  · exact .refl s

theorem quiet_observeEvent (now : ℤ) (e : ObservedEvent) : s.Quiet (s.observeEvent now e) := by
  have hactive : ∀ a, s.Quiet { s with active := a } := fun a => quiet_of_tasks rfl rfl rfl rfl (fun t ht => .inl ht) fun t ht => .inl ht
  unfold observeEvent
  dsimp only
  split
  · split
    · exact (hactive _).trans (quiet_enqueue ..)
    split
    · exact (hactive _).trans (quiet_enqueue ..)
    · exact hactive _
  · split
    · exact quiet_enqueue ..
    · exact .refl s

theorem quiet_unlock (now : ℤ) (op : UnlockedOp) : s.Quiet (s.unlock now op) := by
  have hask : ∀ call, s.Quiet { s with unlocked := s.unlocked ++ [⟨op, .calling call⟩] } := fun call => by
    refine quiet_of_tasks rfl rfl rfl rfl (fun t ht => .inl ht) fun t ht => ?_
    rcases mem_append.mp ht with ht | ht
    · exact .inl ht
    · cases mem_singleton.mp ht
      exact .inr rfl
  unfold unlock
  dsimp only
  split
  · split
    · exact hask _
    · exact .refl s
  · split
    · exact hask _
    · exact .refl s
  · exact hask _

theorem quiet_answerUnlocked (i : ℕ) (op : UnlockedOp) (result : Option PersistedRunReceipt) :
    s.Quiet (s.answerUnlocked i op result) := by
  have herase : s.Quiet { s with unlocked := s.unlocked.eraseIdx i } :=
    quiet_of_tasks rfl rfl rfl rfl (fun t ht => .inl ht) fun t ht => .inl (mem_of_mem_eraseIdx ht)
  unfold answerUnlocked
  dsimp only
  split
  · exact herase.trans (quiet_finishDrain _)
  · split
    · exact herase.trans (quiet_finishDrain _)
    · exact herase
  · exact herase

end

/-! ## Every step -/

theorem writes_setPhase {s s' : RunCell} {task : Task} {rest : List Task} {phase : Phase} (hl : s.runLock = task :: rest)
    (hlock : s'.runLock = { task with phase } :: rest) (hu : s'.unlocked = s.unlocked) :
    ∀ w ∈ s'.writes, w ∈ s.writes ∨ ({ task with phase } : Task).write = some w := by
  intro w hw
  rw [mem_writes, hlock, hu] at hw
  rcases hw with ⟨t, ht, hw⟩ | hw
  · rcases mem_cons.mp ht with rfl | ht
    · exact .inr hw
    · exact .inl (mem_writes.mpr (.inl ⟨t, hl ▸ mem_cons_of_mem _ ht, hw⟩))
  · exact .inl (mem_writes.mpr (.inr hw))

theorem writes_set {s s' : RunCell} {i : ℕ} {t : UnlockedTask} (hlock : s'.runLock = s.runLock) (hu : s'.unlocked = s.unlocked.set i t) :
    ∀ w ∈ s'.writes, w ∈ s.writes ∨ t.write = some w := by
  intro w hw
  rw [mem_writes, hlock, hu] at hw
  rcases hw with hw | ⟨t', ht, hw⟩
  · exact .inl (mem_writes.mpr (.inl hw))
  · rcases mem_or_eq_of_mem_set ht with ht | rfl
    · exact .inl (mem_writes.mpr (.inr ⟨t', ht, hw⟩))
    · exact .inr hw

section

variable (s : RunCell)
include s

theorem effect_begin (now : ℤ) (valid : Bool) : s.Effect (s.begin now valid) (.begin now valid) := by
  unfold begin
  split
  · next task rest hl =>
    split
    · next call after hp =>
      have hcall : s.callOf (.begin now valid) = some call := by
        simp only [callOf, hl, head?_cons, bind_some, Task.storeCall, hp]
      split
      · next next read hw hr =>
        split
        · refine .begun call now read next hcall hr (by rw [← hr]; exact hw) rfl rfl rfl rfl fun w hw => ?_
          have hlock : (s.setPhase task (.writing read next false call.prunes after)).runLock =
              { task with phase := .writing read next false call.prunes after } :: rest := by
            rw [setPhase, hl]
            rfl
          exact (writes_setPhase hl hlock rfl w hw).imp_right fun he => (some.inj he).symm
        · exact .quiet (quiet_reject ..)
      · exact .quiet (.refl s)
      · exact .quiet (quiet_complete ..)
      · exact .quiet (quiet_reject ..)
    · exact .quiet (.refl s)
  · exact .quiet (.refl s)

theorem effect_rename : s.Effect s.rename .rename := by
  unfold rename
  split
  · next task rest hl =>
    split
    · next read next renamed prunes after hp =>
      have hwrite : task.write = some (read, next) := by simp only [Task.write, hp]
      have hmem : (read, next) ∈ s.writes := mem_writes.mpr (.inl ⟨task, hl ▸ mem_cons_self, hwrite⟩)
      refine .renamed read next (by simp only [writeOf, hl, head?_cons, bind_some, hwrite]) hmem rfl rfl rfl rfl fun w hw => ?_
      have hlock : ({ s with file := some next }.setPhase task (.writing read next true prunes after)).runLock =
          { task with phase := .writing read next true prunes after } :: rest := by
        rw [setPhase]
        simp only [hl, tail_cons]
      exact (writes_setPhase hl hlock rfl w hw).elim id fun he => (some.inj he) ▸ hmem
    · exact .quiet (.refl s)
  · exact .quiet (.refl s)

theorem effect_settle (ok : Bool) : s.Effect (s.settle ok) (.settle ok) := by
  unfold settle
  split
  · next task rest hl =>
    split
    · next read next renamed prunes after hp =>
      have hwrite : task.write = some (read, next) := by simp only [Task.write, hp]
      have hmem : (read, next) ∈ s.writes := mem_writes.mpr (.inl ⟨task, hl ▸ mem_cons_self, hwrite⟩)
      have hof : s.writeOf (.settle ok) = some (read, next) := by simp only [writeOf, hl, head?_cons, bind_some, hwrite]
      split
      · -- the lock goes on with what it held
        have hquiet : ∀ moved, ({ s with file := some next, receipt := some next, moved } : RunCell).Quiet
            (if prunes = true then ({ s with file := some next, receipt := some next, moved } : RunCell).setPhase task (.pruning next after)
              else ({ s with file := some next, receipt := some next, moved } : RunCell).complete task (some next)) := by
          intro moved
          split
          · exact quiet_setPhase _ task rfl
          · exact quiet_complete ..
        obtain ⟨hreceipt, hfile, hcreated, -, hwrites⟩ := hquiet _
        refine .settled read next hof hmem hreceipt hfile hcreated ?_ hwrites
        cases prunes <;> rfl
      · split
        · exact .quiet (.refl s)
        · exact .quiet (quiet_reject ..)
    · exact .quiet (.refl s)
  · exact .quiet (.refl s)

theorem effect_unlockedBegin (i : ℕ) (now : ℤ) (valid : Bool) :
    s.Effect (s.unlockedBegin i now valid) (.unlockedBegin i now valid) := by
  unfold unlockedBegin
  split
  · next op call hi =>
    have hcall : s.callOf (.unlockedBegin i now valid) = some call := by simp only [callOf, hi, bind_some, UnlockedTask.storeCall]
    split
    · next next read hw hr =>
      split
      · refine .begun call now read next hcall hr (by rw [← hr]; exact hw) rfl rfl rfl rfl fun w hw => ?_
        exact (@writes_set s { s with unlocked := s.unlocked.set i ⟨op, .writing read next false⟩ } i _ rfl rfl w hw).imp_right fun he => (some.inj he).symm
      · exact .quiet (quiet_answerUnlocked ..)
    · exact .quiet (.refl s)
    · exact .quiet (quiet_answerUnlocked ..)
    · exact .quiet (quiet_answerUnlocked ..)
  · exact .quiet (.refl s)

theorem effect_unlockedRename (i : ℕ) : s.Effect (s.unlockedRename i) (.unlockedRename i) := by
  unfold unlockedRename
  split
  · next op read next renamed hi =>
    have hmem : (read, next) ∈ s.writes := mem_writes.mpr (.inr ⟨_, mem_of_getElem? hi, rfl⟩)
    refine .renamed read next (by simp only [writeOf, hi, bind_some, UnlockedTask.write]) hmem rfl rfl rfl rfl fun w hw => ?_
    exact (@writes_set s { s with file := some next, unlocked := s.unlocked.set i ⟨op, .writing read next true⟩ } i _ rfl rfl w hw).elim id fun he => (some.inj he) ▸ hmem
  · exact .quiet (.refl s)

theorem effect_unlockedSettle (i : ℕ) (ok : Bool) : s.Effect (s.unlockedSettle i ok) (.unlockedSettle i ok) := by
  unfold unlockedSettle
  split
  · next op read next renamed hi =>
    have hmem : (read, next) ∈ s.writes := mem_writes.mpr (.inr ⟨_, mem_of_getElem? hi, rfl⟩)
    split
    · obtain ⟨hreceipt, hfile, hcreated, -, hwrites⟩ :=
        quiet_answerUnlocked ({ s with file := some next, receipt := some next } : RunCell) i op (some next)
      refine .settled read next (by simp only [writeOf, hi, bind_some, UnlockedTask.write]) hmem hreceipt hfile hcreated ?_ hwrites
      unfold answerUnlocked finishDrain
      dsimp only
      repeat' split
      all_goals rfl
    · split
      · exact .quiet (.refl s)
      · exact .quiet (quiet_answerUnlocked ..)
  · exact .quiet (.refl s)

theorem step_effect (e : RunEvent) : s.Effect (s.step c e) e := by
  have hsame : ∀ s' : RunCell, s'.receipt = s.receipt → s'.file = s.file → s'.created = s.created → s'.creating = s.creating →
      s'.runLock = s.runLock → s'.unlocked = s.unlocked → s.Effect s' e := by
    intro s' hreceipt hfile hcreated hcreating hlock hu
    exact .quiet (quiet_of_tasks hreceipt hfile hcreated hcreating (fun t ht => .inl (hlock ▸ ht)) fun t ht => .inl (hu ▸ ht))
  cases e with
  | beginRun now key =>
    simp only [step, beginRun]
    split
    · exact .quiet (.refl s)
    · next h =>
      refine .creating now key (by simpa using h) rfl rfl rfl (fun record hr => ?_) fun w hw => hw
      obtain ⟨renamed, acceptedAtMs, hr⟩ := hr
      cases hr
      rfl
  | createRename =>
    simp only [step, createRename]
    split
    · next record renamed acceptedAtMs h =>
      refine .createRenamed record ⟨renamed, acceptedAtMs, h⟩ rfl rfl rfl (fun r hr => ?_) fun w hw => hw
      obtain ⟨_, _, hr⟩ := hr
      cases hr
      exact ⟨renamed, acceptedAtMs, h⟩
    · exact .quiet (.refl s)
  | createSettle ok =>
    simp only [step, createSettle]
    split
    · next record renamed acceptedAtMs h =>
      split
      · refine .createSettled record ⟨renamed, acceptedAtMs, h⟩ rfl rfl rfl (fun r hr => ?_) fun w hw => hw
        obtain ⟨_, _, hr⟩ := hr
        cases hr
      · split
        · exact .quiet (.refl s)
        · refine .quiet ⟨rfl, rfl, rfl, fun r hr => ?_, fun w hw => hw⟩
          obtain ⟨_, _, hr⟩ := hr
          cases hr
    · exact .quiet (.refl s)
  | createPruned ok =>
    simp only [step, createPruned]
    split
    · split
      all_goals
        refine .quiet ⟨rfl, rfl, rfl, fun r hr => ?_, fun w hw => hw⟩
        obtain ⟨_, _, hr⟩ := hr
        cases hr
    · exact .quiet (.refl s)
  | observe now event => exact .quiet (quiet_observeEvent ..)
  | attachLease lease =>
    simp only [step, attachLease]
    split
    · exact hsame _ rfl rfl rfl rfl rfl rfl
    · exact .quiet (.refl s)
  | issue op => exact .quiet (quiet_enqueue ..)
  | acquire now captured => exact .quiet (quiet_acquire ..)
  | begin now valid => exact effect_begin ..
  | rename => exact effect_rename ..
  | settle ok => exact effect_settle ..
  | pruned ok now captured => exact .quiet (quiet_pruned ..)
  | unlock now op => exact .quiet (quiet_unlock ..)
  | unlockedBegin i now valid => exact effect_unlockedBegin ..
  | unlockedRename i => exact effect_unlockedRename ..
  | unlockedSettle i ok => exact effect_unlockedSettle ..
  | drained => exact .quiet (quiet_finishDrain s)
  | drainTimeout => exact hsame _ rfl rfl rfl rfl rfl rfl
  | delete =>
    simp only [step, delete]
    split
    · next h =>
      obtain ⟨x, hx, hterminal⟩ := (any_eq_true _ _).mp h
      exact .deleted x hx hterminal rfl rfl rfl rfl fun w hw => hw
    · exact .quiet (.refl s)
  | unlink =>
    simp only [step, unlink]
    split
    · next h => exact .unlinked h h rfl rfl rfl fun w hw => hw
    · exact .quiet (.refl s)

end

end RunCell

namespace RunReceiptManager

variable (c : RunReceiptManagerConfig)

@[simp] theorem cells_setPass (s : RunReceiptManager) (pass : ℕ) (p : Pass) : (s.setPass pass p).cells = s.cells := rfl

@[simp] theorem cells_announce (s : RunReceiptManager) (run pass : ℕ) (errorCode : JsString) (threw : Bool) :
    (s.announce run pass errorCode threw).cells = s.cells := by
  unfold announce
  split <;> rfl

theorem cells_setCell (s : RunReceiptManager) (run : ℕ) (cell : RunCell) : (s.setCell run cell).cells = Function.update s.cells run cell := rfl

/-- What a step of the manager does to one run: a step of the run, nothing its receipt sees, or a restart. -/
theorem cell_of_step (s : RunReceiptManager) (e : ManagerEvent) (run : ℕ) :
    (∃ event, e = .run run event ∧ (s.step c e).cells run = (s.cells run).step c event) ∨
      (s.cells run).Quiet ((s.step c e).cells run) ∨
      ∃ now loads persisted, e = .restart now loads persisted ∧ (s.step c e).cells run = (s.cells run).restart now (loads run) (persisted run) := by
  have hsame : ∀ {s' : RunReceiptManager}, s'.cells = s.cells → (s.cells run).Quiet (s'.cells run) := fun {s'} h => by
    rw [h]
    exact .refl _
  have hupdate : ∀ {s' : RunReceiptManager} {r : ℕ} {cell : RunCell}, s'.cells = Function.update s.cells r cell →
      (s.cells r).Quiet cell → (s.cells run).Quiet (s'.cells run) := fun {s' r cell} h hq => by
    rw [h]
    by_cases hr : run = r
    · subst hr
      rwa [Function.update_self]
    · rw [Function.update_of_ne hr]
      exact .refl _
  cases e with
  | run r event =>
    by_cases hr : run = r
    · subst hr
      exact .inl ⟨event, rfl, Function.update_self ..⟩
    · refine .inr (.inl ?_)
      simp only [step, cells_setCell, Function.update_of_ne hr]
      exact .refl _
  | addNeverStartedListener | tick now => exact .inr (.inl (hsame rfl))
  | visit pass =>
    refine .inr (.inl (hsame ?_))
    simp only [step, visit]
    split
    · split <;> rfl
    · rfl
  | reach pass =>
    refine .inr (.inl ?_)
    simp only [step, reach]
    split
    · exact hupdate rfl (RunCell.quiet_enqueue ..)
    · exact hsame rfl
  | resume pass threw =>
    refine .inr (.inl ?_)
    have hanswers : ∀ r answers, (s.cells r).Quiet { s.cells r with answers } := fun r answers =>
      RunCell.quiet_of_tasks rfl rfl rfl rfl (fun t ht => .inl ht) fun t ht => .inl ht
    simp only [step, resume]
    split
    · split
      · exact hsame rfl
      · split
        · split
          · exact hupdate (by rw [cells_announce, cells_setPass, cells_setCell]) (hanswers _ _)
          · exact hupdate rfl (hanswers _ _)
        · exact hupdate rfl (hanswers _ _)
    · exact hsame rfl
  | restart now loads persisted => exact .inr (.inr ⟨now, loads, persisted, rfl, rfl⟩)

end RunReceiptManager

end PiWebUi.RunReceipts
