/-
  PiWebUi.RunReceipts.RunOrder — a run is finished once.

  Under the run's lock one operation is past its start, and what it writes is made of the
  receipt the store has (`Orderly`). So a receipt that is terminal, or was when it was
  pruned, is never nonterminal again, and one pass at most has made it terminal. The calls
  without the lock are those of the quiescence paths, on terminal receipts; any other call
  past the manager is not `Careful`.
-/

import PiWebUi.RunReceipts.RunEffects
import PiWebUi.Lib.Run

namespace PiWebUi.RunReceipts

open Lib List Option

/-- The call and what follows it are those of the operation. -/
structure Fits (op : RunOp) (call : StoreCall) (after : After) : Prop where
  terminal : after = .terminalize → ∃ status patch, call = .transition status patch ∧ isTerminal status = true ∧
    ∀ outcome, op = .finish outcome → patch.errorCode = some outcome.errorCode
  finishes : ∀ outcome, op = .finish outcome → call.prunes = true ∧ (after = .terminalize ∨ ∃ n, after = .startedThenFinish n)

/-- What is written is made of the receipt there is; `finished` says that the run is over. -/
structure WriteFits (finished : Prop) (receipt : Option PersistedRunReceipt) (op : RunOp) (read next : PersistedRunReceipt) (prunes : Bool)
    (after : After) : Prop where
  nonterminal : isTerminal read.status = false → receipt = some read
  terminal : isTerminal read.status = true → finished ∧ isTerminal next.status = true
  terminalize : after = .terminalize → isTerminal read.status = false ∧ isTerminal next.status = true ∧
    ∀ outcome, op = .finish outcome → next.errorCode = outcome.errorCode
  finishes : ∀ outcome, op = .finish outcome → prunes = true ∧ (after = .terminalize ∨ ∃ n, after = .startedThenFinish n)

structure PruneFits (finished : Prop) (op : RunOp) (written : PersistedRunReceipt) (after : After) : Prop where
  finished : after = .terminalize → finished
  terminalize : after = .terminalize → ∀ outcome, op = .finish outcome → written.errorCode = outcome.errorCode
  finishes : ∀ outcome, op = .finish outcome → after = .terminalize ∨ ∃ n, after = .startedThenFinish n

def HeadFits (finished : Prop) (receipt : Option PersistedRunReceipt) (t : Task) : Prop :=
  match t.phase with
  | .waiting => True
  | .calling call after => Fits t.op call after
  | .writing read next _ prunes after => WriteFits finished receipt t.op read next prunes after
  | .pruning written after => PruneFits finished t.op written after

def UnlockedFits (t : UnlockedTask) : Prop :=
  match t.phase with
  | .calling call => ∃ observedAt, call = .markResourceQuiescent observedAt
  | .writing _ next _ => isTerminal next.status = true

namespace RunCell

/-- The run has been terminal: its receipt is, or it was deleted. -/
structure Over (s : RunCell) : Prop where
  created : s.created = true
  creates : ∀ r, ¬ s.Creates r
  terminal : ∀ x ∈ s.receipt, isTerminal x.status = true

structure Orderly (s : RunCell) : Prop where
  stored : ∀ x ∈ s.receipt, s.created = true ∧ ∀ r, ¬ s.Creates r
  creates : s.creating ≠ none → s.created = true
  tail : ∀ t ∈ s.runLock.tail, t.phase = .waiting
  head : ∀ t ∈ s.runLock.head?, HeadFits s.Over s.receipt t
  unlocked : ∀ t ∈ s.unlocked, s.Over ∧ UnlockedFits t
  draining : s.draining ≠ none → s.Over
  moved : s.moved ≠ [] → s.Over
  single : s.moved.length ≤ 1

end RunCell

/-! ## What a call makes of the status -/

theorem not_legal_of_terminal {source target : RunReceiptStatus} (h : isLegalTransition source target = true) : isTerminal source = false := by
  cases source <;> first | rfl | cases h

theorem applyTransition_status (now : ℤ) (current : PersistedRunReceipt) (status : RunReceiptStatus) (patch : TransitionPatch) :
    (applyTransition now current status patch).status = status := by
  unfold applyTransition
  dsimp only
  split <;> rfl

theorem applyTransition_errorCode (now : ℤ) (current : PersistedRunReceipt) (status : RunReceiptStatus) (patch : TransitionPatch) :
    (applyTransition now current status patch).errorCode = patch.errorCode.getD current.errorCode := by
  unfold applyTransition
  dsimp only
  split <;> rfl

/-- A call keeps the status, or is a legal transition. -/
theorem start_status {call : StoreCall} {now : ℤ} {read next : PersistedRunReceipt} (h : call.start now (some read) = .writes next) :
    next.status = read.status ∨
      ∃ status patch, call = .transition status patch ∧ isTerminal read.status = false ∧ next = applyTransition now read status patch := by
  cases call with
  | transition status patch =>
    simp only [StoreCall.start] at h
    split at h
    · next hl =>
      cases h
      exact .inr ⟨status, patch, rfl, not_legal_of_terminal hl, rfl⟩
    · cases h
  | patchServedModel servedModel modelRebound | patchLiveness l | patchOther | markResourceQuiescent observedAt
  | releaseIdempotency =>
    simp only [StoreCall.start] at h
    split at h
    · cases h
    · cases h
      exact .inl rfl
  | markAgentEnd timestamp observation tokenUsage outputEvidence finalText completion =>
    cases h
    exact .inl rfl

theorem isTerminal_toStatus (status : FinishStatus) : isTerminal status.toStatus = true := by cases status <;> rfl

/-! ## The head of the queue -/

theorem headFits_mono {finished finished' : Prop} {receipt : Option PersistedRunReceipt} {t : Task} (h : HeadFits finished receipt t) (hover : finished → finished') :
    HeadFits finished' receipt t := by
  unfold HeadFits at h ⊢
  split at h
  · trivial
  · exact h
  · exact { h with terminal := fun ht => ⟨hover (h.terminal ht).1, (h.terminal ht).2⟩ }
  · exact { h with finished := fun ha => hover (h.finished ha) }

/-- Nothing that was nonterminal is being written of a run that is over. -/
theorem headFits_of_over {finished finished' : Prop} {receipt receipt' : Option PersistedRunReceipt} {t : Task} (h : HeadFits finished receipt t)
    (hterminal : ∀ x ∈ receipt, isTerminal x.status = true) (hover : finished') : HeadFits finished' receipt' t := by
  unfold HeadFits at h ⊢
  split at h
  · trivial
  · exact h
  · next read next _ prunes after hp =>
    refine { h with nonterminal := fun hr => ?_, terminal := fun ht => ⟨hover, (h.terminal ht).2⟩ }
    rw [hterminal read (h.nonterminal hr)] at hr
    cases hr
  · exact { h with finished := fun _ => hover }

/-- No write is in flight of a receipt that there is not yet. -/
theorem headFits_of_none {finished finished' : Prop} {receipt' : Option PersistedRunReceipt} {t : Task} (h : HeadFits finished none t) (hover : ¬ finished) :
    HeadFits finished' receipt' t := by
  unfold HeadFits at h ⊢
  split at h
  · trivial
  · exact h
  · next read next _ prunes after hp =>
    exfalso
    cases ht : isTerminal read.status with
    | true => exact hover (h.terminal ht).1
    | false => cases h.nonterminal ht
  · exact { h with finished := fun ha => absurd (h.finished ha) hover }

namespace RunCell

variable {s s' : RunCell}

theorem Over.congr (h : s.Over) (hreceipt : s'.receipt = s.receipt) (hcreated : s'.created = s.created)
    (hcreates : ∀ r, s'.Creates r → s.Creates r) : s'.Over :=
  ⟨hcreated.trans h.created, fun r hr => h.creates r (hcreates r hr), hreceipt ▸ h.terminal⟩

theorem Orderly.over_of_terminal (h : s.Orderly) {x : PersistedRunReceipt} (hx : s.receipt = some x)
    (ht : isTerminal x.status = true) : s.Over := by
  refine ⟨(h.stored x hx).1, (h.stored x hx).2, fun y hy => ?_⟩
  cases hx.symm.trans hy
  exact ht

/-- The receipt stays, nothing new is created, and what the queue has at its head fits. -/
theorem Orderly.carry (h : s.Orderly) (hreceipt : s'.receipt = s.receipt) (hcreated : s'.created = s.created)
    (hcreates : ∀ r, s'.Creates r → s.Creates r) (hcreating : s'.creating ≠ none → s.creating ≠ none)
    (hunlocked : ∀ t ∈ s'.unlocked, t ∈ s.unlocked) (hmoved : s'.moved = s.moved)
    (htail : ∀ t ∈ s'.runLock.tail, t.phase = .waiting) (hhead : ∀ t ∈ s'.runLock.head?, HeadFits s.Over s.receipt t)
    (hdraining : s'.draining ≠ none → s.Over) : s'.Orderly := by
  have hover : s.Over → s'.Over := fun ho => ho.congr hreceipt hcreated hcreates
  refine ⟨?_, ?_, htail, fun t ht => ?_, fun t ht => ?_, fun hd => hover (hdraining hd), ?_, ?_⟩
  · rw [hreceipt, hcreated]
    exact fun x hx => ⟨(h.stored x hx).1, fun r hr => (h.stored x hx).2 r (hcreates r hr)⟩
  · rw [hcreated]
    exact fun hn => h.creates (hcreating hn)
  · rw [hreceipt]
    exact headFits_mono (hhead t ht) hover
  · have ht := h.unlocked t (hunlocked t ht)
    exact ⟨hover ht.1, ht.2⟩
  · rw [hmoved]
    exact fun hm => hover (h.moved hm)
  · rw [hmoved]
    exact h.single

/-- Only the queue moves, and what it has at its head fits. -/
theorem Orderly.frame (h : s.Orderly) (hreceipt : s'.receipt = s.receipt) (hcreated : s'.created = s.created)
    (hcreating : s'.creating = s.creating) (hunlocked : ∀ t ∈ s'.unlocked, t ∈ s.unlocked) (hmoved : s'.moved = s.moved)
    (htail : ∀ t ∈ s'.runLock.tail, t.phase = .waiting) (hhead : ∀ t ∈ s'.runLock.head?, HeadFits s.Over s.receipt t)
    (hdraining : s'.draining ≠ none → s.Over) : s'.Orderly :=
  h.carry hreceipt hcreated (fun r hr => by rwa [Creates, hcreating] at hr) (hcreating ▸ id) hunlocked hmoved htail hhead hdraining

theorem tail_tail {l : List Task} (h : ∀ t ∈ l.tail, t.phase = .waiting) : ∀ t ∈ l.tail.tail, t.phase = .waiting :=
  fun _ ht => h _ (mem_of_mem_tail ht)

theorem headFits_waiting {finished : Prop} {receipt : Option PersistedRunReceipt} {t : Task} (h : t.phase = .waiting) : HeadFits finished receipt t := by
  rw [HeadFits, h]
  trivial

section

variable (h : s.Orderly)
include h

theorem orderly_complete (task : Task) (receipt : Option PersistedRunReceipt) : (s.complete task receipt).Orderly :=
  h.frame rfl rfl rfl (fun _ ht => ht) rfl (tail_tail h.tail) (fun t ht => headFits_waiting (h.tail t (mem_of_mem_head? ht))) h.draining

theorem orderly_reject (task : Task) : (s.reject task).Orderly := by
  unfold reject
  split
  · exact h.frame rfl rfl rfl (fun _ ht => ht) rfl (tail_tail h.tail) (fun t ht => headFits_waiting (h.tail t (mem_of_mem_head? ht))) h.draining
  · exact orderly_complete h task none

theorem orderly_setPhase (task : Task) {phase : Phase} (hfits : HeadFits s.Over s.receipt { task with phase }) :
    (s.setPhase task phase).Orderly := by
  refine h.frame rfl rfl rfl (fun t ht => ht) rfl h.tail (fun _ ht => ?_) h.draining
  cases some.inj ht
  exact hfits

theorem orderly_call (task : Task) {call : StoreCall} {after : After} (hfits : Fits task.op call after) :
    (s.call task call after).Orderly := orderly_setPhase h task hfits

theorem orderly_enqueue (op : RunOp) (pass : Option ℕ) : (s.enqueue op pass).Orderly := by
  refine h.frame rfl rfl rfl (fun t ht => ht) rfl (fun t ht => ?_) (fun t ht => ?_) h.draining
  · have ht : t ∈ (s.runLock ++ [(⟨op, pass, .waiting⟩ : Task)]).tail := ht
    cases hl : s.runLock with
    | nil =>
      rw [hl] at ht
      cases ht
    | cons x l =>
      rw [hl, List.cons_append, tail_cons] at ht
      rcases mem_append.mp ht with ht | ht
      · exact h.tail t (by rw [hl]; exact ht)
      · cases mem_singleton.mp ht
        rfl
  · have ht : t ∈ (s.runLock ++ [(⟨op, pass, .waiting⟩ : Task)]).head? := ht
    cases hl : s.runLock with
    | nil =>
      rw [hl] at ht
      cases some.inj ht
      exact trivial
    | cons x l =>
      rw [hl] at ht
      exact h.head t (by rw [hl]; exact ht)

theorem orderly_markActive (startedAtMs : ℤ) : (s.markActive startedAtMs).Orderly := by
  unfold markActive
  split
  · exact h.frame rfl rfl rfl (fun t ht => ht) rfl h.tail h.head h.draining
  · exact h

theorem orderly_finishDrain : s.finishDrain.Orderly := by
  unfold finishDrain
  split
  · exact h
  · exact h.frame rfl rfl rfl (fun t ht => ht) rfl h.tail h.head fun hd => absurd rfl hd

end

variable (c : RunReceiptManagerConfig)

theorem orderly_terminalize (h : s.Orderly) (record : PersistedRunReceipt) (hover : s.Over) : (s.terminalize c record).Orderly := by
  unfold terminalize
  dsimp only
  split
  · exact h
  split
  · exact h.frame rfl rfl rfl (fun t ht => ht) rfl h.tail h.head fun _ => hover
  split <;> exact h.frame rfl rfl rfl (fun t ht => ht) rfl h.tail h.head fun _ => hover

/-! ### The operations -/

theorem fits_done {op : RunOp} (call : StoreCall) (h : ∀ outcome, op ≠ .finish outcome) : Fits op call .done :=
  ⟨nofun, fun outcome ho => absurd ho (h outcome)⟩

theorem fits_finishCall (s : RunCell) (now : ℤ) (captured : Captured) (outcome : RunFinishOutcome) (current : PersistedRunReceipt) :
    Fits (.finish outcome) (s.finishCall c now captured outcome current) .terminalize := by
  refine ⟨fun _ => ⟨_, _, rfl, isTerminal_toStatus _, fun o ho => ?_⟩, fun o _ => ⟨rfl, .inl rfl⟩⟩
  cases ho
  rfl

section

variable (h : s.Orderly)
include h

theorem orderly_acquireOp (now : ℤ) (captured : Captured) (task : Task) : (s.acquireOp c now captured task).Orderly := by
  unfold acquireOp
  split
  · next hop => exact orderly_call h task (fits_done _ fun o ho => by cases hop.symm.trans ho)
  · next hop => exact orderly_call h task (fits_done _ fun o ho => by cases hop.symm.trans ho)
  · next hop => exact orderly_call h task (fits_done _ fun o ho => by cases hop.symm.trans ho)
  · next hop =>
    split
    · exact orderly_complete h task none
    · split
      · exact orderly_complete h task _
      · exact orderly_call h task ⟨nofun, fun o ho => by cases hop.symm.trans ho⟩
  · next hop =>
    split
    · exact orderly_complete h task none
    split
    · exact orderly_complete h task none
    split
    · exact orderly_complete h task none
    · exact orderly_call h task (fits_done _ fun o ho => by cases hop.symm.trans ho)
  · next hop => exact orderly_call h task (fits_done _ fun o ho => by cases hop.symm.trans ho)
  · next outcome hop =>
    split
    · exact orderly_complete h task none
    split
    · exact orderly_complete h task _
    split
    · exact orderly_call h task ⟨nofun, fun o _ => ⟨rfl, .inr ⟨now, rfl⟩⟩⟩
    · exact orderly_call h task (hop ▸ fits_finishCall c s now captured outcome _)
  · next status errorCode hop =>
    split
    · exact orderly_complete h task none
    split
    · exact orderly_call h task (fits_done _ fun o ho => by cases hop.symm.trans ho)
    · exact orderly_call h task ⟨fun _ => ⟨_, _, rfl, isTerminal_toStatus status, fun o ho => (by cases hop.symm.trans ho)⟩,
        fun o ho => by cases hop.symm.trans ho⟩

theorem orderly_acquire (now : ℤ) (captured : Captured) : (s.acquire c now captured).Orderly := by
  unfold acquire
  split
  · split
    · exact orderly_acquireOp c h now captured _
    · exact h
  · exact h

theorem orderly_goOn (now : ℤ) (captured : Captured) (task : Task) {after : After} {written : PersistedRunReceipt}
    (hfits : PruneFits s.Over task.op written after) : (s.goOn c now captured task after written).Orderly := by
  cases after with
  | done => exact orderly_complete h task _
  | markedStarted startedAtMs => exact orderly_complete (orderly_markActive h startedAtMs) task _
  | startedThenFinish startedAtMs =>
    simp only [goOn]
    split
    · next current outcome hr hop =>
      exact orderly_call (orderly_markActive h startedAtMs) task (hop ▸ fits_finishCall c _ now captured outcome current)
    · exact orderly_complete (orderly_markActive h startedAtMs) task none
  | terminalize => exact orderly_complete (orderly_terminalize c h written (hfits.finished rfl)) task _

theorem orderly_pruned (ok : Bool) (now : ℤ) (captured : Captured) : (s.pruned c ok now captured).Orderly := by
  unfold pruned
  split
  · next task rest hl =>
    split
    · next written after hp =>
      have hhead := h.head task (by rw [hl]; rfl)
      rw [HeadFits, hp] at hhead
      split
      · exact orderly_goOn c h now captured task hhead
      · exact orderly_reject h task
    · exact h
  · exact h

/-- What a call writes of a receipt there is. -/
theorem writeFits_begin {op : RunOp} {call : StoreCall} {after : After} (hfits : Fits op call after) {now : ℤ}
    {read next : PersistedRunReceipt} (hread : s.receipt = some read) (hnext : call.start now (some read) = .writes next) :
    WriteFits s.Over s.receipt op read next call.prunes after := by
  refine ⟨fun _ => hread, fun ht => ⟨h.over_of_terminal hread ht, ?_⟩, fun ha => ?_, hfits.finishes⟩
  · rcases start_status hnext with hs | ⟨status, patch, -, hn, -⟩
    · rw [hs]
      exact ht
    · rw [hn] at ht
      cases ht
  · obtain ⟨status, patch, rfl, hstatus, hcode⟩ := hfits.terminal ha
    simp only [StoreCall.start] at hnext
    split at hnext
    · next hl =>
      cases hnext
      refine ⟨not_legal_of_terminal hl, by rw [applyTransition_status]; exact hstatus, fun outcome ho => ?_⟩
      rw [applyTransition_errorCode, hcode outcome ho]
      rfl
    · cases hnext

theorem orderly_begin (now : ℤ) (valid : Bool) : (s.begin now valid).Orderly := by
  unfold begin
  split
  · next task rest hl =>
    split
    · next call after hp =>
      have hfits := h.head task (by rw [hl]; rfl)
      rw [HeadFits, hp] at hfits
      split
      · next next read hw hr =>
        split
        · exact orderly_setPhase h task (writeFits_begin h hfits hr (by rw [← hr]; exact hw))
        · exact orderly_reject h task
      · exact h
      · exact orderly_complete h task _
      · exact orderly_reject h task
    · exact h
  · exact h

theorem orderly_rename : s.rename.Orderly := by
  unfold rename
  split
  · next task rest hl =>
    split
    · next read next renamed prunes after hp =>
      have hfits := h.head task (by rw [hl]; rfl)
      rw [HeadFits, hp] at hfits
      have hfile : ({ s with file := some next } : RunCell).Orderly :=
        h.frame rfl rfl rfl (fun t ht => ht) rfl h.tail h.head h.draining
      have hover : s.Over → ({ s with file := some next } : RunCell).Over := fun ho => ho.congr rfl rfl fun r hr => hr
      exact orderly_setPhase hfile task (headFits_mono (t := { task with phase := .writing read next true prunes after }) hfits hover)
    · exact h
  · exact h

end

/-! ### What lands -/

/-- A run that is over stays over, whatever becomes of its receipt. -/
theorem Orderly.stays_over (h : s.Orderly) (ho : s.Over) (ho' : s'.Over) (hlock : s'.runLock = s.runLock)
    (hunlocked : ∀ t ∈ s'.unlocked, t ∈ s.unlocked ∨ UnlockedFits t) (hmoved : s'.moved = s.moved) : s'.Orderly := by
  refine ⟨fun x _ => ⟨ho'.created, ho'.creates⟩, fun _ => ho'.created, ?_, fun t ht => ?_, fun t ht => ?_, fun _ => ho', fun _ => ho', ?_⟩
  · rw [hlock]
    exact h.tail
  · rw [hlock] at ht
    exact headFits_of_over (h.head t ht) ho.terminal ho'
  · exact ⟨ho', (hunlocked t ht).elim (fun ht => (h.unlocked t ht).2) id⟩
  · rw [hmoved]
    exact h.single

/-- A run that is not over has no call without the lock, no drain and no pass that finished it. -/
theorem Orderly.not_over (h : s.Orderly) (hn : ¬ s.Over) : s.unlocked = [] ∧ s.draining = none ∧ s.moved = [] := by
  refine ⟨eq_nil_iff_forall_not_mem.mpr fun t ht => hn (h.unlocked t ht).1, ?_, ?_⟩
  · by_contra hd
    exact hn (h.draining hd)
  · by_contra hm
    exact hn (h.moved hm)

theorem not_over_of_nonterminal {x : PersistedRunReceipt} (hx : s.receipt = some x) (hn : isTerminal x.status = false) :
    ¬ s.Over := fun ho => by
  rw [ho.terminal x hx] at hn
  cases hn

theorem moveOf_cases (task : Task) (after : After) : moveOf task after = [] ∨ after = .terminalize ∧ ∃ move, moveOf task after = [move] := by
  unfold moveOf
  split
  · exact .inr ⟨rfl, _, rfl⟩
  · exact .inl rfl

section

variable (h : s.Orderly)
include h

theorem orderly_settle (ok : Bool) : (s.settle ok).Orderly := by
  unfold settle
  split
  swap
  · exact h
  next task rest hl =>
  split
  swap
  · exact h
  next read next renamed prunes after hp =>
  have hfits := h.head task (by rw [hl]; rfl)
  rw [HeadFits, hp] at hfits
  cases ok with
  | false =>
    simp only [Bool.false_eq_true, if_false]
    split
    · exact h
    · exact orderly_reject h task
  | true =>
    simp only [if_true]
    have hmovedCases : s.moved ++ moveOf task after = s.moved ∨
        after = .terminalize ∧ (s.moved ++ moveOf task after).length = s.moved.length + 1 := by
      rcases moveOf_cases task after with hn | ⟨ha, move, hm⟩
      · rw [hn]
        exact .inl (append_nil _)
      · rw [hm]
        exact .inr ⟨ha, length_append⟩
    generalize s.moved ++ moveOf task after = moved at hmovedCases ⊢
    -- the run with what has landed, and its queue as `tasks`
    have key : ∀ tasks : List Task, (∀ t ∈ tasks.tail, t.phase = .waiting) →
        (∀ finished : Prop, (isTerminal next.status = true → finished) → ∀ t ∈ tasks.head?, HeadFits finished (some next) t) →
        ∀ answers, ({ s with file := some next, receipt := some next, moved, runLock := tasks, answers } : RunCell).Orderly := by
      intro tasks htail hhead answers
      cases ht : isTerminal read.status with
      | true =>
        obtain ⟨ho, hn⟩ := hfits.terminal ht
        have ho' : ({ s with file := some next, receipt := some next, moved, runLock := tasks, answers } : RunCell).Over :=
          ⟨ho.created, ho.creates, fun x hx => by cases hx; exact hn⟩
        have hm : moved = s.moved := by
          refine hmovedCases.resolve_right fun hm => ?_
          rw [(hfits.terminalize hm.1).1] at ht
          cases ht
        exact ⟨fun x _ => ⟨ho.created, ho.creates⟩, fun _ => ho.created, htail, fun t ht => hhead _ (fun _ => ho') t ht,
          fun t ht => ⟨ho', (h.unlocked t ht).2⟩, fun _ => ho', fun _ => ho', hm ▸ h.single⟩
      | false =>
        have hread := hfits.nonterminal ht
        obtain ⟨hcreated, hcreates⟩ := h.stored read hread
        obtain ⟨hu, hd, hm⟩ := h.not_over (not_over_of_nonterminal hread ht)
        have ho' : isTerminal next.status = true →
            ({ s with file := some next, receipt := some next, moved, runLock := tasks, answers } : RunCell).Over :=
          fun hn => ⟨hcreated, hcreates, fun x hx => by cases hx; exact hn⟩
        refine ⟨fun x _ => ⟨hcreated, hcreates⟩, fun _ => hcreated, htail, fun t ht => hhead _ ho' t ht, fun t ht => ?_, fun hd' => absurd hd hd',
          fun hm' => ?_, ?_⟩
        · rw [show ({ s with file := some next, receipt := some next, moved, runLock := tasks, answers } : RunCell).unlocked = s.unlocked from rfl, hu] at ht
          cases ht
        · rcases hmovedCases with hmc | ⟨ha, -⟩
          · exact absurd (hmc.trans hm) hm'
          · exact ho' (hfits.terminalize ha).2.1
        · show moved.length ≤ 1
          rcases hmovedCases with hmc | ⟨-, hlen⟩
          · rw [hmc, hm]
            exact Nat.zero_le _
          · rw [hlen, hm]
            exact le_refl 1
    have htail : ∀ t ∈ s.runLock.tail, t.phase = .waiting := h.tail
    split
    · refine key ({ task with phase := .pruning next after } :: s.runLock.tail) htail (fun finished hover t ht => ?_) s.answers
      cases some.inj ht
      exact ⟨fun ha => hover (hfits.terminalize ha).2.1, fun ha => (hfits.terminalize ha).2.2, fun o ho => (hfits.finishes o ho).2⟩
    · exact key s.runLock.tail (tail_tail htail) (fun finished _ t ht => headFits_waiting (htail t (mem_of_mem_head? ht))) _

theorem orderly_answerUnlocked (i : ℕ) (op : UnlockedOp) (result : Option PersistedRunReceipt) :
    (s.answerUnlocked i op result).Orderly := by
  have herase : ({ s with unlocked := s.unlocked.eraseIdx i } : RunCell).Orderly :=
    h.frame rfl rfl rfl (fun t ht => mem_of_mem_eraseIdx ht) rfl h.tail h.head h.draining
  unfold answerUnlocked
  dsimp only
  split
  · exact orderly_finishDrain herase
  · split
    · exact orderly_finishDrain herase
    · exact herase
  · exact herase

theorem orderly_unlock (now : ℤ) {op : UnlockedOp} (hop : ∀ call, op ≠ .store call) : (s.unlock now op).Orderly := by
  have hask : s.draining ≠ none →
      ({ s with unlocked := s.unlocked ++ [⟨op, .calling (.markResourceQuiescent now)⟩] } : RunCell).Orderly := by
    intro hd
    have ho := h.draining hd
    refine h.stays_over ho (ho.congr rfl rfl fun r hr => hr) rfl (fun t ht => ?_) rfl
    rcases mem_append.mp ht with ht | ht
    · exact .inl ht
    · cases mem_singleton.mp ht
      exact .inr ⟨now, rfl⟩
  unfold unlock
  dsimp only
  split
  · split
    · next hd =>
      refine hask fun hn => ?_
      rw [hn] at hd
      cases hd
    · exact h
  · split
    · next hd =>
      refine hask fun hn => ?_
      rw [hn] at hd
      cases hd
    · exact h
  · exact absurd rfl (hop _)

theorem orderly_unlockedBegin (i : ℕ) (now : ℤ) (valid : Bool) : (s.unlockedBegin i now valid).Orderly := by
  unfold unlockedBegin
  split
  · next op call hi =>
    obtain ⟨ho, observedAt, rfl⟩ := h.unlocked _ (mem_of_getElem? hi)
    split
    · next next read hw hr =>
      split
      · refine h.stays_over ho (ho.congr rfl rfl fun r hr => hr) rfl (fun t ht => ?_) rfl
        rcases mem_or_eq_of_mem_set ht with ht | rfl
        · exact .inl ht
        · right
          show isTerminal next.status = true
          rw [hr] at hw
          rcases start_status hw with hs | ⟨status, patch, hcall, -⟩
          · rw [hs]
            exact ho.terminal read hr
          · cases hcall
      · exact orderly_answerUnlocked h i op none
    · exact h
    · exact orderly_answerUnlocked h i op _
    · exact orderly_answerUnlocked h i op none
  · exact h

theorem orderly_unlockedRename (i : ℕ) : (s.unlockedRename i).Orderly := by
  unfold unlockedRename
  split
  · next op read next renamed hi =>
    obtain ⟨ho, hfits⟩ := h.unlocked _ (mem_of_getElem? hi)
    refine h.stays_over ho (ho.congr rfl rfl fun r hr => hr) rfl (fun t ht => ?_) rfl
    rcases mem_or_eq_of_mem_set ht with ht | rfl
    · exact .inl ht
    · exact .inr hfits
  · exact h

theorem orderly_unlockedSettle (i : ℕ) (ok : Bool) : (s.unlockedSettle i ok).Orderly := by
  unfold unlockedSettle
  split
  · next op read next renamed hi =>
    obtain ⟨ho, hfits⟩ := h.unlocked _ (mem_of_getElem? hi)
    split
    · apply orderly_answerUnlocked
      refine h.stays_over ho ⟨ho.created, ho.creates, fun x hx => ?_⟩ rfl (fun t ht => .inl ht) rfl
      cases hx
      exact hfits
    · split
      · exact h
      · exact orderly_answerUnlocked h i op none
  · exact h

theorem orderly_observeEvent (now : ℤ) (e : ObservedEvent) : (s.observeEvent now e).Orderly := by
  have hactive : ∀ a, ({ s with active := a } : RunCell).Orderly := fun a =>
    h.frame rfl rfl rfl (fun t ht => ht) rfl h.tail h.head h.draining
  unfold observeEvent
  dsimp only
  split
  · split
    · exact orderly_enqueue (hactive _) _ _
    split
    · exact orderly_enqueue (hactive _) _ _
    · exact hactive _
  · split
    · exact orderly_enqueue h _ _
    · exact h

end

/-! ### Creation and deletion -/

section

variable (h : s.Orderly)
include h

/-- There is no receipt yet, before or after. -/
theorem Orderly.unborn (hnone : s.receipt = none) (hover : ¬ s.Over) (hcreated : s'.created = true)
    (hlock : s'.runLock = s.runLock) (hunlocked : s'.unlocked = s.unlocked) (hdraining : s'.draining = s.draining) (hmoved : s'.moved = s.moved)
    (hcreates : ∀ x ∈ s'.receipt, ∀ r, ¬ s'.Creates r) : s'.Orderly := by
  obtain ⟨hu, hd, hm⟩ := h.not_over hover
  refine ⟨fun x hx => ⟨hcreated, hcreates x hx⟩, fun _ => hcreated, ?_, fun t ht => ?_, fun t ht => ?_, fun hd' => ?_, fun hm' => ?_, ?_⟩
  · rw [hlock]
    exact h.tail
  · rw [hlock] at ht
    exact headFits_of_none (hnone ▸ h.head t ht) hover
  · rw [hunlocked, hu] at ht
    cases ht
  · exact absurd (hdraining.trans hd) hd'
  · exact absurd (hmoved.trans hm) hm'
  · rw [hmoved]
    exact h.single

theorem Orderly.none_of_creates {r : PersistedRunReceipt} (hr : s.Creates r) : s.receipt = none := by
  cases hx : s.receipt with
  | none => rfl
  | some x => exact absurd hr ((h.stored x hx).2 r)

theorem orderly_beginRun (now : ℤ) (key : Option (ℤ × JsString × JsString)) : (s.beginRun now key).Orderly := by
  unfold beginRun
  split
  · exact h
  next hnew =>
  have hnone : s.receipt = none := by
    cases hx : s.receipt with
    | none => rfl
    | some x => exact absurd (h.stored x hx).1 hnew
  refine h.unborn hnone (fun ho => hnew ho.created) rfl rfl rfl rfl rfl fun x hx => ?_
  cases hnone.symm.trans hx

theorem orderly_createRename : s.createRename.Orderly := by
  unfold createRename
  split
  · next record renamed acceptedAtMs hc =>
    have hcreates : s.Creates record := ⟨renamed, acceptedAtMs, hc⟩
    have hnone := h.none_of_creates hcreates
    have hcreated : s.created = true := h.creates (by rw [hc]; exact some_ne_none _)
    refine h.unborn hnone (fun ho => ho.creates record hcreates) hcreated rfl rfl rfl rfl fun x hx => ?_
    cases hnone.symm.trans hx
  · exact h

theorem orderly_createSettle (ok : Bool) : (s.createSettle ok).Orderly := by
  unfold createSettle
  split
  · next record renamed acceptedAtMs hc =>
    have hcreates : s.Creates record := ⟨renamed, acceptedAtMs, hc⟩
    have hnone := h.none_of_creates hcreates
    have hcreated : s.created = true := h.creates (by rw [hc]; exact some_ne_none _)
    have hover : ¬ s.Over := fun ho => ho.creates record hcreates
    split
    · refine h.unborn hnone hover hcreated rfl rfl rfl rfl fun x _ r hr => ?_
      obtain ⟨_, _, hr⟩ := hr
      cases hr
    · split
      · exact h
      · refine h.unborn hnone hover hcreated rfl rfl rfl rfl fun x hx => ?_
        cases hnone.symm.trans hx
  · exact h

theorem orderly_createPruned (ok : Bool) : (s.createPruned ok).Orderly := by
  have hnone : ∀ s' : RunCell, s'.creating = none → (∀ r, s'.Creates r → s.Creates r) ∧ (s'.creating ≠ none → s.creating ≠ none) := by
    intro s' hc
    refine ⟨fun r hr => ?_, fun hn => absurd hc hn⟩
    obtain ⟨_, _, hr⟩ := hr
    rw [hc] at hr
    cases hr
  unfold createPruned
  split
  · split <;> exact h.carry rfl rfl (hnone _ rfl).1 (hnone _ rfl).2 (fun t ht => ht) rfl h.tail h.head h.draining
  · exact h

theorem orderly_delete : s.delete.Orderly := by
  unfold delete
  split
  · next hd =>
    obtain ⟨x, hx, ht⟩ := (any_eq_true _ _).mp hd
    have ho := h.over_of_terminal hx ht
    exact h.stays_over ho ⟨ho.created, ho.creates, fun y hy => by cases hy⟩ rfl (fun t ht => .inl ht) rfl
  · exact h

end

/-! ### Every step -/

/-- Calls past the manager are no part of a run. -/
def Managed : RunEvent → Prop
  | .unlock _ op => ∀ call, op ≠ .store call
  | _ => True

theorem orderly_step (h : s.Orderly) {e : RunEvent} (hm : Managed e) : (s.step c e).Orderly := by
  cases e with
  | beginRun now key => exact orderly_beginRun h now key
  | createRename => exact orderly_createRename h
  | createSettle ok => exact orderly_createSettle h ok
  | createPruned ok => exact orderly_createPruned h ok
  | observe now event => exact orderly_observeEvent h now event
  | attachLease lease =>
    simp only [step, attachLease]
    split
    · exact h.frame rfl rfl rfl (fun t ht => ht) rfl h.tail h.head h.draining
    · exact h
  | issue op => exact orderly_enqueue h op none
  | acquire now captured => exact orderly_acquire c h now captured
  | begin now valid => exact orderly_begin h now valid
  | rename => exact orderly_rename h
  | settle ok => exact orderly_settle h ok
  | pruned ok now captured => exact orderly_pruned c h ok now captured
  | unlock now op => exact orderly_unlock h now hm
  | unlockedBegin i now valid => exact orderly_unlockedBegin h i now valid
  | unlockedRename i => exact orderly_unlockedRename h i
  | unlockedSettle i ok => exact orderly_unlockedSettle h i ok
  | drained => exact orderly_finishDrain h
  | drainTimeout =>
    refine h.frame rfl rfl rfl (fun t ht => ht) rfl h.tail h.head fun hd => h.draining fun hn => hd ?_
    show s.draining.map _ = none
    rw [hn]
    rfl
  | delete => exact orderly_delete h
  | unlink =>
    simp only [step, unlink]
    split
    · exact h.frame rfl rfl rfl (fun t ht => ht) rfl h.tail h.head h.draining
    · exact h

theorem orderly_new : ({} : RunCell).Orderly :=
  ⟨fun x hx => (by cases hx), fun hn => absurd rfl hn, fun t ht => (by cases ht), fun t ht => (by cases ht), fun t ht => (by cases ht),
    fun hn => absurd rfl hn, fun hn => absurd rfl hn, Nat.zero_le 1⟩

/-! ### A terminal receipt is final -/

/-- A write in flight after the run is over is of a terminal receipt. -/
theorem Orderly.writes_terminal (h : s.Orderly) (ho : s.Over) {w : PersistedRunReceipt × PersistedRunReceipt} (hw : w ∈ s.writes) :
    isTerminal w.2.status = true := by
  rcases mem_writes.mp hw with ⟨t, ht, hw⟩ | ⟨t, ht, hw⟩
  · unfold Task.write at hw
    split at hw
    · next read next _ prunes after hp =>
      cases hw
      -- in the lock only the head writes
      have hhead : s.runLock.head? = some t := by
        cases hl : s.runLock with
        | nil => rw [hl] at ht; cases ht
        | cons u rest =>
          rw [hl] at ht
          refine congrArg some ((mem_cons.mp ht).resolve_right fun ht => ?_).symm
          cases hp.symm.trans (h.tail t (hl ▸ ht))
      have hfits := h.head t hhead
      rw [HeadFits, hp] at hfits
      by_contra hn
      have hr : isTerminal read.status = false := by
        by_contra hr
        exact hn (hfits.terminal (by simpa using hr)).2
      exact not_over_of_nonterminal (hfits.nonterminal hr) hr ho
    · cases hw
  · have hfits := (h.unlocked t ht).2
    unfold UnlockedTask.write at hw
    split at hw
    · next hp =>
      cases hw
      rwa [UnlockedFits, hp] at hfits
    · cases hw

theorem over_step (h : s.Orderly) (ho : s.Over) (e : RunEvent) : (s.step c e).Over := by
  have hsame {s' : RunCell} (hcreating : s'.creating = s.creating) (r : PersistedRunReceipt) (hr : s'.Creates r) : s.Creates r := by
    rwa [Creates, hcreating] at hr
  cases step_effect c s e with
  | quiet k => exact ho.congr k.receipt k.created k.creates
  | begun _ _ _ _ _ _ _ hreceipt _ hcreated hcreating => exact ho.congr hreceipt hcreated (hsame hcreating)
  | renamed _ _ _ _ hreceipt _ hcreated hcreating => exact ho.congr hreceipt hcreated (hsame hcreating)
  | settled read next _ hmem hreceipt _ hcreated hcreating =>
    refine ⟨hcreated.trans ho.created, fun r hr => ho.creates r (hsame hcreating r hr), fun x hx => ?_⟩
    cases hreceipt.symm.trans hx
    exact h.writes_terminal ho hmem
  | creating _ _ hnew => cases hnew.symm.trans ho.created
  | createRenamed record hcreates | createSettled record hcreates => exact absurd hcreates (ho.creates record)
  | deleted _ _ _ hreceipt _ hcreated hcreating | unlinked _ hreceipt _ hcreated hcreating =>
    refine ⟨hcreated.trans ho.created, fun r hr => ho.creates r (hsame hcreating r hr), fun x hx => ?_⟩
    cases hreceipt.symm.trans hx

/-- Once its receipt is terminal, a run has no other but a terminal one, whatever is asked
    of it, is in flight or is pruned. -/
theorem terminal_is_final {before after : List RunEvent}
    (hm : Run.Along (step c) (fun _ e => Managed e) {} (before ++ after))
    (ht : (before.foldl (step c) {}).receipt.any (fun x => isTerminal x.status) = true) :
    ∀ x ∈ ((before ++ after).foldl (step c) {}).receipt, isTerminal x.status = true := by
  rw [Run.along_append] at hm
  have h := Run.invariant (I := Orderly) (fun s e h hm => orderly_step c h hm) orderly_new hm.1
  obtain ⟨x, hx, hterminal⟩ := (any_eq_true _ _).mp ht
  have hafter := Run.invariant (I := fun s => s.Orderly ∧ s.Over)
    (fun s e hs hm => ⟨orderly_step c hs.1 hm, over_step c hs.1 hs.2 e⟩) ⟨h, h.over_of_terminal hx hterminal⟩ hm.2
  rw [foldl_append]
  exact hafter.2.terminal

/-- A run is refused before its dispatch, and then its start is reported. -/
theorem refused_run_is_final :
    let before : List RunEvent := [.beginRun 0 none, .createRename, .createSettle true, .createPruned true,
      .issue (.rejectBeforeDispatch .failed (js "busy")), .acquire 1 {}, .begin 1 true, .rename, .settle true]
    let after : List RunEvent := [.pruned true 2 {}, .issue .markStarted, .acquire 3 {}, .begin 3 true]
    ∀ x ∈ ((before ++ after).foldl (step ⟨60000, 3600000, 0, false⟩) {}).receipt, isTerminal x.status = true :=
  terminal_is_final _ (by simp [Run.Along, Managed]) (by decide +kernel)

end RunCell

end PiWebUi.RunReceipts
