/-
  PiWebUi.RunReceipts.Cessation — what is known of a run's cessation stays known.

  Once the cessation of a receipt is confirmed it stays so, and finished work does not turn
  unfinished, in every run whose steps are careful (`cessation_kept`): no `agent_end` is
  observed on a receipt that is confirmed, no call carries an unconfirmed liveness over it,
  and no write lands that was made before the confirmation. `late_agent_end` is a duplicate
  `agent_end` after the handler has returned.
-/

import PiWebUi.RunReceipts.RunEffects
import PiWebUi.Lib.Run

namespace PiWebUi.RunReceipts

open Lib Option

def PersistedRunReceipt.confirmed (r : PersistedRunReceipt) : Bool := r.cessation.any (·.state = .confirmed)

def PersistedRunReceipt.workState (r : PersistedRunReceipt) : RunWorkState := deriveRunWorkState r.status r.cessation

/-- The call does not take a confirmed cessation back. -/
def StoreCall.Keeps : StoreCall → Prop
  | .transition _ patch => ∀ l ∈ patch.liveness, l.cessation.state = .confirmed
  | .patchLiveness l => l.cessation.state = .confirmed
  | .markAgentEnd _ observation _ _ _ _ => observation = none
  | .patchServedModel _ _ | .patchOther | .markResourceQuiescent _ | .releaseIdempotency => True

instance StoreCall.Keeps.decidable (call : StoreCall) : Decidable call.Keeps := by
  unfold StoreCall.Keeps
  split <;> infer_instance

def RunCell.Careful (s : RunCell) (e : RunEvent) : Prop :=
  (∀ call ∈ s.callOf e, ∀ x ∈ s.receipt, x.confirmed = true → call.Keeps) ∧
    ∀ w ∈ s.writeOf e, ∃ x ∈ s.receipt, x.confirmed = true → w.1.confirmed = true

namespace RunReceiptManager

def Careful (s : RunReceiptManager) : ManagerEvent → Prop
  | .run run event => (s.cells run).Careful event
  | .restart _ _ _ => ∀ run, ∀ x ∈ (s.cells run).file, x.confirmed = true → isTerminal x.status = true
  | _ => True

instance decidableRun (s : RunReceiptManager) (run : ℕ) (event : RunEvent) : Decidable (s.Careful (.run run event)) :=
  inferInstanceAs (Decidable ((∀ call ∈ (s.cells run).callOf event, ∀ x ∈ (s.cells run).receipt, x.confirmed = true → call.Keeps) ∧
    ∀ w ∈ (s.cells run).writeOf event, ∃ x ∈ (s.cells run).receipt, x.confirmed = true → w.1.confirmed = true))

/-- What `s` knows of the runs, `s'` does. -/
def KeepsCessation (s s' : RunReceiptManager) : Prop :=
  ∀ run, ∀ x ∈ (s.cells run).receipt, ∀ y ∈ (s'.cells run).receipt,
    (x.confirmed = true → y.confirmed = true) ∧ (x.workState = .completed → y.workState ≠ .turnEndedUnconfirmed)

end RunReceiptManager

/-! ## One call -/

theorem confirmed_of_some {r : PersistedRunReceipt} {l : RunLivenessEvidence} (h : r.liveness = some l) :
    r.confirmed = decide (l.cessation.state = .confirmed) := by
  rw [PersistedRunReceipt.confirmed, PersistedRunReceipt.cessation, h]
  rfl

theorem confirmed_congr {r r' : PersistedRunReceipt} (h : r'.liveness = r.liveness) : r'.confirmed = r.confirmed := by
  rw [PersistedRunReceipt.confirmed, PersistedRunReceipt.cessation, h]
  rfl

theorem applyTransition_liveness (now : ℤ) (current : PersistedRunReceipt) (status : RunReceiptStatus) (patch : TransitionPatch) :
    (applyTransition now current status patch).liveness = patch.liveness.or current.liveness := by
  unfold applyTransition
  dsimp only
  split <;> rfl

theorem start_keeps {call : StoreCall} (h : call.Keeps) {now : ℤ} {read next : PersistedRunReceipt}
    (hnext : call.start now (some read) = .writes next) (hread : read.confirmed = true) : next.confirmed = true := by
  cases call with
  | transition status patch =>
    simp only [StoreCall.start] at hnext
    split at hnext
    · cases hnext
      cases hl : patch.liveness with
      | none =>
        rw [confirmed_congr (r := read)]
        · exact hread
        · rw [applyTransition_liveness, hl, none_or]
      | some l =>
        rw [confirmed_of_some (l := l)]
        · exact decide_eq_true (h l hl)
        · rw [applyTransition_liveness, hl, some_or]
    · cases hnext
  | patchServedModel servedModel modelRebound | patchOther | releaseIdempotency =>
    simp only [StoreCall.start] at hnext
    split at hnext
    · cases hnext
    · cases hnext
      exact hread
  | patchLiveness l =>
    simp only [StoreCall.start] at hnext
    split at hnext
    · cases hnext
    · cases hnext
      exact decide_eq_true h
  | markResourceQuiescent observedAt =>
    simp only [StoreCall.start] at hnext
    split at hnext
    · cases hnext
    · next hl =>
      cases hnext
      obtain ⟨l, hl⟩ := ne_none_iff_exists'.mp hl
      rw [confirmed_of_some (l := { l with cessation := ⟨.confirmed, .resourceQuiescence, observedAt⟩ })]
      · rfl
      · rw [confirmQuiescent, hl]
        rfl
  | markAgentEnd timestamp observation tokenUsage outputEvidence finalText completion =>
    obtain rfl : observation = none := h
    cases hnext
    exact hread

/-! ## One run -/

namespace RunCell

/-- What was confirmed is in the file too, and every write in flight keeps it. -/
structure Sound (s : RunCell) : Prop where
  writes : ∀ w ∈ s.writes, w.1.confirmed = true → w.2.confirmed = true
  backed : ∀ x ∈ s.receipt, x.confirmed = true → ∃ y ∈ s.file, y.confirmed = true
  fresh : s.created = false → s.receipt = none ∧ s.file = none
  creates : ∀ record, s.Creates record → s.created = true ∧ s.receipt = none

/-- All there is of the receipt is confirmed. -/
structure Known (s : RunCell) : Prop where
  receipt : ∀ x ∈ s.receipt, x.confirmed = true
  file : ∀ y ∈ s.file, y.confirmed = true
  created : s.created = true
  creates : ∀ record, ¬ s.Creates record

variable {s s' : RunCell}

theorem Sound.known (h : s.Sound) {x : PersistedRunReceipt} (hx : s.receipt = some x) (hc : x.confirmed = true) : s.Known := by
  refine ⟨fun y hy => ?_, fun y hy => ?_, ?_, fun record hr => ?_⟩
  · cases hx.symm.trans hy
    exact hc
  · obtain ⟨z, hz, hzc⟩ := h.backed x hx hc
    cases hz.symm.trans hy
    exact hzc
  · by_contra hn
    have := (h.fresh (by simpa using hn)).1
    rw [hx] at this
    cases this
  · have := (h.creates record hr).2
    rw [hx] at this
    cases this

theorem Sound.quiet (h : s.Sound) (k : s.Quiet s') : s'.Sound := by
  refine ⟨fun w hw => h.writes w (k.writes w hw), ?_, ?_, fun r hr => ?_⟩
  · rw [k.receipt, k.file]
    exact h.backed
  · rw [k.created, k.receipt, k.file]
    exact h.fresh
  · rw [k.created, k.receipt]
    exact h.creates r (k.creates r hr)

theorem Known.quiet (h : s.Known) (k : s.Quiet s') : s'.Known := by
  refine ⟨?_, ?_, ?_, fun r hr => h.creates r (k.creates r hr)⟩
  · rw [k.receipt]
    exact h.receipt
  · rw [k.file]
    exact h.file
  · rw [k.created]
    exact h.created

theorem creates_congr (h : s'.creating = s.creating) {record : PersistedRunReceipt} : s'.Creates record ↔ s.Creates record := by
  rw [Creates, Creates, h]

theorem Sound.effect {e : RunEvent} (h : s.Sound) (hc : s.Careful e) (k : s.Effect s' e) : s'.Sound := by
  cases k with
  | quiet k => exact h.quiet k
  | begun call now read next hcall hread hnext hreceipt hfile hcreated hcreating hwrites =>
    refine ⟨fun w hw => ?_, ?_, ?_, fun r hr => ?_⟩
    · rcases hwrites w hw with hw | rfl
      · exact h.writes w hw
      · exact fun hr => start_keeps (hc.1 call hcall read hread hr) hnext hr
    · rw [hreceipt, hfile]
      exact h.backed
    · rw [hcreated, hreceipt, hfile]
      exact h.fresh
    · rw [hcreated, hreceipt]
      exact h.creates r ((creates_congr hcreating).mp hr)
  | renamed read next hwrite hmem hreceipt hfile hcreated hcreating hwrites =>
    obtain ⟨x, hx, hkeep⟩ := hc.2 _ hwrite
    refine ⟨fun w hw => h.writes w (hwrites w hw), ?_, fun hn => ?_, fun r hr => ?_⟩
    · rw [hreceipt, hfile]
      intro y hy hyc
      cases hx.symm.trans hy
      exact ⟨next, rfl, h.writes _ hmem (hkeep hyc)⟩
    · have := (h.fresh (hcreated ▸ hn)).1
      rw [hx] at this
      cases this
    · rw [hcreated, hreceipt]
      exact h.creates r ((creates_congr hcreating).mp hr)
  | settled read next hwrite hmem hreceipt hfile hcreated hcreating hwrites =>
    obtain ⟨x, hx, hkeep⟩ := hc.2 _ hwrite
    refine ⟨fun w hw => h.writes w (hwrites w hw), ?_, fun hn => ?_, fun r hr => ?_⟩
    · rw [hreceipt, hfile]
      intro y hy hyc
      exact ⟨y, hy, hyc⟩
    · have := (h.fresh (hcreated ▸ hn)).1
      rw [hx] at this
      cases this
    · have := (h.creates r ((creates_congr hcreating).mp hr)).2
      rw [hx] at this
      cases this
  | creating now key hnew hreceipt hfile hcreated hcreates hwrites =>
    obtain ⟨hnone, hnoFile⟩ := h.fresh hnew
    refine ⟨fun w hw => h.writes w (hwrites w hw), ?_, fun hn => ?_, fun r hr => ⟨hcreated, hreceipt.trans hnone⟩⟩
    · rw [hreceipt, hfile]
      exact h.backed
    · rw [hcreated] at hn
      cases hn
  | createRenamed record hcreates hreceipt hfile hcreated hcreating hwrites =>
    obtain ⟨htrue, hnone⟩ := h.creates record hcreates
    refine ⟨fun w hw => h.writes w (hwrites w hw), ?_, fun hn => ?_, fun r hr => ?_⟩
    · rw [hreceipt, hnone]
      intro x hx
      cases hx
    · rw [hcreated, htrue] at hn
      cases hn
    · rw [hcreated, hreceipt]
      exact h.creates r (hcreating r hr)
  | createSettled record hcreates hreceipt hfile hcreated hcreating hwrites =>
    refine ⟨fun w hw => h.writes w (hwrites w hw), ?_, fun hn => ?_, fun r hr => absurd hr (hcreating r)⟩
    · rw [hreceipt, hfile]
      intro y hy hyc
      exact ⟨y, hy, hyc⟩
    · rw [hcreated, (h.creates record hcreates).1] at hn
      cases hn
  | deleted x hx hterminal hreceipt hfile hcreated hcreating hwrites =>
    refine ⟨fun w hw => h.writes w (hwrites w hw), ?_, fun hn => ⟨hreceipt, ?_⟩, fun r hr => ?_⟩
    · rw [hreceipt]
      intro y hy
      cases hy
    · rw [hfile]
      exact (h.fresh (hcreated ▸ hn)).2
    · rw [hcreated]
      exact ⟨(h.creates r ((creates_congr hcreating).mp hr)).1, hreceipt⟩
  | unlinked hnone hreceipt hfile hcreated hcreating hwrites =>
    refine ⟨fun w hw => h.writes w (hwrites w hw), ?_, fun _ => ⟨hreceipt, hfile⟩, fun r hr => ?_⟩
    · rw [hreceipt]
      intro y hy
      cases hy
    · rw [hcreated]
      exact ⟨(h.creates r ((creates_congr hcreating).mp hr)).1, hreceipt⟩

theorem Known.effect {e : RunEvent} (h : s.Known) (hs : s.Sound) (hc : s.Careful e) (k : s.Effect s' e) : s'.Known := by
  cases k with
  | quiet k => exact h.quiet k
  | begun call now read next hcall hread hnext hreceipt hfile hcreated hcreating hwrites =>
    refine ⟨?_, ?_, hcreated.trans h.created, fun r hr => h.creates r ((creates_congr hcreating).mp hr)⟩
    · rw [hreceipt]
      exact h.receipt
    · rw [hfile]
      exact h.file
  | renamed read next hwrite hmem hreceipt hfile hcreated hcreating hwrites =>
    obtain ⟨x, hx, hkeep⟩ := hc.2 _ hwrite
    refine ⟨?_, ?_, hcreated.trans h.created, fun r hr => h.creates r ((creates_congr hcreating).mp hr)⟩
    · rw [hreceipt]
      exact h.receipt
    · rw [hfile]
      rintro y ⟨⟩
      exact hs.writes _ hmem (hkeep (h.receipt x hx))
  | settled read next hwrite hmem hreceipt hfile hcreated hcreating hwrites =>
    obtain ⟨x, hx, hkeep⟩ := hc.2 _ hwrite
    have hnext := hs.writes _ hmem (hkeep (h.receipt x hx))
    refine ⟨?_, ?_, hcreated.trans h.created, fun r hr => h.creates r ((creates_congr hcreating).mp hr)⟩
    · rw [hreceipt]
      rintro y ⟨⟩
      exact hnext
    · rw [hfile]
      rintro y ⟨⟩
      exact hnext
  | creating now key hnew hreceipt hfile hcreated hcreates hwrites =>
    rw [h.created] at hnew
    cases hnew
  | createRenamed record hcreates | createSettled record hcreates => exact absurd hcreates (h.creates record)
  | deleted x hx hterminal hreceipt hfile hcreated hcreating hwrites =>
    refine ⟨?_, ?_, hcreated.trans h.created, fun r hr => h.creates r ((creates_congr hcreating).mp hr)⟩
    · rw [hreceipt]
      intro y hy
      cases hy
    · rw [hfile]
      exact h.file
  | unlinked hnone hreceipt hfile hcreated hcreating hwrites =>
    refine ⟨?_, ?_, hcreated.trans h.created, fun r hr => h.creates r ((creates_congr hcreating).mp hr)⟩
    · rw [hreceipt]
      intro y hy
      cases hy
    · rw [hfile]
      intro y hy
      cases hy

/-- A receipt that is recovered has no confirmed cessation but the one it was found with. -/
theorem recover_confirmed {now : ℤ} {x : PersistedRunReceipt} (h : (recover now x).confirmed = true) : recover now x = x := by
  unfold recover at h ⊢
  split at h
  · next ht => rw [if_pos ht]
  · cases hl : x.liveness with
    | none =>
      rw [PersistedRunReceipt.confirmed, PersistedRunReceipt.cessation] at h
      simp [hl] at h
    | some l =>
      rw [confirmed_of_some (l := { l with cessation := ⟨.unknown, .serverRestart, now⟩ }) (by simp [hl])] at h
      cases h

theorem Sound.restart (h : s.Sound) (now : ℤ) (loads persisted : Bool) : (s.restart now loads persisted).Sound := by
  refine ⟨fun w hw => ?_, fun x hx hxc => ?_, fun hn => ?_, fun r hr => ?_⟩
  · cases hw
  · cases loads with
    | false => cases hx
    | true =>
      obtain ⟨y, hy, rfl⟩ := map_eq_some_iff.mp hx
      have hsame := recover_confirmed hxc
      cases persisted with
      | true => exact ⟨recover now y, by simp [RunCell.restart, hy], hxc⟩
      | false => exact ⟨y, hy, hsame ▸ hxc⟩
  · have hfile := (h.fresh hn).2
    simp [RunCell.restart, hfile]
  · obtain ⟨_, _, hr⟩ := hr
    cases hr

theorem Known.restart (h : s.Known) {now : ℤ} {loads persisted : Bool}
    (hc : ∀ x ∈ s.file, x.confirmed = true → isTerminal x.status = true) : (s.restart now loads persisted).Known := by
  have hrecover : ∀ x ∈ s.file, recover now x = x := fun x hx => by rw [recover, if_pos (hc x hx (h.file x hx))]
  have hloaded : ∀ x ∈ (if loads then s.file.map (recover now) else none), x.confirmed = true := by
    intro x hx
    cases loads with
    | false => cases hx
    | true =>
      obtain ⟨y, hy, rfl⟩ := map_eq_some_iff.mp hx
      rw [hrecover y hy]
      exact h.file y hy
  refine ⟨hloaded, fun y hy => ?_, h.created, fun r hr => ?_⟩
  · cases persisted with
    | false => exact h.file y hy
    | true =>
      rcases or_eq_some_iff.mp hy with hy | ⟨-, hy⟩
      · exact hloaded y hy
      · exact h.file y hy
  · obtain ⟨_, _, hr⟩ := hr
    cases hr

theorem sound_new : ({} : RunCell).Sound :=
  ⟨fun w hw => (by cases hw), fun x hx => (by cases hx), fun _ => ⟨rfl, rfl⟩, fun r hr => (by obtain ⟨_, _, hr⟩ := hr; cases hr)⟩

end RunCell

/-! ## Every run -/

namespace RunReceiptManager

variable (c : RunReceiptManagerConfig)

theorem sound_step (s : RunReceiptManager) (e : ManagerEvent) (h : ∀ run, (s.cells run).Sound) (hc : s.Careful e) (run : ℕ) :
    ((s.step c e).cells run).Sound := by
  rcases cell_of_step c s e run with ⟨event, rfl, he⟩ | hq | ⟨now, loads, persisted, rfl, he⟩
  · rw [he]
    exact (h run).effect hc (RunCell.step_effect c _ event)
  · exact (h run).quiet hq
  · rw [he]
    exact (h run).restart now (loads run) (persisted run)

theorem known_step {s : RunReceiptManager} {e : ManagerEvent} {run : ℕ} (hs : (s.cells run).Sound) (hc : s.Careful e)
    (h : (s.cells run).Known) : ((s.step c e).cells run).Known := by
  rcases cell_of_step c s e run with ⟨event, rfl, he⟩ | hq | ⟨now, loads, persisted, rfl, he⟩
  · rw [he]
    exact h.effect hs hc (RunCell.step_effect c _ event)
  · exact h.quiet hq
  · rw [he]
    exact h.restart (hc run)

/-- Whatever the run, what is known at some time is known later. -/
theorem cessation_kept (es fs : List ManagerEvent) (h : Run.Along (step c) Careful new (es ++ fs)) :
    KeepsCessation (es.foldl (step c) new) ((es ++ fs).foldl (step c) new) := by
  obtain ⟨hes, hfs⟩ := Run.along_append.mp h
  have hsound : ∀ run, ((es.foldl (step c) new).cells run).Sound :=
    Run.invariant (I := fun s => ∀ run, (s.cells run).Sound) (fun s e hs hc run => sound_step c s e hs hc run)
      (fun _ => RunCell.sound_new) hes
  intro run x hx y hy
  rw [List.foldl_append] at hy
  have hconfirmed : x.confirmed = true → y.confirmed = true := by
    intro hxc
    have hboth := Run.invariant (I := fun s : RunReceiptManager => (∀ run, (s.cells run).Sound) ∧ (s.cells run).Known)
      (fun s e hs hc => ⟨sound_step c s e hs.1 hc, known_step c (hs.1 run) hc hs.2⟩) ⟨hsound, (hsound run).known hx hxc⟩ hfs
    exact hboth.2.receipt y hy
  refine ⟨hconfirmed, fun hx' hy' => ?_⟩
  have hxc : x.confirmed = true := by
    rw [PersistedRunReceipt.workState] at hx'
    unfold deriveRunWorkState at hx'
    split at hx'
    all_goals try cases hx'
    split at hx'
    · next hx'' => exact hx''
    · cases hx'
  have hyc : y.cessation.any (·.state = .confirmed) = true := hconfirmed hxc
  rw [PersistedRunReceipt.workState] at hy'
  unfold deriveRunWorkState at hy'
  split at hy'
  all_goals try cases hy'
  rw [hyc] at hy'
  cases hy'

/-! ## Runs -/

def fourMinutes : RunReceiptManagerConfig := ⟨240000, 21600000, 120000, true⟩

/-- One operation of run 0, from the lock to its end. -/
def operation (op : RunOp) : List ManagerEvent := [.run 0 (.issue op), .run 0 (.acquire 1 {}), .run 0 (.begin 1 true), .run 0 (.settle true),
  .run 0 (.pruned true 1 {})]

def created : List ManagerEvent := [.run 0 (.beginRun 0 none), .run 0 (.createSettle true), .run 0 (.createPruned true)]

/-- The handler returns, and the run is finished with that. -/
def returned : List ManagerEvent :=
  created ++ operation .markStarted ++ operation (.finish { cessationBasis := some .documentedHandlerReturn })

def agentEnd : List ManagerEvent :=
  [.run 0 (.observe 2 ⟨js "agent_end", none, ⟨0, 0, 0, 0⟩, none, .runtimeOrAdapter, none⟩), .run 0 (.acquire 2 {}), .run 0 (.begin 2 true),
    .run 0 (.settle true)]

/-- A run that has returned is told the model it was served by, and its key is released. -/
theorem cessation_kept_returned : KeepsCessation (returned.foldl (step fourMinutes) new)
      ((returned ++ (operation (.recordServedModel (some (js "m")) false) ++ operation (.rejectBeforeDispatch .failed []))).foldl
        (step fourMinutes) new) := by
  apply cessation_kept
  simp only [returned, created, operation, List.cons_append, List.nil_append]
  repeat' first | exact trivial | refine ⟨by decide +kernel, ?_⟩

/-- It comes after the run was finished: finished work is unfinished. -/
theorem late_agent_end :
    ¬ KeepsCessation (returned.foldl (step fourMinutes) new) ((returned ++ agentEnd).foldl (step fourMinutes) new) := by
  intro h
  have h0 := (h 0 _ rfl _ rfl).2
  revert h0
  decide +kernel

end RunReceiptManager

end PiWebUi.RunReceipts
