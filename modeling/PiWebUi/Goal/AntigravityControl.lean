/-
  PiWebUi.Goal.AntigravityControl — what a sweep's write finds in the record.

  A visit decides on a copy of the record and merges its result into a second copy, read by
  `patch`. Nothing tells it that either is old. `FileInv` says what the file is while patches
  do not overlap: the record as last written, or torn by the one write under way. `CopyInv`
  says what a copy is still good for: the fields that no later write had. So a status lands on
  the goal it was computed from when no patch since the copy had its status, arming or
  creation (`Cond`).
-/

import PiWebUi.Goal.AntigravityGoal
import PiWebUi.Lib.InFlight
import PiWebUi.Lib.Run
import Mathlib.Tactic.SplitIfs

namespace PiWebUi.Goal.Antigravity

open Lib List Option

/-! ## The file while patches do not overlap -/

/-- The merge that a patch under way is about to write, beside its date. -/
def Phase.Merges (last : AntigravityGoalRecord) : Phase → Prop
  | .patchTruncate _ p next | .patchWrite _ p next _ => ∀ f, f ≠ .updatedAt → next f = merge last p f
  | _ => True

/-- The phase of a visit or of a control request. -/
def State.at (s : State) (i : ℕ) (ph : Phase) : Prop := s.procs[i]? = some ph

structure FileInv (s : State) : Prop where
  whole : ∀ r, s.file = .record r → s.last = r
  absent : s.file = .absent → s.last = fun _ => none
  torn : s.file = .torn → ∃ i k p next n, s.at i (.patchWrite k p next n)
  one : ∀ i j ph qh, s.at i ph → s.at j qh → ph.patching = true → qh.patching = true → i = j
  merges : ∀ i ph, s.at i ph → ph.Merges s.last
  truncated : ∀ i k p next n, s.at i (.patchWrite k p next n) → s.truncations = n

theorem merge_stamped (r : AntigravityGoalRecord) (p : Patch) (v : Option Value) {f : Field} (h : f ≠ .updatedAt) :
    merge r (p ++ [(.updatedAt, v)]) f = merge r p f := by
  have hf : (f == Field.updatedAt) = false := beq_eq_false_iff_ne.mpr h
  unfold merge
  rw [lookup_append]
  rw [lookup_cons, hf, lookup_nil]
  simp

variable {i : ℕ} {s : State} {next : AntigravityGoalRecord} {phase : Phase}

theorem at_goto {j : ℕ} {ph x : Phase} (h : (s.goto i ph).at j x) : j = i ∧ x = ph ∨ j ≠ i ∧ s.at j x :=
  InFlight.get_set h

theorem at_other {j : ℕ} {x : Phase} (ph : Phase) (hj : j ≠ i) (h : s.at j x) : (s.goto i ph).at j x :=
  InFlight.set_other ph hj h

theorem at_self {old : Phase} (ph : Phase) (h : s.at i old) : (s.goto i ph).at i ph :=
  InFlight.set_self ph h

theorem at_append {new : Phase} {x : Phase} (h : ({ s with procs := s.procs ++ [new] } : State).at i x) :
    s.at i x ∨ x = new :=
  (InFlight.get_append h).imp_right (·.2)

/-- Nothing but the phase of one changes, and it is not writing before or after. -/
theorem fileInv_goto {old ph : Phase} (hi : FileInv s) (h : s.at i old) (ho : old.patching = false)
    (hp : ph.patching = false) : FileInv (s.goto i ph) where
  whole := hi.whole
  absent := hi.absent
  torn ht := by
    obtain ⟨j, k, p, next, n, hj⟩ := hi.torn ht
    refine ⟨j, k, p, next, n, at_other ph ?_ hj⟩
    rintro rfl
    cases h.symm.trans hj
    cases ho
  one a b x y hx hy px py := by
    obtain ⟨rfl, rfl⟩ | ⟨-, hx⟩ := at_goto hx
    · rw [hp] at px
      cases px
    obtain ⟨rfl, rfl⟩ | ⟨-, hy⟩ := at_goto hy
    · rw [hp] at py
      cases py
    exact hi.one a b x y hx hy px py
  merges j x hx := by
    obtain ⟨rfl, rfl⟩ | ⟨-, hx⟩ := at_goto hx
    · cases x <;> first | exact True.intro | cases hp
    · exact hi.merges j x hx
  truncated j k p next n hx := by
    obtain ⟨rfl, rfl⟩ | ⟨-, hx⟩ := at_goto hx
    · cases hp
    · exact hi.truncated j k p next n hx

/-- The fields that the file invariant reads. -/
theorem FileInv.frame {t : State} (hi : FileInv s) (hf : t.file = s.file) (hl : t.last = s.last)
    (hn : t.truncations = s.truncations) (hp : t.procs = s.procs) : FileInv t := by
  have hat : ∀ i x, t.at i x ↔ s.at i x := by
    intro i x
    unfold State.at
    rw [hp]
  refine ⟨?_, ?_, ?_, ?_, ?_, ?_⟩
  · intro r h
    rw [hl]
    exact hi.whole r (hf ▸ h)
  · intro h
    rw [hl]
    exact hi.absent (hf ▸ h)
  · intro h
    obtain ⟨i, k, p, next, n, hx⟩ := hi.torn (hf ▸ h)
    exact ⟨i, k, p, next, n, (hat _ _).mpr hx⟩
  · intro i j x y hx hy
    exact hi.one i j x y ((hat _ _).mp hx) ((hat _ _).mp hy)
  · intro i x hx
    rw [hl]
    exact hi.merges i x ((hat _ _).mp hx)
  · intro i k p next n hx
    rw [hn]
    exact hi.truncated i k p next n ((hat _ _).mp hx)

theorem fileInv_patchRead {k : Write} {p : Patch} (hi : FileInv s) (h : s.at i (.patchRead k p))
    (hc : ∀ ph ∈ s.procs, ph.patching = false) (a : Answers) : FileInv (advance s i (.patchRead k p) a) where
  whole := hi.whole
  absent := hi.absent
  torn ht := by
    obtain ⟨j, _, _, _, _, hj⟩ := hi.torn ht
    cases hc _ (mem_of_getElem? hj)
  one a b x y hx hy px py := by
    obtain ⟨rfl, -⟩ | ⟨-, hx⟩ := at_goto hx
    · obtain ⟨rfl, -⟩ | ⟨-, hy⟩ := at_goto hy
      · rfl
      · rw [hc y (mem_of_getElem? hy)] at py
        cases py
    · rw [hc x (mem_of_getElem? hx)] at px
      cases px
  merges j x hx := by
    obtain ⟨rfl, rfl⟩ | ⟨-, hx⟩ := at_goto hx
    · intro f hf
      rw [merge_stamped _ _ _ hf]
      -- what is read is what was written last
      show merge (s.file.read.getD fun _ => none) p f = merge s.last p f
      cases hfile : s.file with
      | record r =>
        rw [hi.whole r hfile]
        rfl
      | absent =>
        rw [hi.absent hfile]
        rfl
      | torn =>
        obtain ⟨j, _, _, _, _, hj⟩ := hi.torn hfile
        cases hc _ (mem_of_getElem? hj)
    · exact hi.merges j x hx
  truncated j k p next n hx := by
    obtain ⟨-, heq⟩ | ⟨-, hx⟩ := at_goto hx
    · cases heq
    · exact hi.truncated j k p next n hx

theorem fileInv_patchTruncate {k : Write} {p : Patch} (hi : FileInv s)
    (h : s.at i (.patchTruncate k p next)) (a : Answers) : FileInv (advance s i (.patchTruncate k p next) a) where
  whole r hr := by cases hr
  absent hr := by cases hr
  torn _ := ⟨i, k, p, next, s.truncations + 1, at_self (s := { s with file := .torn, truncations := s.truncations + 1 }) _ h⟩
  one a b x y hx hy px py := by
    obtain ⟨rfl, -⟩ | ⟨-, hx'⟩ := at_goto hx
    · obtain ⟨rfl, -⟩ | ⟨-, hy'⟩ := at_goto hy
      · rfl
      · exact hi.one _ _ _ y h hy' rfl py
    · obtain ⟨rfl, -⟩ | ⟨-, hy'⟩ := at_goto hy
      · exact hi.one _ _ x _ hx' h px rfl
      · exact hi.one a b x y hx' hy' px py
  merges j x hx := by
    obtain ⟨rfl, rfl⟩ | ⟨-, hx'⟩ := at_goto hx
    · have merges := hi.merges j _ h
      exact merges
    · exact hi.merges j x hx'
  truncated j k' p' next' n hx := by
    obtain ⟨-, heq⟩ | ⟨hne, hx'⟩ := at_goto hx
    · cases heq
      rfl
    · exact absurd (hi.one _ _ _ _ hx' h rfl rfl) hne

/-- The end of the only write: it is whole, and the record is the merge. -/
theorem fileInv_patchWrite {k : Write} {p : Patch} {n : ℕ} (hi : FileInv s) (h : s.at i (.patchWrite k p next n)) (a : Answers) :
    FileInv (advance s i (.patchWrite k p next n) a) ∧
      advance s i (.patchWrite k p next n) a = (s.land k p next true).goto i (.wrote k) := by
  have same : advance s i (.patchWrite k p next n) a = (s.land k p next true).goto i (.wrote k) := by
    show (s.land k p next (s.truncations = n || !a.garbled)).goto i (.wrote k) = _
    rw [hi.truncated i k p next n h]
    simp
  refine ⟨?_, same⟩
  rw [same]
  have others : ∀ j x, j ≠ i → s.at j x → x.patching = false := by
    intro j x hj hx
    by_contra hp
    exact hj (hi.one j i x _ hx h (by simpa using hp) rfl)
  refine ⟨?_, ?_, ?_, ?_, ?_, ?_⟩
  · intro r hr
    cases hr
    rfl
  · intro hr
    cases hr
  · intro hr
    cases hr
  · intro a b x y hx _ px _
    obtain ⟨rfl, rfl⟩ | ⟨hj, hx⟩ := at_goto hx
    · cases px
    · rw [others a x hj hx] at px
      cases px
  · intro j x hx
    obtain ⟨rfl, rfl⟩ | ⟨hj, hx⟩ := at_goto hx
    · exact True.intro
    · have hp := others j x hj hx
      cases x <;> first | exact True.intro | cases hp
  · intro j k' p' next' n' hx
    obtain ⟨-, heq⟩ | ⟨hj, hx'⟩ := at_goto hx
    · cases heq
    · cases others j _ hj hx'

/-! ## The steps that do not touch the file -/

def Due.copy : Due → Copy
  | .owed c _ => c
  | .retry w | .next w => w.copy

def Phase.copy : Phase → Option Copy
  | .recordRead c => c
  | .turn c | .turnRead c _ => some c
  | .verify w => some w.copy
  | .armedTurn d | .armedRecord d | .armedRead d _ | .dispatch d => some d.copy
  | .patchRead k _ | .patchTruncate k _ _ | .patchWrite k _ _ _ | .wrote k => k.copy
  | .record | .existing _ | .resumeDispatch | .done => none

/-- Past the check that the record is running and armed. -/
def Phase.checked : Phase → Bool
  | .record | .recordRead _ => false
  | _ => true

/-- The phase changes, and with it at most what was accepted; the copy stays. -/
def Quiet (s : State) (i : ℕ) (phase : Phase) (t : State) : Prop :=
  ∃ ph accepted, t = ({ s with accepted } : State).goto i ph ∧ ph.patching = false ∧ ph.checked = true ∧
    ∀ c, ph.copy = some c → phase.copy = some c ∧ (phase.checked = false → armed c.record = true)

section Quiet

variable {s : State} {i : ℕ} {phase : Phase}

theorem quiet_goto {ph : Phase} (hp : ph.patching = false) (hk : ph.checked = true)
    (hc : ∀ c, ph.copy = some c → phase.copy = some c ∧ (phase.checked = false → armed c.record = true)) :
    Quiet s i phase (s.goto i ph) :=
  ⟨ph, s.accepted, rfl, hp, hk, hc⟩

theorem quiet_done : Quiet s i phase (s.goto i .done) := quiet_goto rfl rfl nofun

theorem quiet_patch {k : Write} (hk : phase.checked = true) (hc : k.copy = none ∨ k.copy = phase.copy) :
    Quiet s i phase (s.patch i k) := by
  refine quiet_goto rfl rfl fun c h => ⟨?_, fun hn => by rw [hk] at hn; cases hn⟩
  obtain hc | hc := hc
  · rw [show (Phase.patchRead k (k.patch s.now)).copy = k.copy from rfl, hc] at h
    cases h
  · exact hc ▸ h

theorem quiet_checkArmed {d : Due} (hk : phase.checked = true) (hc : phase.copy = some d.copy) :
    Quiet s i phase (s.checkArmed i d) := by
  unfold State.checkArmed
  split_ifs
  · exact quiet_done
  · exact quiet_goto rfl rfl fun c h => ⟨by rw [hc]; exact h, fun hn => by rw [hk] at hn; cases hn⟩

theorem quiet_process {w : Work} (hk : phase.checked = true) (hc : phase.copy = some w.copy) : Quiet s i phase (s.process i w) := by
  unfold State.process
  split_ifs
  · exact quiet_patch hk (.inr hc.symm)
  · exact quiet_checkArmed hk hc
  · exact quiet_goto rfl rfl fun c h => ⟨by rw [hc]; exact h, fun hn => by rw [hk] at hn; cases hn⟩

/-- Every phase but the read of the record and the three of a patch. -/
def Phase.isQuiet : Phase → Bool
  | .record | .patchRead _ _ | .patchTruncate _ _ _ | .patchWrite _ _ _ _ => false
  | _ => true

theorem advance_quiet (h : phase.isQuiet = true) (a : Answers) : Quiet s i phase (advance s i phase a) := by
  cases phase with
  | record | patchRead | patchTruncate | patchWrite => cases h
  | recordRead copy =>
    cases copy with
    | none => exact quiet_done
    | some c =>
      simp only [advance]
      split_ifs with hc
      · exact quiet_done
      · refine quiet_goto rfl rfl fun c' h => ⟨h, fun _ => ?_⟩
        cases h
        by_contra ha
        exact hc (by simp [ha])
  | turn c | armedRecord d => exact quiet_goto rfl rfl fun c h => ⟨h, nofun⟩
  | turnRead c turn =>
    simp only [advance]
    split
    · split_ifs
      · exact quiet_checkArmed rfl rfl
      · exact quiet_done
    · split_ifs
      · exact quiet_patch rfl (.inr rfl)
      · exact quiet_process rfl rfl
  | verify w =>
    simp only [advance]
    split_ifs <;> exact quiet_patch rfl (.inr rfl)
  | armedTurn d | armedRead d fresh =>
    simp only [advance]
    split_ifs
    · exact quiet_goto rfl rfl fun c h => ⟨h, nofun⟩
    · exact quiet_done
  | dispatch d =>
    simp only [advance]
    have after : ∀ {k : Write}, k.copy = some d.copy →
        Quiet s i (.dispatch d) (({ s with accepted := s.accepted ++ [d.turnAt] } : State).patch i k) :=
      fun {k} hk => ⟨_, _, rfl, rfl, rfl, fun c h => ⟨hk.symm.trans h, nofun⟩⟩
    split_ifs
    · cases d with
      | owed c turnAt | retry w => exact after rfl
      | next w => exact ⟨_, _, rfl, rfl, rfl, nofun⟩
    · cases d with
      | next w => exact quiet_patch rfl (.inr rfl)
      | _ => exact quiet_done
  | wrote k =>
    simp only [advance]
    split
    · exact quiet_process rfl rfl
    · exact quiet_checkArmed rfl rfl
    · split_ifs
      · exact quiet_patch rfl (.inl rfl)
      · exact quiet_goto rfl rfl nofun
    · exact quiet_done
  | existing request =>
    simp only [advance]
    split
    · exact quiet_patch rfl (.inl rfl)
    · exact quiet_patch rfl (.inl rfl)
    · exact quiet_done
    · split_ifs
      · exact quiet_done
      · exact quiet_patch rfl (.inl rfl)
    · exact quiet_patch rfl (.inl rfl)
  | resumeDispatch =>
    simp only [advance]
    split
    · exact quiet_patch rfl (.inl rfl)
    · exact quiet_patch rfl (.inl rfl)
    · exact quiet_done
  | done => exact quiet_done

end Quiet

/-- The phase that a step takes on. -/
def State.phaseOf (s : State) : Step → Option Phase
  | .proc i _ => s.procs[i]?
  | _ => none

/-- A patch reads the record while no other is between its read and the end of its write. -/
def PatchesApart (s : State) (e : Step) : Prop :=
  match s.phaseOf e with
  | some (.patchRead _ _) => ∀ ph ∈ s.procs, ph.patching = false
  | _ => True

instance (s : State) (e : Step) : Decidable (PatchesApart s e) := by
  unfold PatchesApart
  split <;> infer_instance

theorem fileInv_quiet {t : State} (hi : FileInv s) (h : s.at i phase) (hp : phase.patching = false)
    (hq : Quiet s i phase t) : FileInv t := by
  obtain ⟨ph, accepted, rfl, hn, -, -⟩ := hq
  exact fileInv_goto (hi.frame (t := { s with accepted }) rfl rfl rfl rfl) h hp hn

theorem fileInv_new {ph : Phase} (hi : FileInv s) (hp : ph.patching = false) : FileInv { s with procs := s.procs ++ [ph] } where
  whole := hi.whole
  absent := hi.absent
  torn ht := by
    obtain ⟨i, k, p, next, n, hx⟩ := hi.torn ht
    exact ⟨i, k, p, next, n, InFlight.append_left ph hx⟩
  one a b x y hx hy px py := by
    obtain hx | rfl := at_append hx
    · obtain hy | rfl := at_append hy
      · exact hi.one a b x y hx hy px py
      · rw [hp] at py
        cases py
    · rw [hp] at px
      cases px
  merges j x hx := by
    obtain hx | rfl := at_append hx
    · exact hi.merges j x hx
    · cases x <;> first | exact True.intro | cases hp
  truncated j k p next n hx := by
    obtain hx | rfl := at_append hx
    · exact hi.truncated j k p next n hx
    · cases hp

theorem fileInv_advance (hi : FileInv s) (h : s.at i phase) (a : Answers)
    (hc : PatchesApart s (.proc i a)) : FileInv (advance s i phase a) := by
  cases hq : phase.isQuiet with
  | true =>
    apply fileInv_quiet hi h _ (advance_quiet hq a)
    cases phase <;> first | rfl | cases hq
  | false =>
    cases phase with
    | record => exact fileInv_goto hi h rfl rfl
    | patchRead k p =>
      apply fileInv_patchRead hi h
      unfold PatchesApart at hc
      rw [show s.phaseOf (.proc i a) = some (.patchRead k p) from h] at hc
      exact hc
    | patchTruncate k p next => exact fileInv_patchTruncate hi h a
    | patchWrite k p next n => exact (fileInv_patchWrite hi h a).1
    | _ => cases hq

theorem fileInv_step (s : State) (e : Step) (hi : FileInv s) (hc : PatchesApart s e) : FileInv (step s e) := by
  cases e with
  | tick ms | turnCompletes t | runningChanges running => exact hi.frame rfl rfl rfl rfl
  | sweep | control request => exact fileInv_new hi rfl
  | proc i a =>
    simp only [step]
    split
    · rename_i phase h
      exact fileInv_advance hi h a hc
    · exact hi
  | fails i =>
    simp only [step]
    split
    · rename_i phase h
      split_ifs with hf
      · refine fileInv_goto hi h ?_ rfl
        cases phase <;> first | rfl | cases hf
      · exact hi
    · exact hi

/-! ## What a copy is good for -/

structure CopyInv (s : State) : Prop where
  numbered : ∀ f, s.wrote f ≤ s.landings
  copies : ∀ i ph c, s.at i ph → ph.copy = some c → c.landings ≤ s.landings ∧
    ∀ f, s.wrote f ≤ c.landings → s.last f = c.record f
  armed : ∀ i ph c, s.at i ph → ph.copy = some c → ph.checked = true → armed c.record = true

theorem CopyInv.frame {t : State} (hi : CopyInv s) (hl : t.last = s.last) (hn : t.landings = s.landings)
    (hw : t.wrote = s.wrote) (hp : ∀ i ph c, t.at i ph → ph.copy = some c → s.at i ph) : CopyInv t where
  numbered f := by
    rw [hw, hn]
    exact hi.numbered f
  copies i ph c h hc := by
    rw [hl, hn, hw]
    exact hi.copies i ph c (hp i ph c h hc) hc
  armed i ph c h hc := hi.armed i ph c (hp i ph c h hc) hc

theorem copyInv_goto {ph : Phase} (hi : CopyInv s) (h : s.at i phase) (hc : ∀ c, ph.copy = some c → phase.copy = some c ∧
      (ph.checked = true → phase.checked = false → PiWebUi.Goal.Antigravity.armed c.record = true)) :
    CopyInv (s.goto i ph) where
  numbered := hi.numbered
  copies j x c hx hxc := by
    obtain ⟨rfl, rfl⟩ | ⟨-, hx⟩ := at_goto hx
    · exact hi.copies j phase c h (hc c hxc).1
    · exact hi.copies j x c hx hxc
  armed j x c hx hxc hk := by
    obtain ⟨rfl, rfl⟩ | ⟨-, hx⟩ := at_goto hx
    · obtain ⟨hold, hnew⟩ := hc c hxc
      cases hp : phase.checked with
      | true => exact hi.armed j phase c h hold hp
      | false => exact hnew hk hp
    · exact hi.armed j x c hx hxc hk

theorem copyInv_quiet {t : State} (hi : CopyInv s) (h : s.at i phase) (hq : Quiet s i phase t) : CopyInv t := by
  obtain ⟨ph, accepted, rfl, -, -, hc⟩ := hq
  have hi : CopyInv { s with accepted } := hi.frame rfl rfl rfl fun _ _ _ h _ => h
  exact copyInv_goto hi h fun c hn => ⟨(hc c hn).1, fun _ => (hc c hn).2⟩

/-- The read: the copy is the record as last written. -/
theorem copyInv_record (hf : FileInv s) (hi : CopyInv s) (a : Answers) : CopyInv (advance s i .record a) where
  numbered := hi.numbered
  copies j x c hx hxc := by
    obtain ⟨rfl, rfl⟩ | ⟨-, hx⟩ := at_goto hx
    · obtain ⟨r, hr, rfl⟩ := map_eq_some_iff.mp hxc
      refine ⟨Nat.le_refl _, fun f _ => ?_⟩
      unfold File.read at hr
      split at hr
      · rename_i r' hfile
        cases hr
        show s.last f = r f
        rw [hf.whole r hfile]
      · cases hr
    · exact hi.copies j x c hx hxc
  armed j x c hx hxc hk := by
    obtain ⟨rfl, rfl⟩ | ⟨-, hx⟩ := at_goto hx
    · cases hk
    · exact hi.armed j x c hx hxc hk

/-- A write: the fields of its patch are marked, the others stay as they were. -/
theorem copyInv_land {k : Write} {p : Patch} {n : ℕ} (hf : FileInv s)
    (hi : CopyInv s) (h : s.at i (.patchWrite k p next n)) : CopyInv ((s.land k p next true).goto i (.wrote k)) := by
  have stays : CopyInv (s.land k p next true) := by
    refine ⟨?_, ?_, hi.armed⟩
    · intro f
      have := hi.numbered f
      simp only [State.land]
      split_ifs <;> omega
    · intro j x c hx hxc
      obtain ⟨hle, hsame⟩ := hi.copies j x c hx hxc
      refine ⟨Nat.le_succ_of_le hle, ?_⟩
      intro f hw
      simp only [State.land] at hw ⊢
      split_ifs at hw with hp
      · exact absurd hw (by omega)
      · rw [Bool.or_eq_true, not_or, decide_eq_true_eq] at hp
        have untouched : p.lookup f = none := not_isSome_iff_eq_none.mp hp.1
        rw [← hsame f hw]
        show next f = s.last f
        rw [hf.merges i _ h f hp.2, merge, untouched]
        rfl
  exact copyInv_goto stays h fun c hc => ⟨hc, nofun⟩

theorem copyInv_advance (hf : FileInv s) (hi : CopyInv s) (h : s.at i phase) (a : Answers) : CopyInv (advance s i phase a) := by
  cases hq : phase.isQuiet with
  | true => exact copyInv_quiet hi h (advance_quiet hq a)
  | false =>
    cases phase with
    | record => exact copyInv_record hf hi a
    | patchRead k p => exact copyInv_goto hi h fun c hc => ⟨hc, nofun⟩
    | patchTruncate k p next =>
      have hi : CopyInv { s with file := .torn, truncations := s.truncations + 1 } := hi.frame rfl rfl rfl fun _ _ _ h _ => h
      exact copyInv_goto hi h fun c hc => ⟨hc, nofun⟩
    | patchWrite k p next n =>
      rw [(fileInv_patchWrite hf h a).2]
      exact copyInv_land hf hi h
    | _ => cases hq

theorem copyInv_step (s : State) (e : Step) (hf : FileInv s) (hi : CopyInv s) : CopyInv (step s e) := by
  cases e with
  | tick ms | turnCompletes t | runningChanges running => exact hi.frame rfl rfl rfl fun _ _ _ h _ => h
  | sweep | control request =>
    refine hi.frame rfl rfl rfl fun i ph c h hc => ?_
    obtain h | rfl := at_append h
    · exact h
    · cases hc
  | proc i a =>
    simp only [step]
    split
    · rename_i phase h
      exact copyInv_advance hf hi h a
    · exact hi
  | fails i =>
    simp only [step]
    split
    · rename_i phase h
      split_ifs
      · exact copyInv_goto hi h nofun
      · exact hi
    · exact hi

/-! ## What a visit writes -/

/-- The fields whose new value is taken or counted on from the copy. -/
def Write.copied : Write → List Field
  | .strike _ => [.consecutiveErrors]
  | .achieved _ _ | .unmet _ _ => [.runs, .lastReason]
  | .budgetExhausted _ _ => [.runs]
  | _ => []

/-- The fields that a verdict is about. -/
def verdictFields (p : Patch) : List Field := if (p.lookup .status).isSome then [.status, .autoContinue, .createdAt] else []

/-- Patches do not overlap; and when a visit's patch is written, no patch since its copy had a field
    that it takes from the copy, nor, if it has a status, the status, the arming or the creation. -/
def Undisturbed (s : State) (e : Step) : Prop :=
  PatchesApart s e ∧
  match s.phaseOf e with
  | some (.patchWrite k p _ _) => ∀ c ∈ k.copy, ∀ f ∈ k.copied ++ verdictFields p, s.wrote f ≤ c.landings
  | _ => True

instance (s : State) (e : Step) : Decidable (Undisturbed s e) := by
  unfold Undisturbed
  split <;> infer_instance

/-- A visit writes on the record it decided on: a status only on the goal running and armed as in the
    copy, the copied fields as they are on disk, and every other field of the record kept. -/
structure WritesOn (s : State) (k : Write) (p : Patch) (t : State) : Prop where
  verdict : (p.lookup .status).isSome = true → ∀ c, k.copy = some c →
    armed s.last = true ∧ s.last .createdAt = c.record .createdAt
  copied : ∀ c, k.copy = some c → ∀ f ∈ k.copied, s.last f = c.record f
  written : ∃ r, t.file = .record r ∧ ∀ f, f ≠ .updatedAt → r f = merge s.last p f

/-- Every write of a visit. -/
def UserWins (s : State) (e : Step) : Prop :=
  ∀ k p next n, s.phaseOf e = some (.patchWrite k p next n) → k.copy.isSome = true → WritesOn s k p (step s e)

theorem userWins {e : Step} (hf : FileInv s) (hi : CopyInv s) (hc : Undisturbed s e) : UserWins s e := by
  intro k p next n h hk
  cases e with
  | proc i a =>
    have hc := hc.2
    rw [h] at hc
    have current : ∀ c, k.copy = some c → ∀ f ∈ k.copied ++ verdictFields p, s.last f = c.record f :=
      fun c hcopy f hm => (hi.copies i _ c h hcopy).2 f (hc c hcopy f hm)
    refine ⟨?_, ?_, ?_⟩
    · intro hs c hcopy
      have now := current c hcopy
      simp only [verdictFields, if_pos hs, mem_append, mem_cons, not_mem_nil, or_false] at now
      have ha := hi.armed i _ c h hcopy rfl
      unfold armed at ha ⊢
      rw [now .status (by simp), now .autoContinue (by simp)]
      exact ⟨ha, now .createdAt (by simp)⟩
    · exact fun c hcopy f hm => current c hcopy f (mem_append_left _ hm)
    · refine ⟨next, ?_, hf.merges i _ h⟩
      simp only [step, show s.procs[i]? = some (.patchWrite k p next n) from h]
      rw [(fileInv_patchWrite hf h a).2]
      rfl
  | _ => cases h

/-- A session with this record, and nothing under way. -/
def State.start (record : Option AntigravityGoalRecord) (turn : Option AgyCompletedTurn) (now : ℕ) : State :=
  { now, turn, file := (record.map .record).getD .absent, last := record.getD fun _ => none }

theorem fileInv_start (record : Option AntigravityGoalRecord) (turn : Option AgyCompletedTurn) (now : ℕ) :
    FileInv (.start record turn now) where
  whole r h := by
    cases record <;> cases h
    rfl
  absent h := by
    cases record <;> cases h
    rfl
  torn h := by cases record <;> cases h
  one a b x y hx := by cases hx
  merges i x hx := by cases hx
  truncated i k p next n hx := by cases hx

theorem copyInv_start (record : Option AntigravityGoalRecord) (turn : Option AgyCompletedTurn) (now : ℕ) :
    CopyInv (.start record turn now) where
  numbered f := Nat.le_refl _
  copies i x c hx := by cases hx
  armed i x c hx := by cases hx

/-- In every run of sweeps, turns and control requests whose writes are undisturbed, each write of a
    visit is on the goal it decided on, and loses nothing that was written since. -/
theorem sweep_writes_on_its_goal (record : Option AntigravityGoalRecord) (turn : Option AgyCompletedTurn) (now : ℕ)
    (es : List Step) (h : Run.Along step Undisturbed (.start record turn now) es) :
    Run.Along step UserWins (.start record turn now) es :=
  Run.along_of_invariant (I := fun s => FileInv s ∧ CopyInv s)
    (fun s e hi hc => ⟨fileInv_step s e hi.1 hc.1, copyInv_step s e hi.1 hi.2⟩)
    (fun _ _ hi hc => userWins hi.1 hi.2 hc) ⟨fileInv_start record turn now, copyInv_start record turn now⟩ h

/-- A running goal with a turn that has completed. -/
def runningGoal : AntigravityGoalRecord :=
  merge (fun _ => none) (startPatch (js "ship it") none 100 true (some (.num 1)))

def firstTurn : AgyCompletedTurn := { completedAt := 5, response := js "working on it" }

def sampleGoal : State := .start (some runningGoal) (some firstTurn) 6

def procSteps (i n : ℕ) (a : Answers) : List Step := List.replicate n (.proc i a)

def metAnswer : Answers := { verify := ⟨true, { status := js "self_reported" }⟩ }

/-- A visit verifies while the user pauses, and the turn has not met the goal. -/
def pausedMeanwhile : List Step :=
  .sweep :: procSteps 0 4 {} ++ .control .pause :: procSteps 1 5 {} ++ procSteps 0 5 {}

theorem paused_meanwhile : Run.Along step UserWins sampleGoal pausedMeanwhile ∧
    (pausedMeanwhile.foldl step sampleGoal).last .status = some (.status .paused) ∧
    (pausedMeanwhile.foldl step sampleGoal).last .runs = some (.num 1) :=
  ⟨sweep_writes_on_its_goal _ _ _ pausedMeanwhile (by decide +kernel), by decide +kernel, by decide +kernel⟩

/-- The same up to the write, with the turn verified as meeting the goal. -/
def pausedAchieved : List Step :=
  .sweep :: procSteps 0 4 {} ++ .control .pause :: procSteps 1 5 {} ++ procSteps 0 3 metAnswer

/-- The goal that the user has paused is written achieved. -/
theorem paused_goal_achieved : ¬ Run.Along step UserWins sampleGoal (pausedAchieved ++ [.proc 0 metAnswer]) := by
  intro h
  obtain ⟨wins, -⟩ := (Run.along_append.mp h).2
  have writes : ∃ k p next n, (pausedAchieved.foldl step sampleGoal).phaseOf (.proc 0 metAnswer) =
      some (.patchWrite k p next n) ∧ k.copy.isSome = true ∧ (p.lookup .status).isSome = true := ⟨_, _, _, _, rfl, rfl, rfl⟩
  obtain ⟨k, p, next, n, hp, hk, hs⟩ := writes
  obtain ⟨c, hc⟩ := isSome_iff_exists.mp hk
  have running := ((wins k p next n hp hk).verdict hs c hc).1
  have paused : armed (pausedAchieved.foldl step sampleGoal).last = false := by decide +kernel
  rw [paused] at running
  cases running

end PiWebUi.Goal.Antigravity
