/-
  PiWebUi.Watch.GenerationsProofs — the generation of a session's watch as a
  compare-and-swap register.

  `Settled`: between mutations the durable ledger is of the live generation, or, with no
  watch live, it is what the cache holds. A running mutation keeps what its phase says
  (`PhaseOk`): up to its save a registration leaves the durable generation, the live watch
  and its own claims alone (`Kept`), so a rejected one leaves them as it found them; after
  the save the durable generation is the candidate's. A queued write of a live ledger names
  its generation, so it changes the durable generation in no phase (`endTagged`).
-/

import PiWebUi.Watch.Recovery
import PiWebUi.Watch.Generations

namespace PiWebUi.Watch.Generations

open Lib List Option

variable {ρ : Type} (R : RegExps ρ) {t : Turn} {s : State ρ}

def gen (l : Option Ledger) : Option ℕ := l.map (·.generation)

/-! ## Outcomes -/

def Outcome.succeeded (o : Outcome) : Bool :=
  match o.result with
  | .registered _ | .deleted _ => true
  | .absent | .released | .failed _ => false

def Outcome.isDeleted (o : Outcome) : Bool :=
  match o.result with
  | .deleted _ => true
  | _ => false

/-- A success that was conditional on the generation `g`. -/
def Outcome.spends (g : ℕ) (o : Outcome) : Bool := o.succeeded && o.turn.mutation.expected = some (some g)

/-- A success that was conditional on there being no watch. -/
def Outcome.founds (o : Outcome) : Bool := o.succeeded && o.turn.mutation.expected = some none

/-! ## What a rejected registration leaves alone -/

def SameWatch : Option Ledger → Option Ledger → Prop
  | none, none => True
  | some l, some l' => l'.generation = l.generation ∧ Evolves l.watch l'.watch
  | _, _ => False

theorem Evolves.refl (r : PersistedWatch) : Evolves r r := ⟨rfl, rfl, rfl, rfl⟩

theorem Evolves.trans {a b c : PersistedWatch} (h : Evolves a b) (k : Evolves b c) : Evolves a c :=
  ⟨k.pinned_eq.trans h.pinned_eq, k.targetPinned_eq.trans h.targetPinned_eq, k.onFire_eq.trans h.onFire_eq,
    k.conditions_eq.trans h.conditions_eq⟩

theorem SameWatch.refl (l : Option Ledger) : SameWatch l l := by
  cases l with
  | none => trivial
  | some l => exact ⟨rfl, Evolves.refl l.watch⟩

theorem SameWatch.trans {a b c : Option Ledger} (h : SameWatch a b) (k : SameWatch b c) : SameWatch a c := by
  cases a <;> cases b <;> cases c <;> simp only [SameWatch] at h k ⊢
  exact ⟨k.1.trans h.1, h.2.trans k.2⟩

/-- The call is an unpin, and of no claim that the watch live before the turn owns. -/
def Foreign (t : Turn) : ClaimCall → Prop
  | .unpinSubject => ∀ l, t.before.live = some l → l.watch.pinned = false
  | .unpinTarget x => ∀ l, t.before.live = some l → claimedTarget l.watch ≠ some x
  | .pinSubject | .pinTarget _ => False

/-- The watch that was live before the turn is, with the claims it owns; a claim gained since
    is one that the pending calls give back. -/
structure Kept (t : Turn) (live : Option Ledger) (claims : Claims) (pend : List ClaimCall) : Prop where
  same : SameWatch t.before.live live
  foreign : ∀ call ∈ pend, Foreign t call
  subject : ∀ l, t.before.live = some l → l.watch.pinned = true → t.before.claims.subject = true → claims.subject = true
  target : ∀ l x, t.before.live = some l → claimedTarget l.watch = some x → x ∈ t.before.claims.targets →
    x ∈ claims.targets
  gained : t.refused = false → (claims.subject = true → t.before.claims.subject = true ∨ .unpinSubject ∈ pend) ∧
    ∀ x ∈ claims.targets, x ∈ t.before.claims.targets ∨ .unpinTarget x ∈ pend

theorem Kept.refl (t : Turn) : Kept t t.before.live t.before.claims [] :=
  ⟨SameWatch.refl _, by simp, fun _ _ _ h => h, fun _ _ _ _ h => h, fun _ => ⟨.inl, fun _ h => .inl h⟩⟩

theorem Kept.live {live live' : Option Ledger} {claims : Claims} {pend : List ClaimCall}
    (h : Kept t live claims pend) (hs : SameWatch live live') : Kept t live' claims pend :=
  ⟨h.same.trans hs, h.foreign, h.subject, h.target, h.gained⟩

/-- An unpin that gives a claim back, or is refused. -/
theorem Kept.answered {live : Option Ledger} {claims : Claims} {call : ClaimCall} {pend : List ClaimCall}
    (h : Kept t live claims (call :: pend)) (ok : Bool) :
    Kept { t with refused := t.refused || (isUnpin call && !ok) } live (claims.answered call ok) pend := by
  have hforeign := h.foreign call mem_cons_self
  have htail : ∀ c ∈ pend, Foreign t c := fun c hc => h.foreign c (mem_cons_of_mem _ hc)
  cases call with
  | pinSubject | pinTarget x => exact hforeign.elim
  | unpinSubject =>
    cases ok with
    | false => exact ⟨h.same, htail, h.subject, h.target, fun hr => by simp [isUnpin] at hr⟩
    | true =>
      refine ⟨h.same, htail, fun l hl hpinned => ?_, h.target, fun hr => ⟨nofun, fun x hx => ?_⟩⟩
      · rw [hforeign l hl] at hpinned
        cases hpinned
      · have hr' : t.refused = false := by simpa [isUnpin] using hr
        rcases (h.gained hr').2 x hx with hx | hx
        · exact .inl hx
        · exact .inr ((mem_cons.mp hx).resolve_left (by simp))
  | unpinTarget y =>
    cases ok with
    | false => exact ⟨h.same, htail, h.subject, h.target, fun hr => by simp [isUnpin] at hr⟩
    | true =>
      refine ⟨h.same, htail, h.subject, fun l x hl hx hmem => ?_, fun hr => ⟨fun hs => ?_, fun x hx => ?_⟩⟩
      · have hne : x ≠ y := fun hxy => hforeign l hl (hxy ▸ hx)
        exact mem_filter.mpr ⟨h.target l x hl hx hmem, by simpa using hne⟩
      · have hr' : t.refused = false := by simpa [isUnpin] using hr
        rcases (h.gained hr').1 hs with hs | hs
        · exact .inl hs
        · exact .inr ((mem_cons.mp hs).resolve_left (by simp))
      · have hr' : t.refused = false := by simpa [isUnpin] using hr
        obtain ⟨hx, hne⟩ := mem_filter.mp hx
        rcases (h.gained hr').2 x hx with hx | hx
        · exact .inl hx
        · refine .inr ((mem_cons.mp hx).resolve_left fun heq => ?_)
          cases heq
          simp at hne

/-! ## The claims a candidate prepares -/

/-- What is left to ask for is asked for once, and is not the live watch's. -/
structure Preparing (t : Turn) (c : Candidate ρ) (calls : List ClaimCall) : Prop where
  nodup : calls.Nodup
  asked : ∀ call ∈ calls, (call = .pinSubject ∧ c.newSubjectClaim = false ∧ Foreign t .unpinSubject) ∨
    ∃ x, call = .pinTarget x ∧ c.newTargetClaim = false ∧ Candidate.desiredTargetId c.onFire = some x ∧
      Foreign t (.unpinTarget x)

theorem mem_dropCalls {c : Candidate ρ} {call : ClaimCall} : call ∈ c.dropCalls ↔
    (call = .unpinSubject ∧ c.newSubjectClaim = true) ∨
      ∃ x, call = .unpinTarget x ∧ c.newTargetClaim = true ∧ Candidate.desiredTargetId c.onFire = some x := by
  simp only [Candidate.dropCalls, mem_append]
  constructor
  · rintro (h | h)
    · split_ifs at h with hn
      · exact .inl ⟨by simpa using h, hn⟩
      · cases h
    · split_ifs at h with hn
      · obtain ⟨x, hx, rfl⟩ := map_eq_some_iff.mp (mem_toList.mp h)
        exact .inr ⟨x, rfl, hn, hx⟩
      · cases h
  · rintro (⟨rfl, hn⟩ | ⟨x, rfl, hn, hx⟩)
    · exact .inl (by simp [hn])
    · exact .inr (by simp [hn, hx])

theorem nodup_calls (subject reuse : Bool) (target : Option JsString) : ((if subject = true then [ClaimCall.pinSubject] else []) ++
      if reuse = true then [] else (target.map ClaimCall.pinTarget).toList).Nodup := by
  cases subject <;> cases reuse <;> cases target <;> simp

theorem preparing_new (ht : t.before.live = s.live) (request : RegisterWatchRequest)
    (resolved : List (ResolvedCondition ρ)) (onFire : Option WatchOnFireAction) :
    Preparing t (Candidate.new request resolved onFire (current s))
      ((Candidate.new request resolved onFire (current s)).prepareCalls request) := by
  have hlive : ∀ l, t.before.live = some l → current s = some l := fun l hl => by
    rw [ht] at hl
    simp [current, hl]
  constructor
  · exact nodup_calls _ _ _
  · intro call hcall
    simp only [Candidate.prepareCalls, mem_append] at hcall
    rcases hcall with hcall | hcall
    · split_ifs at hcall with hask
      · refine .inl ⟨by simpa using hcall, rfl, fun l hl => ?_⟩
        simp only [Candidate.new, hlive l hl, any_some, Bool.and_eq_true, Bool.not_eq_true', Bool.and_eq_false_iff] at hask
        exact hask.2.resolve_left (by simp [hask.1])
      · cases hcall
    · split_ifs at hcall with hask
      · cases hcall
      · obtain ⟨x, hx, rfl⟩ := map_eq_some_iff.mp (mem_toList.mp hcall)
        refine .inr ⟨x, rfl, rfl, hx, fun l hl hclaimed => hask ?_⟩
        have hdesired : Candidate.desiredTargetId onFire = some x := hx
        simp [Candidate.new, hlive l hl, hclaimed, hdesired]

theorem kept_new (request : RegisterWatchRequest) (resolved : List (ResolvedCondition ρ))
    (onFire : Option WatchOnFireAction) (previous : Option Ledger) :
    Kept t t.before.live t.before.claims (Candidate.new request resolved onFire previous).dropCalls := Kept.refl t

/-- An answer moves its call from what is left to ask for to what a rejection gives back. -/
theorem Preparing.answered {c : Candidate ρ} {live : Option Ledger} {claims : Claims} {call : ClaimCall}
    {calls : List ClaimCall} (h : Preparing t c (call :: calls)) (hk : Kept t live claims c.dropCalls) (ok : Bool) :
    Preparing { t with refused := t.refused || (isUnpin call && !ok) } (c.answered call ok) calls ∧
      Kept { t with refused := t.refused || (isUnpin call && !ok) } live (claims.answered call ok)
        (c.answered call ok).dropCalls := by
  obtain ⟨hnotin, hnodup⟩ := nodup_cons.mp h.nodup
  have htail := fun c' hc' => h.asked c' (mem_cons_of_mem _ hc')
  rcases h.asked call mem_cons_self with ⟨rfl, hnew, hforeign⟩ | ⟨x, rfl, hnew, hx, hforeign⟩
  · refine ⟨⟨hnodup, fun call hcall => ?_⟩, hk.same, fun call hcall => ?_, fun l hl hp hs => ?_, ?_, fun hr => ?_⟩
    · rcases htail call hcall with ⟨rfl, -, -⟩ | ⟨y, rfl, hn, hy, hf⟩
      · exact absurd hcall hnotin
      · exact .inr ⟨y, rfl, hn, hy, hf⟩
    · rcases mem_dropCalls.mp hcall with ⟨rfl, -⟩ | ⟨y, rfl, hn, hy⟩
      · exact hforeign
      · exact hk.foreign _ (mem_dropCalls.mpr (.inr ⟨y, rfl, hn, hy⟩))
    · rw [hforeign l hl] at hp
      cases hp
    · cases ok <;> exact hk.target
    · have hr' : t.refused = false := by simpa [isUnpin] using hr
      obtain ⟨hgs, hgt⟩ := hk.gained hr'
      have htargets : (claims.answered .pinSubject ok).targets = claims.targets := by cases ok <;> rfl
      refine ⟨fun hs => ?_, fun y hy => ?_⟩
      · cases ok with
        | true => exact .inr (mem_dropCalls.mpr (.inl ⟨rfl, rfl⟩))
        | false =>
          refine (hgs hs).imp_right fun hmem => ?_
          rcases mem_dropCalls.mp hmem with ⟨-, hn⟩ | ⟨y, hy, -⟩
          · rw [hnew] at hn
            cases hn
          · cases hy
      · rw [htargets] at hy
        refine (hgt y hy).imp_right fun hmem => ?_
        rcases mem_dropCalls.mp hmem with ⟨hy, -⟩ | ⟨z, hz, hn, hd⟩
        · cases hy
        · exact mem_dropCalls.mpr (.inr ⟨z, hz, hn, hd⟩)
  · refine ⟨⟨hnodup, fun call hcall => ?_⟩, hk.same, fun call hcall => ?_, ?_, fun l y hl hy hmem => ?_, fun hr => ?_⟩
    · rcases htail call hcall with ⟨rfl, hn, hf⟩ | ⟨y, rfl, -, hy, -⟩
      · exact .inl ⟨rfl, hn, hf⟩
      · cases hx.symm.trans hy
        exact absurd hcall hnotin
    · rcases mem_dropCalls.mp hcall with ⟨rfl, hn⟩ | ⟨y, rfl, -, hy⟩
      · exact hk.foreign _ (mem_dropCalls.mpr (.inl ⟨rfl, hn⟩))
      · cases hx.symm.trans hy
        exact hforeign
    · cases ok <;> exact hk.subject
    · have := hk.target l y hl hy hmem
      cases ok with
      | false => exact this
      | true => exact mem_cons_of_mem _ this
    · have hr' : t.refused = false := by simpa [isUnpin] using hr
      obtain ⟨hgs, hgt⟩ := hk.gained hr'
      have hsubject : (claims.answered (.pinTarget x) ok).subject = claims.subject := by cases ok <;> rfl
      refine ⟨fun hs => ?_, fun y hy => ?_⟩
      · rw [hsubject] at hs
        refine (hgs hs).imp_right fun hmem => ?_
        rcases mem_dropCalls.mp hmem with ⟨-, hn⟩ | ⟨z, hz, -⟩
        · exact mem_dropCalls.mpr (.inl ⟨rfl, hn⟩)
        · cases hz
      · have hold : ∀ z ∈ claims.targets, z ∈ t.before.claims.targets := fun z hz => by
          refine (hgt z hz).resolve_right fun hmem => ?_
          rcases mem_dropCalls.mp hmem with ⟨hz, -⟩ | ⟨-, -, hn, -⟩
          · cases hz
          · rw [hnew] at hn
            cases hn
        cases ok with
        | false => exact .inl (hold y hy)
        | true =>
          rcases mem_cons.mp hy with rfl | hy
          · exact .inr (mem_dropCalls.mpr (.inr ⟨y, rfl, rfl, hx⟩))
          · exact .inl (hold y hy)

/-! ## The outcomes -/

/-- Since the last deletion no registration has succeeded that expected no watch. -/
def Quiet (outcomes : List Outcome) : Prop :=
  ∀ mid, mid <:+ outcomes → (∀ o ∈ mid, o.isDeleted = false) → ∀ o ∈ mid, o.founds = false

/-- Between two deletions at most one registration that expected no watch succeeds. -/
def Windows (outcomes : List Outcome) : Prop :=
  ∀ mid, mid <:+: outcomes → (∀ o ∈ mid, o.isDeleted = false) → mid.countP Outcome.founds ≤ 1

def Outcome.rejected (o : Outcome) : Prop := (∃ request, o.turn.mutation = .register request) ∧ ∃ e, o.result = .failed e

structure History (durable : Option Ledger) (nextGeneration : ℕ) (outcomes : List Outcome) : Prop where
  met : ∀ o ∈ outcomes, o.succeeded = true → expectationMet o.turn.mutation.expected o.turn.found = true
  spent : ∀ o ∈ outcomes, ∀ g, o.spends g = true → g < nextGeneration ∧ gen durable ≠ some g
  once : ∀ g, outcomes.countP (Outcome.spends g) ≤ 1
  windows : Windows outcomes
  quiet : durable = none → Quiet outcomes
  kept : ∀ o ∈ outcomes, o.rejected → Kept o.turn o.after.live o.after.claims []

theorem founds_of_not_succeeded {o : Outcome} (h : o.succeeded = false) : o.founds = false := by simp [Outcome.founds, h]

theorem spends_of_not_succeeded {o : Outcome} (h : o.succeeded = false) (g : ℕ) : o.spends g = false := by
  simp [Outcome.spends, h]

section

variable {outcomes : List Outcome} {o : Outcome}

theorem quiet_append (ho : o.founds = false) (h : Quiet outcomes) : Quiet (outcomes ++ [o]) := by
  intro mid hmid hdel
  rcases suffix_concat_iff.mp hmid with rfl | ⟨pre, rfl, hpre⟩
  · simp
  · intro p hp
    rcases mem_append.mp hp with hp | hp
    · exact h pre hpre (fun q hq => hdel q (mem_append_left _ hq)) p hp
    · rw [mem_singleton] at hp
      exact hp ▸ ho

/-- A deletion closes the window. -/
theorem quiet_deleted (ho : o.isDeleted = true) : Quiet (outcomes ++ [o]) := by
  intro mid hmid hdel
  rcases suffix_concat_iff.mp hmid with rfl | ⟨pre, rfl, -⟩
  · simp
  · have hnot := hdel o (by simp)
    rw [ho] at hnot
    cases hnot

theorem windows_append (h : Windows outcomes) (ho : o.founds = true → Quiet outcomes) : Windows (outcomes ++ [o]) := by
  intro mid hmid hdel
  rcases infix_concat_iff.mp hmid with hmid | hmid
  swap
  · exact h mid hmid hdel
  rcases suffix_concat_iff.mp hmid with rfl | ⟨pre, rfl, hpre⟩
  · simp
  have hpredel : ∀ p ∈ pre, p.isDeleted = false := fun p hp => hdel p (mem_append_left _ hp)
  rw [countP_append, countP_singleton]
  by_cases hf : o.founds = true
  · have hzero : pre.countP Outcome.founds = 0 := by
      rw [countP_eq_zero]
      intro p hp
      simp [ho hf pre hpre hpredel p hp]
    simp [hzero, hf]
  · have hone := h pre hpre.isInfix hpredel
    simpa [hf] using hone

end

theorem History.append {durable durable' : Option Ledger} {n : ℕ} {outcomes : List Outcome} {o : Outcome}
    (h : History durable n outcomes) (hmet : o.succeeded = true → expectationMet o.turn.mutation.expected o.turn.found = true)
    (hspent : ∀ g, o.spends g = true → g < n ∧ gen durable' ≠ some g ∧ ∀ p ∈ outcomes, p.spends g = false)
    (hgen : durable' = durable ∨ durable' = none) (hfounds : o.founds = true → Quiet outcomes)
    (hquiet : durable' = none → Quiet (outcomes ++ [o]))
    (hkept : o.rejected → Kept o.turn o.after.live o.after.claims []) : History durable' n (outcomes ++ [o]) where
  met p hp := by
    rcases mem_append.mp hp with hp | hp
    · exact h.met p hp
    · rw [mem_singleton] at hp
      exact hp ▸ hmet
  spent p hp g hg := by
    rcases mem_append.mp hp with hp | hp
    · obtain ⟨hlt, hne⟩ := h.spent p hp g hg
      refine ⟨hlt, ?_⟩
      rcases hgen with rfl | rfl
      · exact hne
      · simp [gen]
    · rw [mem_singleton] at hp
      subst hp
      exact ⟨(hspent g hg).1, (hspent g hg).2.1⟩
  once g := by
    rw [countP_append, countP_singleton]
    by_cases hg : o.spends g = true
    · have hzero : outcomes.countP (Outcome.spends g) = 0 := by
        rw [countP_eq_zero]
        intro p hp
        simp [(hspent g hg).2.2 p hp]
      simp [hzero, hg]
    · have hone := h.once g
      simpa [hg] using hone
  windows := windows_append h.windows hfounds
  quiet := hquiet
  kept p hp := by
    rcases mem_append.mp hp with hp | hp
    · exact h.kept p hp
    · rw [mem_singleton] at hp
      exact hp ▸ hkept

/-- An outcome that is not a success. -/
theorem History.fail {durable : Option Ledger} {n : ℕ} {outcomes : List Outcome} {o : Outcome} (h : History durable n outcomes)
    (ho : o.succeeded = false) (hkept : o.rejected → Kept o.turn o.after.live o.after.claims []) :
    History durable n (outcomes ++ [o]) := by
  refine h.append (fun hs => ?_) (fun g hg => ?_) (.inl rfl) (fun hf => ?_) (fun hn => ?_) hkept
  · rw [ho] at hs
    cases hs
  · rw [spends_of_not_succeeded ho] at hg
    cases hg
  · rw [founds_of_not_succeeded ho] at hf
    cases hf
  · exact quiet_append (founds_of_not_succeeded ho) (h.quiet hn)

/-! ## The invariant -/

/-- What a turn has checked, and no later outcome changes. -/
structure Opening (n : ℕ) (outcomes : List Outcome) (t : Turn) : Prop where
  met : expectationMet t.mutation.expected t.found = true
  unspent : ∀ o ∈ outcomes, ∀ g, o.spends g = true → t.found ≠ some g
  bound : ∀ g, t.found = some g → g < n
  quiet : t.found = none → Quiet outcomes

def Tagged (p : Write) : Prop := p.expectedGeneration = some p.ledger.generation

structure Settled (s : State ρ) : Prop where
  tagged : ∀ p ∈ s.writes, Tagged p
  live : ∀ l, s.live = some l → gen s.durable = some l.generation
  stored : s.live = none → s.writes = [] ∧ s.cache.map (·.ledger) = s.durable

/-- The candidate's write is the only one without a generation. -/
structure Saving (s : State ρ) (ledger : Ledger) : Prop where
  queued : ∃ pre post, s.writes = pre ++ ⟨ledger, none⟩ :: post ∧ (∀ p ∈ pre, Tagged p) ∧ ∀ p ∈ post, Tagged p
  live : ∀ l, s.live = some l → gen s.durable = some l.generation
  stored : s.live = none → s.writes = [⟨ledger, none⟩] ∧ s.cache = some ⟨ledger, false⟩
  bound : ledger.generation < s.nextGeneration
  newer : ∀ g, gen s.durable = some g → g < ledger.generation
  unspent : ∀ o ∈ s.outcomes, o.spends ledger.generation = false

structure Deleting (s : State ρ) (t : Turn) (generation : ℕ) : Prop where
  isDelete : ∃ e, t.mutation = .delete e
  dead : s.live = none
  tagged : ∀ p ∈ s.writes, Tagged p
  found : t.found = some generation
  durable : gen s.durable = some generation

def PhaseOk (s : State ρ) (t : Turn) : Phase ρ → Prop
  | .calling calls (.save c) =>
    Settled s ∧ gen s.durable = t.found ∧ Kept t s.live s.claims c.dropCalls ∧ Preparing t c calls
  | .saving c ledger => Saving s ledger ∧ gen s.durable = t.found ∧ Kept t s.live s.claims c.dropCalls
  | .saved _ ledger =>
    (∀ p ∈ s.writes, Tagged p) ∧ gen s.durable = some ledger.generation ∧ t.found ≠ some ledger.generation
  | .saveFailed c => Settled s ∧ Kept t s.live s.claims c.dropCalls
  | .calling calls .throw => Settled s ∧ Kept t s.live s.claims calls
  | .calling _ (.commit generation) => Settled s ∧ gen s.durable = some generation ∧ t.found ≠ some generation
  | .calling _ .release => Settled s ∧ t.mutation.expected = none
  | .calling _ (.delete generation) => Deleting s t generation
  | .waiting generation _ => Deleting s t generation ∧ s.cache = none
  | .unlinking generation _ => Deleting s t generation ∧ s.cache = none ∧ s.writes = []

structure Inv (s : State ρ) : Prop where
  disk_eq : s.disk = s.durable
  bound : ∀ g, gen s.durable = some g → g < s.nextGeneration
  history : History s.durable s.nextGeneration s.outcomes
  idle : s.running = none → Settled s
  turn : ∀ t phase, s.running = some (t, phase) → Opening s.nextGeneration s.outcomes t ∧ PhaseOk s t phase

theorem gen_current (h : Settled s) : gen (current s) = gen s.durable := by
  cases hl : s.live with
  | some l =>
    rw [current, hl, some_or]
    exact (h.live l hl).symm
  | none =>
    rw [current, hl, none_or]
    exact congrArg gen (h.stored hl).2

/-! ## Events between the awaits -/

/-- The live ledger evolves, and saves of it are queued. -/
structure Touch (s s' : State ρ) : Prop where
  disk_eq : s'.disk = s.disk
  durable_eq : s'.durable = s.durable
  claims_eq : s'.claims = s.claims
  running_eq : s'.running = s.running
  next_eq : s'.nextGeneration = s.nextGeneration
  outcomes_eq : s'.outcomes = s.outcomes
  same : SameWatch s.live s'.live
  queued : ∃ extra, s'.writes = s.writes ++ extra ∧ ∀ p ∈ extra, Tagged p
  dead : s.live = none → s'.writes = s.writes ∧ s'.cache = s.cache

theorem Touch.of_eq {s s' : State ρ} (hd : s'.disk = s.disk) (hdur : s'.durable = s.durable) (hc : s'.claims = s.claims)
    (hr : s'.running = s.running) (hn : s'.nextGeneration = s.nextGeneration) (ho : s'.outcomes = s.outcomes)
    (hs : SameWatch s.live s'.live) (hw : s'.writes = s.writes) (hcache : s'.cache = s.cache) : Touch s s' :=
  ⟨hd, hdur, hc, hr, hn, ho, hs, ⟨[], by simpa using hw, by simp⟩, fun _ => ⟨hw, hcache⟩⟩

theorem SameWatch.none_iff {a b : Option Ledger} (h : SameWatch a b) : b = none ↔ a = none := by
  cases a <;> cases b <;> simp_all [SameWatch]

section

variable {s s' : State ρ} (h : Touch s s')
include h

theorem Touch.live_gen {l' : Ledger} (hl : s'.live = some l') : ∃ l, s.live = some l ∧ l'.generation = l.generation := by
  have hsame := h.same
  rw [hl] at hsame
  cases hs : s.live with
  | none =>
    rw [hs] at hsame
    exact hsame.elim
  | some l =>
    rw [hs] at hsame
    exact ⟨l, rfl, hsame.1⟩

theorem Touch.tagged (ht : ∀ p ∈ s.writes, Tagged p) : ∀ p ∈ s'.writes, Tagged p := by
  obtain ⟨extra, hw, hextra⟩ := h.queued
  intro p hp
  rw [hw, mem_append] at hp
  exact hp.elim (ht p) (hextra p)

theorem Touch.settled (k : Settled s) : Settled s' := by
  refine ⟨h.tagged k.tagged, fun l' hl' => ?_, fun hn => ?_⟩
  · obtain ⟨l, hl, heq⟩ := h.live_gen hl'
    rw [h.durable_eq, heq]
    exact k.live l hl
  · have hdead := h.same.none_iff.mp hn
    obtain ⟨hw, hc⟩ := h.dead hdead
    rw [hw, hc, h.durable_eq]
    exact k.stored hdead

theorem Touch.saving {ledger : Ledger} (k : Saving s ledger) : Saving s' ledger := by
  refine ⟨?_, fun l' hl' => ?_, fun hn => ?_, ?_, h.durable_eq ▸ k.newer, ?_⟩
  · obtain ⟨extra, hw, hextra⟩ := h.queued
    obtain ⟨pre, post, hq, hpre, hpost⟩ := k.queued
    refine ⟨pre, post ++ extra, by simp [hw, hq], hpre, fun p hp => ?_⟩
    exact (mem_append.mp hp).elim (hpost p) (hextra p)
  · obtain ⟨l, hl, heq⟩ := h.live_gen hl'
    rw [h.durable_eq, heq]
    exact k.live l hl
  · have hdead := h.same.none_iff.mp hn
    obtain ⟨hw, hc⟩ := h.dead hdead
    rw [hw, hc]
    exact k.stored hdead
  · rw [h.next_eq]
    exact k.bound
  · rw [h.outcomes_eq]
    exact k.unspent

theorem Touch.deleting {g : ℕ} (k : Deleting s t g) : Deleting s' t g :=
  ⟨k.isDelete, h.same.none_iff.mpr k.dead, h.tagged k.tagged, k.found, h.durable_eq ▸ k.durable⟩

theorem Touch.phaseOk {phase : Phase ρ} (k : PhaseOk s t phase) : PhaseOk s' t phase := by
  have hkept : ∀ {pend : List ClaimCall}, Kept t s.live s.claims pend → Kept t s'.live s'.claims pend := fun hk =>
    h.claims_eq ▸ hk.live h.same
  cases phase with
  | calling calls next =>
    cases next with
    | save c => exact ⟨h.settled k.1, h.durable_eq ▸ k.2.1, hkept k.2.2.1, k.2.2.2⟩
    | throw => exact ⟨h.settled k.1, hkept k.2⟩
    | commit g => exact ⟨h.settled k.1, h.durable_eq ▸ k.2.1, k.2.2⟩
    | release => exact ⟨h.settled k.1, k.2⟩
    | delete g => exact h.deleting k
  | saving c ledger => exact ⟨h.saving k.1, h.durable_eq ▸ k.2.1, hkept k.2.2⟩
  | saved c ledger => exact ⟨h.tagged k.1, h.durable_eq ▸ k.2.1, k.2.2⟩
  | saveFailed c => exact ⟨h.settled k.1, hkept k.2⟩
  | waiting g previous => exact ⟨h.deleting k.1, (h.dead k.1.dead).2.trans k.2⟩
  | unlinking g previous =>
    exact ⟨h.deleting k.1, (h.dead k.1.dead).2.trans k.2.1, (h.dead k.1.dead).1.trans k.2.2⟩

theorem Touch.inv (k : Inv s) : Inv s' where
  disk_eq := h.disk_eq.trans (k.disk_eq.trans h.durable_eq.symm)
  bound := by
    rw [h.durable_eq, h.next_eq]
    exact k.bound
  history := by
    rw [h.durable_eq, h.next_eq, h.outcomes_eq]
    exact k.history
  idle hr := h.settled (k.idle (h.running_eq ▸ hr))
  turn t phase hr := by
    obtain ⟨hopen, hphase⟩ := k.turn t phase (h.running_eq ▸ hr)
    rw [h.next_eq, h.outcomes_eq]
    exact ⟨hopen, h.phaseOk hphase⟩

end

theorem touch_chain (s : State ρ) (chain : List Mutation) : Touch s { s with mutationChain := chain } :=
  .of_eq rfl rfl rfl rfl rfl rfl (SameWatch.refl _) rfl rfl

theorem touch_change (s : State ρ) (next : PersistedWatch) : Touch s (change s next) := by
  rw [change]
  split
  · exact touch_chain s _
  next l hl =>
    split_ifs with he
    · refine .of_eq rfl rfl rfl rfl rfl rfl ?_ rfl rfl
      rw [hl]
      exact ⟨rfl, he⟩
    · exact touch_chain s _

theorem touch_complete (s : State ρ) : Touch s (complete s) := by
  rw [complete]
  split
  · exact touch_chain s _
  next l hl =>
    split_ifs
    · exact touch_chain s _
    · refine .of_eq rfl rfl rfl rfl rfl rfl ?_ rfl rfl
      rw [hl]
      exact ⟨rfl, rfl, rfl, rfl, rfl⟩

theorem touch_persistLive (s : State ρ) : Touch s (persistLive s) := by
  rw [persistLive]
  split
  · exact touch_chain s _
  next l hl =>
    refine ⟨rfl, rfl, rfl, rfl, rfl, rfl, SameWatch.refl _, ⟨[⟨l, some l.generation⟩], rfl, ?_⟩, fun hn => ?_⟩
    · simp [Tagged]
    · rw [hl] at hn
      cases hn

/-! ## What an event changes -/

section Act

open ActiveWatch

theorem evolves_completeWatch (w : ActiveWatch ρ) : Evolves w.record (completeWatch w).record := by
  rcases completeWatch_cases w with h | ⟨-, -, -, h⟩ <;> rw [h]
  · exact .refl _
  · exact ⟨rfl, rfl, rfl, rfl⟩

theorem evolves_suppress (w : ActiveWatch ρ) (action : WatchOnFireAction) (c reason : JsString) :
    Evolves w.record (suppress w action c reason).record := by
  have hpush : Evolves w.record (appendWakeAttempt w (suppressed w action c reason)).record := ⟨rfl, rfl, rfl, rfl⟩
  rw [suppress]
  split_ifs
  · exact hpush.trans (evolves_completeWatch _)
  · exact hpush

theorem evolves_dispatchWakeForFiring (w : ActiveWatch ρ) (c : JsString) (isRetry : Bool) :
    Evolves w.record (dispatchWakeForFiring w c isRetry).record := by
  rcases dispatchWakeForFiring_cases w c isRetry with ⟨-, h⟩ | ⟨a, -, ⟨r, -, h⟩ | ⟨-, h⟩⟩ <;> rw [h]
  · exact .refl _
  · exact evolves_suppress w a c r
  · exact ⟨rfl, rfl, rfl, rfl⟩

theorem evolves_recordFiring (w : ActiveWatch ρ) (k : ℕ) (input : FiringInput) (b : Option ℕ) :
    Evolves w.record (recordFiring w k input b).1.record := by
  rcases recordFiring_cases w k input b with ⟨-, hr⟩ | ⟨cond, hk, -, hr⟩ <;> rw [hr]
  · exact .refl _
  have hadd : Evolves w.record (addFiring w k cond input).record := by
    refine ⟨rfl, rfl, rfl, ?_⟩
    obtain ⟨hlt, rfl⟩ := List.getElem?_eq_some_iff.mp hk
    apply ext_getElem?
    intro j
    by_cases hjk : k = j
    · subst hjk
      simp [addFiring, markFired, hlt]
    · simp [addFiring, getElem?_set_ne hjk]
  rcases wakeForFiring_cases (addFiring w k cond input) cond.id b with ⟨-, hw⟩ | ⟨a, -, -, hw⟩ | ⟨-, -, hw⟩ <;> rw [hw]
  · exact hadd
  · exact hadd.trans ⟨rfl, rfl, rfl, rfl⟩
  · exact hadd.trans (evolves_dispatchWakeForFiring _ cond.id false)

theorem evolves_recordMatches {t : JsNumber} : ∀ (ms : List ConditionMatch) (w : ActiveWatch ρ) (b : Option ℕ) (f : Bool),
    Evolves w.record (recordMatches t ms w b f).1.record
  | [], _, _, _ => .refl _
  | m :: ms, w, b, f => by
    rw [recordMatches]
    split
    · exact evolves_recordMatches ms w b f
    next k _ =>
      split
      · exact .refl _
      · exact (evolves_recordFiring w k _ b).trans (evolves_recordMatches ms _ _ _)

theorem evolves_finishFirings (w : ActiveWatch ρ) (f : Bool) : Evolves w.record (finishFirings w f).record := by
  have htouch : Evolves w.record (touched w).record := ⟨rfl, rfl, rfl, rfl⟩
  cases f
  · exact htouch
  · rw [finishFirings_true]
    split_ifs
    · exact htouch.trans (evolves_completeWatch (touched w))
    · exact htouch

theorem evolves_handleEvent (w : ActiveWatch ρ) (e : NormalizedEvent) (b : Option ℕ) :
    Evolves w.record (handleEvent R w e b).1.record := by
  rw [handleEvent]
  split_ifs
  · exact .refl _
  · have hobs : Evolves w.record (observed R w e).record := ⟨rfl, rfl, rfl, rfl⟩
    exact (hobs.trans (evolves_recordMatches _ _ b false)).trans (evolves_finishFirings _ _)

theorem evolves_recordSettled {evidence : JsString} : ∀ (ks : List ℕ) (w : ActiveWatch ρ) (f : Bool),
    Evolves w.record (recordSettled evidence ks w f).1.record
  | [], _, _ => .refl _
  | k :: ks, w, f => by
    rw [recordSettled]
    split
    · exact evolves_recordSettled ks w f
    · split
      · exact evolves_recordSettled ks w f
      · exact (evolves_recordFiring w k _ none).trans (evolves_recordSettled ks _ _)

/-- Every step of the live watch but the release of its claims is such a change. -/
theorem act_evolves (w : ActiveWatch ρ) {s : ActiveWatch.Step} (hs : ∀ ok, s ≠ .unpin ok) :
    Evolves w.record (act R w s).record := by
  cases s with
  | event e => exact evolves_handleEvent R w e none
  | reconcileRestart e | neverStarted e => exact evolves_handleEvent R w e (some 1)
  | reconcileGoalEnd e => exact evolves_handleEvent R w e (some w.restartBudget)
  | fireIfSettled note =>
    simp only [act, applyFireIfSettled]
    split_ifs
    · exact .refl _
    · exact (evolves_recordSettled _ w false).trans (evolves_finishFirings _ _)
    · exact evolves_recordSettled _ w false
  | deadline i =>
    simp only [act]
    split
    · exact .refl _
    next timer _ =>
      rcases fireDeadline_cases (dropDeadline w i) timer with hd | hd | ⟨k, cond, due, -, -, -, -, -, -, hd⟩ <;> rw [hd]
      · exact .refl _
      · exact .refl _
      · have hfire := evolves_recordFiring (dropDeadline w i) k (deadlineInput (dropDeadline w i) timer cond due) none
        rw [fireAlone]
        dsimp only
        split_ifs
        · exact hfire.trans (evolves_finishFirings _ _)
        · exact hfire
  | callWake =>
    simp only [act, callWake]
    split <;> exact .refl _
  | wakeResult r =>
    rcases wakeResult_split w r with hr | ⟨task, rest, v, -, -, hrecord, -, -, hr⟩
    · rw [act, hr]
      exact .refl _
    have hsettled : Evolves w.record v.record := by
      rw [hrecord]
      exact ⟨rfl, rfl, rfl, rfl⟩
    rw [act]
    rcases hr with hr | ⟨-, hr⟩ | ⟨-, hr⟩ <;> rw [hr]
    · exact hsettled
    · exact hsettled.trans (evolves_completeWatch v)
    · exact hsettled
  | retryWake i =>
    simp only [act, retryWake]
    split
    · exact .refl _
    next c _ => exact evolves_dispatchWakeForFiring (dropRetry w i) c true
  | unpin ok => exact absurd rfl (hs ok)
  | write ok =>
    simp only [act, write]
    split
    · exact .refl _
    · split_ifs <;> exact .refl _
  | flush =>
    simp only [act, flush]
    split_ifs <;> exact .refl _
  | steer t busy => exact .refl _

/-- Whatever the live watch goes through before its claims are released is one change of its
    ledger. -/
theorem change_run {s : State ρ} {l : Ledger} (hl : s.live = some l) {w : ActiveWatch ρ} (hw : w.record = l.watch)
    (ss : List ActiveWatch.Step) (hss : ∀ t ∈ ss, ∀ ok, t ≠ .unpin ok) : change s (ss.foldl (act R) w).record =
      { s with live := some { l with watch := (ss.foldl (act R) w).record } } := by
  have hevolves : Evolves w.record (ss.foldl (act R) w).record := by
    clear hw
    induction ss generalizing w with
    | nil => exact .refl _
    | cons t ss ih => exact (act_evolves R w (hss t mem_cons_self)).trans (ih fun u hu => hss u (mem_cons_of_mem t hu))
  rw [change, hl]
  exact if_pos (hw ▸ hevolves)

theorem fired_watch_changes : let w := registered [resolvedAgentEnd (js "c0")] (some oneWake) true true 1000
    let s : State Unit := ⟨some ⟨0, w.record⟩, none, none, none, [], ⟨true, []⟩, [], none, 1, []⟩
    let ss : List ActiveWatch.Step := [.event { type := js "agent_end" }, .write true, .callWake]
    change s (ss.foldl (act noPatterns) w).record = { s with live := some ⟨0, (ss.foldl (act noPatterns) w).record⟩ } := by
  intro w s ss
  exact change_run noPatterns (s := s) (w := w) rfl rfl ss (by simp [ss])

end Act

/-! ## Mutations -/

/-- The parts of the invariant that no turn touches on its way. -/
structure Base (s : State ρ) : Prop where
  disk_eq : s.disk = s.durable
  bound : ∀ g, gen s.durable = some g → g < s.nextGeneration
  history : History s.durable s.nextGeneration s.outcomes

theorem Inv.base (h : Inv s) : Base s := ⟨h.disk_eq, h.bound, h.history⟩

/-- The running mutation is not part of what a phase says of the state. -/
theorem PhaseOk.frame {phase : Phase ρ} (h : PhaseOk s t phase) (r : Option (Turn × Phase ρ)) :
    PhaseOk { s with running := r } t phase := by
  have htagged : (∀ p ∈ s.writes, Tagged p) → ∀ p ∈ ({ s with running := r } : State ρ).writes, Tagged p := id
  have hsettled : Settled s → Settled { s with running := r } := fun k => ⟨k.tagged, k.live, k.stored⟩
  have hdeleting : ∀ {g : ℕ}, Deleting s t g → Deleting { s with running := r } t g := fun k =>
    ⟨k.isDelete, k.dead, k.tagged, k.found, k.durable⟩
  cases phase with
  | calling calls next =>
    cases next with
    | save c | throw | commit g | release => exact ⟨hsettled h.1, h.2⟩
    | delete g => exact hdeleting h
  | saving c ledger => exact ⟨⟨h.1.queued, h.1.live, h.1.stored, h.1.bound, h.1.newer, h.1.unspent⟩, h.2⟩
  | saved c ledger => exact ⟨htagged h.1, h.2⟩
  | saveFailed c => exact ⟨hsettled h.1, h.2⟩
  | waiting g previous | unlinking g previous => exact ⟨hdeleting h.1, h.2⟩

section

variable {s : State ρ} (hb : Base s)
include hb

theorem inv_running {phase : Phase ρ} (ho : Opening s.nextGeneration s.outcomes t)
    (hp : PhaseOk s t phase) : Inv { s with running := some (t, phase) } where
  disk_eq := hb.disk_eq
  bound := hb.bound
  history := hb.history
  idle hr := by cases hr
  turn t' phase' hr := by
    cases hr
    exact ⟨ho, hp.frame _⟩

/-- A turn that ends without success; a registration that does keeps what it found. -/
theorem inv_fail (hs : Settled s) {result : Result} (hfail : ∀ after, (⟨t, after, result⟩ : Outcome).succeeded = false)
    (hkept : (∃ request, t.mutation = .register request) → (∃ e, result = .failed e) → Kept t s.live s.claims []) :
    Inv (finish s t result) where
  disk_eq := hb.disk_eq
  bound := hb.bound
  history := hb.history.fail (hfail _) fun hr => hkept hr.1 hr.2
  idle _ := ⟨hs.tagged, hs.live, hs.stored⟩
  turn t' phase' hr := by cases hr

theorem inv_registered (hs : Settled s) (ho : Opening s.nextGeneration s.outcomes t)
    {g : ℕ} (hg : gen s.durable = some g) (hne : t.found ≠ some g) : Inv (finish s t (.registered g)) where
  disk_eq := hb.disk_eq
  bound := hb.bound
  history := by
    have hmet := ho.met
    refine hb.history.append (fun _ => hmet) (fun g' hg' => ?_) (.inl rfl) (fun hf => ?_) (fun hn => ?_) fun hr => ?_
    · have he : t.mutation.expected = some (some g') := by simpa [Outcome.spends, Outcome.succeeded] using hg'
      rw [he, expectationMet, all_some, decide_eq_true_eq] at hmet
      refine ⟨ho.bound g' hmet.symm, fun hd => hne (hmet.symm.trans (hd.symm.trans hg)), fun p hp => ?_⟩
      by_contra hspent
      exact ho.unspent p hp g' (by simpa using hspent) hmet.symm
    · have he : t.mutation.expected = some none := by simpa [Outcome.founds, Outcome.succeeded] using hf
      rw [he, expectationMet, all_some, decide_eq_true_eq] at hmet
      exact ho.quiet hmet.symm
    · have hnone : s.durable = none := hn
      rw [hnone] at hg
      cases hg
    · obtain ⟨-, e, he⟩ := hr
      cases he
  idle _ := ⟨hs.tagged, hs.live, hs.stored⟩
  turn t' phase' hr := by cases hr

theorem inv_deleted (ho : Opening s.nextGeneration s.outcomes t) {g : ℕ}
    (hd : Deleting s t g) (hc : s.cache = none) (hw : s.writes = []) :
    Inv (finish { s with disk := none, durable := none } t (.deleted g)) where
  disk_eq := rfl
  bound g' hg' := by cases hg'
  history := by
    have hmet := ho.met
    refine hb.history.append (fun _ => hmet) (fun g' hg' => ?_) (.inr rfl) (fun hf => ?_) (fun _ => quiet_deleted rfl)
      fun hr => ?_
    · have he : t.mutation.expected = some (some g') := by simpa [Outcome.spends, Outcome.succeeded] using hg'
      rw [he, expectationMet, all_some, decide_eq_true_eq] at hmet
      refine ⟨ho.bound g' hmet.symm, nofun, fun p hp => ?_⟩
      by_contra hspent
      exact ho.unspent p hp g' (by simpa using hspent) hmet.symm
    · obtain ⟨e, he⟩ := hd.isDelete
      simp [Outcome.founds, he, Mutation.expected] at hf
    · obtain ⟨-, e, he⟩ := hr
      cases he
  idle _ := ⟨by simp [finish, hw], fun l hl => (by simp [finish, hd.dead] at hl), fun _ => ⟨hw, by simp [finish, hc]⟩⟩
  turn t' phase' hr := by cases hr

end

theorem Touch.base {s s' : State ρ} (h : Touch s s') (k : Base s) : Base s' := by
  refine ⟨h.disk_eq.trans (k.disk_eq.trans h.durable_eq.symm), ?_, ?_⟩
  · rw [h.durable_eq, h.next_eq]
    exact k.bound
  · rw [h.durable_eq, h.next_eq, h.outcomes_eq]
    exact k.history

theorem History.fresh {durable : Option Ledger} {n : ℕ} {outcomes : List Outcome} (h : History durable n outcomes) :
    History durable (n + 1) outcomes :=
  ⟨h.met, fun o ho g hg => ⟨Nat.lt_succ_of_lt (h.spent o ho g hg).1, (h.spent o ho g hg).2⟩, h.once, h.windows, h.quiet,
    h.kept⟩

section

variable {s : State ρ}

theorem inv_proceed (hb : Base s) (ho : Opening s.nextGeneration s.outcomes t) {next : Next ρ}
    (hp : PhaseOk s t (.calling [] next)) (now : ℕ) : Inv (proceed s t now next) := by
  cases next with
  | save c =>
    obtain ⟨hs, hfound, hkept, -⟩ := hp
    refine ⟨hb.disk_eq, fun g hg => Nat.lt_succ_of_lt (hb.bound g hg), hb.history.fresh, nofun,
      fun t' phase' hr => ?_⟩
    cases hr
    refine ⟨⟨ho.met, ho.unspent, fun g hg => Nat.lt_succ_of_lt (ho.bound g hg), ho.quiet⟩, ⟨?_, hs.live, fun hl => ?_,
      Nat.lt_succ_self _, hb.bound, fun o hmem => ?_⟩, hfound, hkept⟩
    · exact ⟨s.writes, [], rfl, hs.tagged, by simp⟩
    · refine ⟨?_, rfl⟩
      change s.writes ++ _ = _
      rw [(hs.stored hl).1]
      rfl
    · by_contra hspent
      exact absurd (hb.history.spent o hmem _ (by simpa using hspent)).1 (Nat.lt_irrefl _)
  | throw => exact inv_fail hb hp.1 (fun _ => rfl) fun _ _ => hp.2
  | commit g => exact inv_registered hb hp.1 ho hp.2.1 hp.2.2
  | release =>
    refine inv_fail ((touch_persistLive s).base hb) ((touch_persistLive s).settled hp.1) (fun _ => rfl) fun _ he => ?_
    obtain ⟨e, he⟩ := he
    cases he
  | delete g =>
    have hd : Deleting s t g := hp
    have hbase : Base { s with cache := none } := ⟨hb.disk_eq, hb.bound, hb.history⟩
    have deleting : Deleting { s with cache := none } t g := ⟨hd.isDelete, hd.dead, hd.tagged, hd.found, hd.durable⟩
    have waiting : PhaseOk { s with cache := none } t (.waiting g s.cache) := ⟨deleting, rfl⟩
    exact inv_running hbase ho waiting

theorem inv_enter (hb : Base s) (ho : Opening s.nextGeneration s.outcomes t) {calls : List ClaimCall}
    {next : Next ρ} (hp : PhaseOk s t (.calling calls next)) (now : ℕ) : Inv (enter s t now calls next) := by
  rw [enter]
  split_ifs with hnil
  · rw [List.isEmpty_iff] at hnil
    subst hnil
    exact inv_proceed hb ho hp now
  · exact inv_running hb ho hp

/-- What a turn that passes its check has seen. -/
theorem opening (h : Inv s) (hs : Settled s) (m : Mutation) (before : Snapshot)
    (hm : expectationMet m.expected (gen (current s)) = true) :
    Opening s.nextGeneration s.outcomes { mutation := m, found := gen (current s), before } := by
  refine ⟨hm, fun o ho g hg => ?_, fun g hg => ?_, fun hn => ?_⟩
  · rw [gen_current hs]
    exact (h.history.spent o ho g hg).2
  · rw [gen_current hs] at hg
    exact h.bound g hg
  · rw [gen_current hs] at hn
    exact h.history.quiet (by simpa [gen] using hn)

theorem inv_start (h : Inv s) (hs : Settled s) (now : ℕ) (m : Mutation) : Inv (start R s now m) := by
  have hfound : gen s.durable = gen (current s) := (gen_current hs).symm
  have hfail : ∀ e, Inv (finish s { mutation := m, found := gen (current s), before := ⟨s.live, s.claims⟩ } (.failed e)) :=
    fun e => inv_fail h.base hs (fun _ => rfl) fun _ _ => Kept.refl _
  cases m with
  | register request =>
    rw [start]
    dsimp only
    split
    · exact hfail _
    next resolved onFire _ =>
      split_ifs with hmet
      · exact hfail _
      · rw [Bool.not_eq_true', Bool.not_eq_false] at hmet
        have hphase : PhaseOk s { mutation := .register request, found := gen (current s), before := ⟨s.live, s.claims⟩ }
            (.calling ((Candidate.new request resolved onFire (current s)).prepareCalls request)
              (.save (Candidate.new request resolved onFire (current s)))) :=
          ⟨hs, hfound, kept_new request resolved onFire _, preparing_new rfl request resolved onFire⟩
        exact inv_enter h.base (opening h hs (.register request) _ hmet) hphase now
  | delete e =>
    rw [start]
    split_ifs with hmet
    · exact hfail _
    rw [Bool.not_eq_true', Bool.not_eq_false] at hmet
    split
    · exact inv_fail h.base hs (fun _ => rfl) fun hr => (by obtain ⟨request, hr⟩ := hr; cases hr)
    next ledger hcur =>
      have hgen : gen (current s) = some ledger.generation := by rw [hcur]; rfl
      have hbase : Base { s with live := none } := ⟨h.disk_eq, h.bound, h.history⟩
      have hphase : PhaseOk { s with live := none }
          { mutation := .delete e, found := gen (current s), before := ⟨s.live, s.claims⟩ }
          (.calling (ownCalls ledger.watch) (.delete ledger.generation)) :=
        ⟨⟨e, rfl⟩, rfl, hs.tagged, hgen, hfound.trans hgen⟩
      exact inv_enter hbase (opening h hs (.delete e) _ hmet) hphase now
  | release g =>
    rw [start]
    have hdone : Inv (finish s { mutation := .release g, found := gen (current s), before := ⟨s.live, s.claims⟩ } .released) :=
      inv_fail h.base hs (fun _ => rfl) fun hr => (by obtain ⟨request, hr⟩ := hr; cases hr)
    split
    · exact hdone
    next ledger _ =>
      split_ifs
      · exact hdone
      · have hphase : PhaseOk s { mutation := .release g, found := gen (current s), before := ⟨s.live, s.claims⟩ }
            (.calling (ownCalls ledger.watch) .release) := ⟨hs, rfl⟩
        exact inv_enter h.base (opening h hs (.release g) _ rfl) hphase now

/-- Only a rotation or a release changes the flags of the live ledger, never its generation. -/
theorem live_answered (h : Settled s) (next : Next ρ) (call : ClaimCall) (ok : Bool) (claims : Claims) :
    Settled { s with live := s.live.map fun l => { l with watch := answeredWatch next call ok l.watch }, claims } := by
  refine ⟨h.tagged, fun l' hl' => ?_, fun hn => h.stored (by simpa using hn)⟩
  obtain ⟨l, hl, rfl⟩ := map_eq_some_iff.mp hl'
  exact h.live l hl

theorem inv_answer (h : Inv s) (ok : Bool) (now : ℕ) : Inv (answer s ok now) := by
  rw [answer]
  split
  swap
  · exact h
  next turn call calls next hr =>
    obtain ⟨ho, hp⟩ := h.turn _ _ hr
    have hbase : Base { s with
        live := s.live.map fun l => { l with watch := answeredWatch next call ok l.watch }
        claims := s.claims.answered call ok } := ⟨h.disk_eq, h.bound, h.history⟩
    have hopen : Opening s.nextGeneration s.outcomes
        { turn with refused := turn.refused || (isUnpin call && !ok) } := ⟨ho.met, ho.unspent, ho.bound, ho.quiet⟩
    refine inv_enter hbase hopen ?_ now
    have hid : ∀ f : PersistedWatch → PersistedWatch, (∀ r, f r = r) →
        (s.live.map fun l => ({ l with watch := f l.watch } : Ledger)) = s.live := fun f hf => by
      cases s.live with
      | none => rfl
      | some l => simp [hf]
    cases next with
    | save c =>
      obtain ⟨hs, hfound, hkept, hprep⟩ := hp
      obtain ⟨hprep', hkept'⟩ := hprep.answered hkept ok
      refine ⟨live_answered hs _ _ _ _, hfound, ?_, hprep'⟩
      rw [hid _ fun r => by cases call <;> rfl]
      exact hkept'
    | throw =>
      refine ⟨live_answered hp.1 _ _ _ _, ?_⟩
      rw [hid _ fun r => by cases call <;> rfl]
      exact hp.2.answered ok
    | commit g | release => exact ⟨live_answered hp.1 _ _ _ _, hp.2⟩
    | delete g =>
      have hd : Deleting s turn g := hp
      exact ⟨hd.isDelete, by simp [hd.dead], hd.tagged, hd.found, hd.durable⟩

theorem inv_resume (h : Inv s) (now : ℕ) : Inv (resume s now) := by
  rw [resume]
  split
  next turn c ledger hr =>
    obtain ⟨ho, htagged, hgen, hne⟩ := h.turn _ _ hr
    have hbase : Base { s with live := some ledger } := ⟨h.disk_eq, h.bound, h.history⟩
    have hphase : PhaseOk { s with live := some ledger } turn (.calling c.rotateCalls (.commit ledger.generation)) :=
      ⟨⟨htagged, fun l hl => (by cases hl; exact hgen), nofun⟩, hgen, hne⟩
    exact inv_enter hbase ho hphase now
  next turn c hr =>
    obtain ⟨ho, hs, hkept⟩ := h.turn _ _ hr
    have hphase : PhaseOk s turn (.calling c.dropCalls .throw) := ⟨hs, hkept⟩
    exact inv_enter h.base ho hphase now
  next turn g previous hr =>
    obtain ⟨ho, hd, hc⟩ := h.turn _ _ hr
    split_ifs with hw
    · have hphase : PhaseOk s turn (.unlinking g previous) := ⟨hd, hc, by simpa using hw⟩
      exact inv_running h.base ho hphase
    · exact h
  · exact h

theorem inv_unlink (h : Inv s) (ok : Bool) : Inv (unlink s ok) := by
  rw [unlink]
  split
  swap
  · exact h
  next turn g previous hr =>
    obtain ⟨ho, hd, hc, hw⟩ := h.turn _ _ hr
    split_ifs
    · exact inv_deleted h.base ho hd hc hw
    · have hbase : Base { s with cache := (s.durable.map fun d => (⟨d, true⟩ : CacheEntry)).or previous } :=
        ⟨h.disk_eq, h.bound, h.history⟩
      refine inv_fail hbase ⟨hd.tagged, fun l hl => ?_, fun _ => ⟨hw, ?_⟩⟩ (fun _ => rfl) fun hreg => ?_
      · have hdead := hd.dead
        rw [show s.live = some l from hl] at hdead
        cases hdead
      · obtain ⟨d, hdur, -⟩ := map_eq_some_iff.mp hd.durable
        simp [hdur]
      · obtain ⟨request, hreg⟩ := hreg
        obtain ⟨e, he⟩ := hd.isDelete
        rw [hreg] at he
        cases he

end

/-! ## Writes -/

/-- A write of the durable generation ends, or a stale one is skipped. -/
structure Popped (s s' : State ρ) : Prop where
  disk_eq : s'.disk = s'.durable
  gen_eq : gen s'.durable = gen s.durable
  live_eq : s'.live = s.live
  claims_eq : s'.claims = s.claims
  running_eq : s'.running = s.running
  next_eq : s'.nextGeneration = s.nextGeneration
  outcomes_eq : s'.outcomes = s.outcomes
  tail : ∃ p, Tagged p ∧ s.writes = p :: s'.writes
  cache : s.cache = none → s'.cache = none

theorem saveEnded_tagged (s : State ρ) {p : Write} (hp : Tagged p) (ok : Bool) : saveEnded s p ok = s := by
  have hsome : p.expectedGeneration.isNone = false := by rw [Tagged] at hp; simp [hp]
  rw [saveEnded]
  split
  · simp [hsome]
  · rfl

theorem popped_restore (hd : s.disk = s.durable) {p : Write} {rest : List Write} (hw : s.writes = p :: rest)
    (hp : Tagged p) {b : Bool} (hb : b = true → s.cache ≠ none) :
    Popped s (if b then restoreCache { s with writes := rest } else { s with writes := rest }) := by
  cases b
  · exact ⟨hd, rfl, rfl, rfl, rfl, rfl, rfl, ⟨p, hp, hw⟩, id⟩
  · exact ⟨hd, rfl, rfl, rfl, rfl, rfl, rfl, ⟨p, hp, hw⟩, fun hn => absurd hn (hb rfl)⟩

theorem cached_ne_none {g : ℕ} (h : isCached s g = true) : s.cache ≠ none := fun hn => by
  simp [isCached, hn] at h

/-- A queued save of a live ledger leaves the durable generation as it is. -/
theorem endTagged (hd : s.disk = s.durable) {p : Write} {rest : List Write} (hw : s.writes = p :: rest)
    (hp : Tagged p) (ok : Bool) : Popped s (endWrite s ok) := by
  simp only [endWrite, hw]
  by_cases hstale : stale { s with writes := rest } p = true
  · rw [if_pos hstale]
    refine popped_restore hd hw hp fun hb => ?_
    rw [Bool.and_eq_true] at hb
    exact cached_ne_none hb.1
  rw [if_neg hstale]
  cases ok with
  | true =>
    rw [if_pos rfl, saveEnded_tagged _ hp]
    have hgen : gen s.durable = some p.ledger.generation := by
      rw [Tagged] at hp
      simpa [stale, hp, gen] using hstale
    exact ⟨rfl, hgen.symm, rfl, rfl, rfl, rfl, rfl, ⟨p, hp, hw⟩, id⟩
  | false =>
    rw [if_neg (by simp), saveEnded_tagged _ hp]
    refine popped_restore hd hw hp fun hb => ?_
    rw [Bool.and_eq_true] at hb
    exact cached_ne_none hb.2

section

variable {s s' : State ρ} (h : Popped s s')
include h

theorem Popped.tagged (k : ∀ p ∈ s.writes, Tagged p) : ∀ p ∈ s'.writes, Tagged p := by
  obtain ⟨p, -, hw⟩ := h.tail
  intro q hq
  exact k q (by rw [hw]; exact mem_cons_of_mem _ hq)

theorem Popped.settled (k : Settled s) : Settled s' := by
  refine ⟨h.tagged k.tagged, fun l hl => ?_, fun hn => ?_⟩
  · rw [h.gen_eq]
    exact k.live l (h.live_eq ▸ hl)
  · obtain ⟨p, -, hw⟩ := h.tail
    rw [(k.stored (h.live_eq ▸ hn)).1] at hw
    cases hw

theorem Popped.deleting {g : ℕ} (k : Deleting s t g) : Deleting s' t g :=
  ⟨k.isDelete, h.live_eq.trans k.dead, h.tagged k.tagged, k.found, h.gen_eq.trans k.durable⟩

/-- The candidate's write is still to come. -/
theorem Popped.saving {ledger : Ledger} (k : Saving s ledger) : Saving s' ledger := by
  obtain ⟨p, hp, hw⟩ := h.tail
  obtain ⟨pre, post, hq, hpre, hpost⟩ := k.queued
  have hcand : ¬ Tagged (⟨ledger, none⟩ : Write) := nofun
  refine ⟨?_, fun l hl => ?_, fun hn => ?_, ?_, h.gen_eq ▸ k.newer, ?_⟩
  · cases pre with
    | nil =>
      rw [hq, nil_append, List.cons.injEq] at hw
      exact absurd (hw.1 ▸ hp) hcand
    | cons q pre =>
      rw [hq, List.cons_append, List.cons.injEq] at hw
      exact ⟨pre, post, hw.2.symm, fun r hr => hpre r (mem_cons_of_mem _ hr), hpost⟩
  · rw [h.gen_eq]
    exact k.live l (h.live_eq ▸ hl)
  · rw [(k.stored (h.live_eq ▸ hn)).1, List.cons.injEq] at hw
    exact absurd (hw.1 ▸ hp) hcand
  · rw [h.next_eq]
    exact k.bound
  · rw [h.outcomes_eq]
    exact k.unspent

theorem Popped.inv (k : Inv s) : Inv s' where
  disk_eq := h.disk_eq
  bound := by
    rw [h.gen_eq, h.next_eq]
    exact k.bound
  history := by
    rw [h.next_eq, h.outcomes_eq]
    refine ⟨k.history.met, fun o ho g hg => ?_, k.history.once, k.history.windows, fun hn => k.history.quiet ?_, k.history.kept⟩
    · rw [h.gen_eq]
      exact k.history.spent o ho g hg
    · have hgen := h.gen_eq
      rw [hn] at hgen
      simpa [gen] using hgen.symm
  idle hr := h.settled (k.idle (h.running_eq ▸ hr))
  turn t phase hr := by
    obtain ⟨hopen, hp⟩ := k.turn t phase (h.running_eq ▸ hr)
    rw [h.next_eq, h.outcomes_eq]
    refine ⟨hopen, ?_⟩
    have hkept : ∀ {pend : List ClaimCall}, Kept t s.live s.claims pend → Kept t s'.live s'.claims pend := fun hk => by
      rw [h.live_eq, h.claims_eq]
      exact hk
    cases phase with
    | calling calls next =>
      cases next with
      | save c => exact ⟨h.settled hp.1, h.gen_eq.trans hp.2.1, hkept hp.2.2.1, hp.2.2.2⟩
      | throw => exact ⟨h.settled hp.1, hkept hp.2⟩
      | commit g => exact ⟨h.settled hp.1, h.gen_eq.trans hp.2.1, hp.2.2⟩
      | release => exact ⟨h.settled hp.1, hp.2⟩
      | delete g => exact h.deleting hp
    | saving c ledger => exact ⟨h.saving hp.1, h.gen_eq.trans hp.2.1, hkept hp.2.2⟩
    | saved c ledger => exact ⟨h.tagged hp.1, h.gen_eq.trans hp.2.1, hp.2.2⟩
    | saveFailed c => exact ⟨h.settled hp.1, hkept hp.2⟩
    | waiting g previous => exact ⟨h.deleting hp.1, h.cache hp.2⟩
    | unlinking g previous =>
      obtain ⟨p, -, hw⟩ := h.tail
      rw [hp.2.2] at hw
      cases hw

end

/-- Of every write of a phase other than the candidate's save, the generation is named. -/
theorem head_tagged (h : Inv s) {p : Write} {rest : List Write} (hw : s.writes = p :: rest) :
    Tagged p ∨ ∃ t c ledger, s.running = some (t, .saving c ledger) ∧ p = ⟨ledger, none⟩ ∧ ∀ q ∈ rest, Tagged q := by
  have hmem : p ∈ s.writes := by rw [hw]; exact mem_cons_self
  cases hr : s.running with
  | none => exact .inl ((h.idle hr).tagged p hmem)
  | some r =>
    obtain ⟨t, phase⟩ := r
    obtain ⟨-, hp⟩ := h.turn t phase hr
    cases phase with
    | calling calls next =>
      cases next with
      | save c | throw | commit g | release => exact .inl (hp.1.tagged p hmem)
      | delete g => exact .inl (Deleting.tagged hp p hmem)
    | saving c ledger =>
      obtain ⟨pre, post, hq, hpre, hpost⟩ := hp.1.queued
      cases pre with
      | nil =>
        rw [hq, nil_append, List.cons.injEq] at hw
        exact .inr ⟨t, c, ledger, rfl, hw.1.symm, hw.2 ▸ hpost⟩
      | cons q pre =>
        rw [hq, List.cons_append, List.cons.injEq] at hw
        exact .inl (hw.1 ▸ hpre q mem_cons_self)
    | saved c ledger => exact .inl (hp.1 p hmem)
    | saveFailed c | waiting g previous | unlinking g previous => exact .inl (hp.1.tagged p hmem)

/-- The candidate's own save ends: its generation is the durable one, or nothing happened. -/
theorem inv_candidate (h : Inv s) {c : Candidate ρ} {ledger : Ledger} {rest : List Write}
    (hr : s.running = some (t, .saving c ledger)) (hw : s.writes = ⟨ledger, none⟩ :: rest) (hrest : ∀ q ∈ rest, Tagged q)
    (ok : Bool) : Inv (endWrite s ok) := by
  obtain ⟨ho, hsave, hfound, hkept⟩ := h.turn _ _ hr
  have hnew : t.found ≠ some ledger.generation := fun hf =>
    absurd (hsave.newer ledger.generation (hfound.trans hf)) (Nat.lt_irrefl _)
  cases ok with
  | true =>
    have hend : endWrite s true = { s with writes := rest, disk := some ledger, durable := some ledger
                                           running := some (t, .saved c ledger) } := by
      simp [endWrite, hw, stale, saveEnded, hr]
    rw [hend]
    refine inv_running (s := { s with writes := rest, disk := some ledger, durable := some ledger })
      ⟨rfl, fun g hg => ?_, ?_⟩ ho ⟨hrest, rfl, hnew⟩
    · cases hg
      exact hsave.bound
    · refine ⟨h.history.met, fun o hmem g hg => ⟨(h.history.spent o hmem g hg).1, fun heq => ?_⟩, h.history.once,
        h.history.windows, nofun, h.history.kept⟩
      cases heq
      rw [hsave.unspent o hmem] at hg
      cases hg
  | false =>
    have hend : endWrite s false = { s with
        writes := rest, running := some (t, .saveFailed c)
        cache := if rest.isEmpty && isCached s ledger.generation then s.durable.map fun d => ⟨d, true⟩ else s.cache } := by
      by_cases hc : (rest.isEmpty && isCached s ledger.generation) = true
      · have hc' : (rest.isEmpty && isCached { s with writes := rest } ledger.generation) = true := hc
        simp only [endWrite, hw, stale, any_none, Bool.false_eq_true, if_false, hc', if_true, hc]
        simp [saveEnded, restoreCache, hr]
      · have hc' : ¬ (rest.isEmpty && isCached { s with writes := rest } ledger.generation) = true := hc
        simp only [endWrite, hw, stale, any_none, Bool.false_eq_true, if_false, hc', hc]
        simp [saveEnded, hr]
    rw [hend]
    refine inv_running (s := { s with
        writes := rest
        cache := if rest.isEmpty && isCached s ledger.generation then s.durable.map fun d => ⟨d, true⟩ else s.cache })
      ⟨h.disk_eq, h.bound, h.history⟩ ho ⟨⟨hrest, hsave.live, fun hn => ?_⟩, hkept⟩
    obtain ⟨hq, hcache⟩ := hsave.stored hn
    have hnil : rest = [] := by
      rw [hw] at hq
      simpa using hq
    refine ⟨hnil, ?_⟩
    have hc : (rest.isEmpty && isCached s ledger.generation) = true := by simp [hnil, isCached, hcache]
    rw [if_pos hc]
    cases s.durable <;> rfl

theorem inv_step (h : Inv s) (e : Step) : Inv (step R s e) := by
  cases e with
  | register request | delete expected => exact (touch_chain s _).inv h
  | turn now =>
    simp only [step, nextTurn]
    split
    next m rest hr hchain =>
      have hpop : Inv { s with mutationChain := rest } := (touch_chain s rest).inv h
      exact inv_start R hpop (hpop.idle hr) now m
    · exact h
  | answer ok now => exact inv_answer h ok now
  | resume now => exact inv_resume h now
  | write ok =>
    cases hw : s.writes with
    | nil =>
      simp only [step, endWrite, hw]
      exact h
    | cons p rest =>
      rcases head_tagged h hw with hp | ⟨t, c, ledger, hr, rfl, hrest⟩
      · exact (endTagged h.disk_eq hw hp ok).inv h
      · exact inv_candidate h hr hw hrest ok
  | unlink ok => exact inv_unlink h ok
  | change next => exact (touch_change s next).inv h
  | complete => exact (touch_complete s).inv h
  | persist => exact (touch_persistLive s).inv h

theorem inv_loaded (stored : Option Ledger) (claims : Claims) : Inv (loaded stored claims : State ρ) where
  disk_eq := rfl
  bound g hg := by
    obtain ⟨l, rfl, rfl⟩ := map_eq_some_iff.mp hg
    exact Nat.lt_succ_self _
  history := ⟨by simp [loaded], by simp [loaded], by simp [loaded], fun mid hmid _ => (by simp_all [loaded]),
    fun _ mid hmid _ => (by simp_all [loaded]), by simp [loaded]⟩
  idle _ := by
    refine ⟨by simp [loaded], fun l hl => ?_, fun _ => ⟨rfl, ?_⟩⟩
    · obtain ⟨hl, -⟩ := filter_eq_some_iff.mp hl
      exact congrArg gen hl
    · cases stored <;> rfl
  turn t phase hr := by cases hr

/-- A write changes the generation on disk only as the save of the running registration. -/
theorem write_generation (h : Inv s) (ok : Bool) : gen (endWrite s ok).disk = gen s.disk ∨
    ∃ t c ledger, s.running = some (t, .saving c ledger) ∧ (endWrite s ok).disk = some ledger := by
  cases hw : s.writes with
  | nil => exact .inl (by simp [endWrite, hw])
  | cons p rest =>
    rcases head_tagged h hw with hp | ⟨t, c, ledger, hr, rfl, -⟩
    · have hpop := endTagged h.disk_eq hw hp ok
      rw [hpop.disk_eq, hpop.gen_eq, h.disk_eq]
      exact .inl rfl
    · cases ok with
      | true => exact .inr ⟨t, c, ledger, hr, by simp [endWrite, hw, stale, saveEnded, hr]⟩
      | false =>
        refine .inl ?_
        simp only [endWrite, hw, stale, any_none, Bool.false_eq_true, if_false]
        split_ifs <;> simp [saveEnded, restoreCache, hr]

/-- In every run from a loaded ledger:
    - a register or delete with an expected generation succeeds only on that generation, and
      at most one does; of those that expect no watch, at most one between two deletions;
    - a register that fails leaves the live watch, its generation, conditions and claims, and
      no claim of its own unless an unpin is refused;
    - a write changes the generation on disk only as the save of the running registration,
      and with no mutation running the ledger on disk is of the current generation. -/
theorem generation_cas (stored : Option Ledger) (claims : Claims) (ss : List Step) : let s := run R (loaded stored claims) ss
    (∀ o ∈ s.outcomes, o.succeeded = true → expectationMet o.turn.mutation.expected o.turn.found = true) ∧
      (∀ g, s.outcomes.countP (Outcome.spends g) ≤ 1) ∧ Windows s.outcomes ∧
      (∀ o ∈ s.outcomes, o.rejected → Kept o.turn o.after.live o.after.claims []) ∧
      (∀ ok, gen (endWrite s ok).disk = gen s.disk ∨
        ∃ t c ledger, s.running = some (t, .saving c ledger) ∧ (endWrite s ok).disk = some ledger) ∧
      (s.running = none → gen s.disk = gen (current s)) := by
  have h := Run.invariant_all (I := Inv) (fun s e hs => inv_step R hs e) (inv_loaded (ρ := ρ) stored claims) ss
  exact ⟨h.history.met, h.history.once, h.history.windows, h.history.kept, write_generation h, fun hr =>
    (congrArg gen h.disk_eq).trans (gen_current (h.idle hr)).symm⟩

end PiWebUi.Watch.Generations
