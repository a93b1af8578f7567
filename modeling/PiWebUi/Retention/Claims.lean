/-
  PiWebUi.Retention.Claims — a lease's record and its claim, call by call.

  `Fits` says of each await what the store holds of its lease, what was last asked of the
  runtime for it and whether the runtime may hold the claim; `Rests` says it of a lease that
  no call is at work on. A lease has one call at work on it (`alone`), since operations take
  turns and an acquisition works on an id that nobody else has yet. Pins that
  `reapplyForSession` asks for stand beside that call; where it may not be disturbed
  (`Point.opens`) none is in flight.
-/

import PiWebUi.Retention.PinExpiryManager
import PiWebUi.Lib.InFlight

namespace PiWebUi.Retention

open PiWebUi.Lib List

/-! ## The account of a lease -/

/-- The call is at work on the lease: it is what decides next over its record and claim. -/
def Point.owns : Point → Option Bool → Bool
  | .acquire .save _, some true => false
  | .reapply .., _ => false
  | _, _ => true

/-- A pin of the lease may be asked for, or be granted, beside the call. -/
def Point.opens : Point → Option Bool → Bool
  | .remove .unpin .., some _ => false
  | .remove .delete .., _ => false
  | _, _ => true

/-- The await is that of an operation that has its turn. -/
def Point.isOperation : Point → Bool
  | .renew .. | .remove .. => true
  | _ => false

/-- `updated` is the record with another deadline. -/
def Renews (updated r : PersistedApiPin) : Prop := ∃ pinnedUntil, updated = { r with pinnedUntil }

/-- The store has a resident record. -/
def Resident (record : Option PersistedApiPin) : Prop := ∃ r, record = some r ∧ r.isResident = true

/-- What holds of the lease of an await, of its record and of its claim. -/
def Fits : Point → Option Bool → Option PersistedApiPin → Claim → Prop
  | .acquire .pin r, a, record, cl =>
    record = none ∧ r.isResident = true ∧ cl.asked = true ∧ cl.refused = false ∧ (cl.held = true → a = some true)
  | .acquire .save _, some true, _, _ => True
  | .acquire .save r, _, record, cl =>
    record = none ∧ cl.asked = r.isResident ∧ cl.refused = false ∧ (cl.held = true → r.isResident = true)
  | .acquire .unpin _, a, record, cl => record = none ∧ cl.asked = false ∧ (cl.held = true → a = none)
  | .acquire .drop _, _, record, cl => record = none ∧ cl.asked = false ∧ cl.held = false
  | .renew stage u, _, record, cl =>
    (∃ r, record = some r ∧ Renews u r) ∧ cl.asked = u.isResident ∧ cl.refused = false ∧
      (cl.held = true → u.isResident = true) ∧ (stage = .pin → u.isResident = true)
  | .remove .unpin r _, a, record, cl =>
    record = some r ∧ r.isResident = true ∧ cl.asked = false ∧ cl.refused = false ∧ (cl.held = true → a = none)
  | .remove .delete _ _, some true, record, cl => record = none ∧ cl.asked = false ∧ cl.held = false
  | .remove .delete r _, _, record, cl => record = some r ∧ cl.asked = false ∧ cl.refused = false ∧ cl.held = false
  | .remove .restore r _, _, record, cl => record = some r ∧ r.isResident = true ∧ cl.asked = true ∧ cl.refused = false
  | .reapply .., none, record, _ => Resident record
  | .reapply .., some _, _, _ => True

/-- What holds of a lease that no call is at work on: a resident record is there where its
    claim was the last thing asked for, and a claim is held for such a record only. -/
structure Rests (record : Option PersistedApiPin) (cl : Claim) : Prop where
  asked : (cl.asked = true ∧ cl.refused = false) ↔ Resident record
  held : cl.held = true → Resident record
  accepted : record ≠ none → cl.refused = false

def State.On (s : State) (l : LeaseId) (i : ℕ) (p : Point) (a : Option Bool) : Prop :=
  s.calls[i]? = some (.waits p a) ∧ p.leaseId = l

/-- The account of a lease. -/
structure Accounted (s : State) (l : LeaseId) : Prop where
  fits : ∀ i p a, s.On l i p a → Fits p a (s.cache.get l) (s.claims l)
  rests : (∀ i p a, s.On l i p a → p.owns a = false) → Rests (s.cache.get l) (s.claims l)
  alone : ∀ i j p q a b, s.On l i p a → s.On l j q b → p.owns a = true → q.owns b = true → i = j
  opened : ∀ i j p q b, s.On l i p none → p.owns none = false → s.On l j q b → q.opens b = true
  turned : ∀ i p a, s.On l i p a → p.isOperation = true → s.hasTurn l i = true

structure Inv (s : State) : Prop where
  fresh : ∀ l, s.nextLease ≤ l → s.cache.get l = none ∧ s.claims l = {} ∧ ∀ i p a, ¬ s.On l i p a
  keyed : ∀ l r, s.cache.get l = some r → r.leaseId = l
  accounted : ∀ l, Accounted s l

/-! ## Moves of a call -/

section

variable {s s' : State} {i j : ℕ} {l : LeaseId} {ph ph' : Phase} {p q : Point} {a b : Option Bool}

theorem on_set (hi : s.calls[i]? = some ph) (hcalls : s'.calls = s.calls.set i ph') :
    s'.On l j q b ↔ (j ≠ i ∧ s.On l j q b) ∨ (j = i ∧ ph' = .waits q b ∧ q.leaseId = l) := by
  unfold State.On
  rw [hcalls]
  constructor
  · rintro ⟨hj, hl⟩
    rcases InFlight.get_set hj with ⟨rfl, hph⟩ | ⟨hne, hj⟩
    · exact .inr ⟨rfl, hph.symm, hl⟩
    · exact .inl ⟨hne, hj, hl⟩
  · rintro (⟨hne, hj, hl⟩ | ⟨rfl, rfl, hl⟩)
    · exact ⟨InFlight.set_other _ hne hj, hl⟩
    · exact ⟨InFlight.set_self _ hi, hl⟩

/-- A lease that the move does not touch. -/
structure Untouched (s s' : State) (l : LeaseId) : Prop where
  record : s'.cache.get l = s.cache.get l
  claim : s'.claims l = s.claims l

/-- Turns of other calls than the one that moves. -/
def KeepsTurns (s s' : State) (i : ℕ) : Prop := ∀ l j, j ≠ i → s.hasTurn l j = true → s'.hasTurn l j = true

/-- Another call than the one that moves owns the lease. -/
def State.OwnedBeside (s : State) (l : LeaseId) (i : ℕ) : Prop := ∃ j p a, j ≠ i ∧ s.On l j p a ∧ p.owns a = true

/-- What has to hold of a lease where a call moves to `ph'`. -/
structure Moves (s s' : State) (l : LeaseId) (i : ℕ) (ph' : Phase) : Prop where
  fits : ∀ p a, ph' = .waits p a → p.leaseId = l → Fits p a (s'.cache.get l) (s'.claims l)
  others : ∀ j q b, j ≠ i → s.On l j q b → Fits q b (s'.cache.get l) (s'.claims l)
  rests : ¬ s.OwnedBeside l i → (∀ p a, ph' = .waits p a → p.leaseId = l → p.owns a = false) →
    Rests (s'.cache.get l) (s'.claims l)
  alone : ∀ p a, ph' = .waits p a → p.leaseId = l → p.owns a = true → ¬ s.OwnedBeside l i
  opened : ∀ p a, ph' = .waits p a → p.leaseId = l →
    ((∃ j q, j ≠ i ∧ s.On l j q none ∧ q.owns none = false) → p.opens a = true) ∧
    (a = none → p.owns none = false → p.opens none = true ∧ ∀ j q b, j ≠ i → s.On l j q b → q.opens b = true)
  turned : ∀ p a, ph' = .waits p a → p.leaseId = l → p.isOperation = true → s'.hasTurn l i = true

theorem Accounted.move (h : Accounted s l) (hi : s.calls[i]? = some ph) (hcalls : s'.calls = s.calls.set i ph')
    (hturns : KeepsTurns s s' i) (hm : Moves s s' l i ph') : Accounted s' l := by
  constructor
  · intro j q b hq
    rcases (on_set hi hcalls).mp hq with ⟨hne, hq⟩ | ⟨rfl, hph, hl⟩
    · exact hm.others j q b hne hq
    · exact hm.fits q b hph hl
  · intro hfree
    apply hm.rests
    · rintro ⟨j, q, b, hne, hq, howns⟩
      have hnot := hfree j q b ((on_set hi hcalls).mpr (.inl ⟨hne, hq⟩))
      rw [howns] at hnot
      cases hnot
    · intro p a hph hl
      exact hfree i p a ((on_set hi hcalls).mpr (.inr ⟨rfl, hph, hl⟩))
  · intro j k p q a b hp hq howns howns'
    rcases (on_set hi hcalls).mp hp with ⟨hne, hp⟩ | ⟨rfl, hph, hl⟩ <;>
      rcases (on_set hi hcalls).mp hq with ⟨hne', hq⟩ | ⟨rfl, hph', hl'⟩
    · exact h.alone j k p q a b hp hq howns howns'
    · exact absurd ⟨j, p, a, hne, hp, howns⟩ (hm.alone q b hph' hl' howns')
    · exact absurd ⟨k, q, b, hne', hq, howns'⟩ (hm.alone p a hph hl howns)
    · rfl
  · intro j k p q b hp hfree hq
    rcases (on_set hi hcalls).mp hp with ⟨hne, hp⟩ | ⟨rfl, hph, hl⟩ <;>
      rcases (on_set hi hcalls).mp hq with ⟨hne', hq⟩ | ⟨rfl, hph', hl'⟩
    · exact h.opened j k p q b hp hfree hq
    · exact (hm.opened q b hph' hl').1 ⟨j, p, hne, hp, hfree⟩
    · exact ((hm.opened p none hph hl).2 rfl hfree).2 k q b hne' hq
    · obtain ⟨rfl, rfl⟩ : p = q ∧ b = none := by
        rw [hph] at hph'
        cases hph'
        exact ⟨rfl, rfl⟩
      exact ((hm.opened p none hph hl).2 rfl hfree).1
  · intro j q b hq hop
    rcases (on_set hi hcalls).mp hq with ⟨hne, hq⟩ | ⟨rfl, hph, hl⟩
    · exact hturns l j hne (h.turned j q b hq hop)
    · exact hm.turned q b hph hl hop

theorem Accounted.rests_beside (h : Accounted s l) (hi : s.calls[i]? = some ph)
    (hold : ∀ p a, ph = .waits p a → p.leaseId = l → p.owns a = false) (hbeside : ¬ s.OwnedBeside l i) :
    Rests (s.cache.get l) (s.claims l) := by
  apply h.rests
  intro j q b hq
  by_cases hj : j = i
  · subst hj
    exact hold q b (Option.some.inj (hi.symm.trans hq.1)) hq.2
  · exact Bool.eq_false_iff.mpr fun howns => hbeside ⟨j, q, b, hj, hq, howns⟩

/-- A lease that the move neither touches nor leaves nor comes to. -/
theorem moves_untouched (h : Accounted s l) (hi : s.calls[i]? = some ph) (hsame : Untouched s s' l)
    (hold : ∀ p a, ph = .waits p a → p.leaseId = l → p.owns a = false) (hnew : ∀ p a, ph' = .waits p a → p.leaseId ≠ l) :
    Moves s s' l i ph' := by
  constructor
  · intro p a hph hl
    exact absurd hl (hnew p a hph)
  · intro j q b _ hq
    rw [hsame.record, hsame.claim]
    exact h.fits j q b hq
  · intro hbeside _
    rw [hsame.record, hsame.claim]
    exact h.rests_beside hi hold hbeside
  · intro p a hph hl
    exact absurd hl (hnew p a hph)
  · intro p a hph hl
    exact absurd hl (hnew p a hph)
  · intro p a hph hl
    exact absurd hl (hnew p a hph)

theorem Inv.move (h : Inv s) (hi : s.calls[i]? = some ph) (hcalls : s'.calls = s.calls.set i ph')
    (hturns : KeepsTurns s s' i) (hnext : s.nextLease ≤ s'.nextLease)
    (hfresh : ∀ l, s'.nextLease ≤ l → Untouched s s' l ∧ ∀ p a, ph' = .waits p a → p.leaseId ≠ l)
    (hkeyed : ∀ l r, s'.cache.get l = some r → r.leaseId = l) (hmoves : ∀ l, Moves s s' l i ph') : Inv s' := by
  constructor
  · intro l hl
    obtain ⟨hsame, hnew⟩ := hfresh l hl
    obtain ⟨hrecord, hclaim, hnone⟩ := h.fresh l (hnext.trans hl)
    refine ⟨hsame.record.trans hrecord, hsame.claim.trans hclaim, ?_⟩
    intro j q b hq
    rcases (on_set hi hcalls).mp hq with ⟨_, hq⟩ | ⟨_, hph, hl'⟩
    · exact hnone j q b hq
    · exact hnew q b hph hl'
  · exact hkeyed
  · exact fun l => (h.accounted l).move hi hcalls hturns (hmoves l)

/-- A move that touches one lease. -/
theorem Inv.moveOn {m : LeaseId} (h : Inv s) (hi : s.calls[i]? = some ph) (hcalls : s'.calls = s.calls.set i ph')
    (hturns : KeepsTurns s s' i) (hnext : s.nextLease ≤ s'.nextLease) (hlt : m < s'.nextLease)
    (hsame : ∀ l, l ≠ m → Untouched s s' l) (hkeyed : ∀ r, s'.cache.get m = some r → r.leaseId = m)
    (hold : ∀ p a, ph = .waits p a → p.leaseId ≠ m → p.owns a = false) (hnew : ∀ p a, ph' = .waits p a → p.leaseId = m)
    (hmoves : Moves s s' m i ph') : Inv s' := by
  refine h.move hi hcalls hturns hnext (fun l hl => ?_) (fun l r hr => ?_) fun l => ?_
  · have hne : l ≠ m := by
      rintro rfl
      exact Nat.not_lt.mpr hl hlt
    exact ⟨hsame l hne, fun p a hph hp => hne (hp.symm.trans (hnew p a hph))⟩
  · by_cases hl : l = m
    · subst hl
      exact hkeyed r hr
    · rw [(hsame l hl).record] at hr
      exact h.keyed l r hr
  · by_cases hl : l = m
    · subst hl
      exact hmoves
    · refine moves_untouched (h.accounted l) hi (hsame l hl) (fun p a hph hp => ?_) fun p a hph hp => hl (hp.symm.trans (hnew p a hph))
      exact hold p a hph (hp.trans_ne hl)

/-- A call is on a lease whose id was given. -/
theorem Inv.lt_of_on (h : Inv s) (hp : s.On l i p a) : l < s.nextLease := by
  by_contra hle
  exact (h.fresh l (Nat.le_of_not_lt hle)).2.2 i p a hp

theorem Inv.lt_of_record (h : Inv s) {r : PersistedApiPin} (hr : s.cache.get l = some r) : l < s.nextLease := by
  by_contra hle
  rw [(h.fresh l (Nat.le_of_not_lt hle)).1] at hr
  cases hr

/-- Nothing that is awaited changes, and the call awaits nothing afterwards. -/
theorem Inv.idle (h : Inv s) (hi : s.calls[i]? = some ph) (hcalls : s'.calls = s.calls.set i ph')
    (hturns : KeepsTurns s s' i) (hnext : s'.nextLease = s.nextLease) (hcache : s'.cache = s.cache)
    (hclaims : s'.claims = s.claims) (hold : ∀ p a, ph = .waits p a → p.owns a = false) (hnew : ∀ p a, ph' ≠ .waits p a) :
    Inv s' := by
  have hsame : ∀ l, Untouched s s' l := fun l => ⟨by rw [hcache], by rw [hclaims]⟩
  refine h.move hi hcalls hturns hnext.ge (fun l _ => ⟨hsame l, fun p a hph => absurd hph (hnew p a)⟩) ?_ fun l => ?_
  · rw [hcache]
    exact h.keyed
  · exact moves_untouched (h.accounted l) hi (hsame l) (fun p a hph _ => hold p a hph) fun p a hph => absurd hph (hnew p a)

/-- The calls beside the one that owns a lease: none owns it, and an acquisition among them
    has landed. -/
theorem others_of_owner (h : Accounted s l) (hp : s.On l i p a) (howns : p.owns a = true) : ¬ s.OwnedBeside l i := by
  rintro ⟨j, q, b, hne, hq, howns'⟩
  exact hne (h.alone j i q p b a hq hp howns' howns)

/-- A point that does not own its lease: a landed acquisition, or a pin that is applied again. -/
theorem not_owns (h : p.owns a = false) : (∃ r, p = .acquire .save r ∧ a = some true) ∨ ∃ r rest, p = .reapply r rest := by
  cases p with
  | acquire stage r =>
    cases stage with
    | save =>
      rcases a with _ | _ | _
      · cases h
      · cases h
      · exact .inl ⟨r, rfl, rfl⟩
    | pin | unpin | drop => cases h
  | renew stage u => cases h
  | remove stage r after => cases stage <;> cases h
  | reapply r rest => exact .inr ⟨r, rest, rfl⟩

variable {cl : Claim} {record : Option PersistedApiPin}

/-- What holds of a call that does not own its lease holds as long as a pin in flight finds a
    resident record. -/
theorem Fits.beside {record' : Option PersistedApiPin} {cl' : Claim} (h : Fits p a record cl)
    (howns : p.owns a = false) (hrecord : p.owns none = false → a = none → Resident record → Resident record') :
    Fits p a record' cl' := by
  rcases not_owns howns with ⟨r, rfl, rfl⟩ | ⟨r, rest, rfl⟩
  · trivial
  · cases a with
    | none => exact hrecord rfl rfl h
    | some ok => trivial

theorem owns_of_beside (hbeside : ¬ s.OwnedBeside l i) (hne : j ≠ i) (hq : s.On l j q b) : q.owns b = false :=
  Bool.eq_false_iff.mpr fun howns => hbeside ⟨j, q, b, hne, hq, howns⟩

/-- The call that owned the lease leaves it. -/
theorem Inv.leave (h : Inv s) (hi : s.calls[i]? = some (.waits p a)) (howns : p.owns a = true)
    (hcalls : s'.calls = s.calls.set i ph') (hturns : KeepsTurns s s' i) (hnext : s'.nextLease = s.nextLease)
    (hcache : s'.cache = s.cache) (hclaims : ∀ l, l ≠ p.leaseId → s'.claims l = s.claims l) (hnew : ∀ p a, ph' ≠ .waits p a)
    (hrests : Rests (s.cache.get p.leaseId) (s'.claims p.leaseId)) : Inv s' := by
  have hon : s.On p.leaseId i p a := ⟨hi, rfl⟩
  have hsame : ∀ l, l ≠ p.leaseId → Untouched s s' l := fun l hl => ⟨by rw [hcache], hclaims l hl⟩
  refine h.moveOn hi hcalls hturns hnext.ge (hnext ▸ h.lt_of_on hon) hsame (fun r hr => h.keyed _ r (hcache ▸ hr)) (fun q b hph hne => ?_)
    (fun q b hph => absurd hph (hnew q b)) ?_
  · cases hph
    exact absurd rfl hne
  have hbeside := others_of_owner (h.accounted _) hon howns
  constructor
  · exact fun q b hph => absurd hph (hnew q b)
  · intro j q b hne hq
    rw [hcache]
    exact ((h.accounted _).fits j q b hq).beside (owns_of_beside hbeside hne hq) fun _ _ hr => hr
  · intro _ _
    rw [hcache]
    exact hrests
  · exact fun q b hph => absurd hph (hnew q b)
  · exact fun q b hph => absurd hph (hnew q b)
  · exact fun q b hph => absurd hph (hnew q b)

/-- The call that owns the lease goes on with it. -/
theorem Inv.stay (h : Inv s) (hi : s.calls[i]? = some (.waits p a)) (howns : p.owns a = true)
    (hcalls : s'.calls = s.calls.set i (.waits q b)) (hturns : s'.turns = s.turns) (hnext : s'.nextLease = s.nextLease)
    (hlease : q.leaseId = p.leaseId) (hsame : ∀ l, l ≠ p.leaseId → Untouched s s' l)
    (hkeyed : ∀ r, s'.cache.get p.leaseId = some r → r.leaseId = p.leaseId)
    (hkind : q.owns none = true ∧ (q.isOperation = true → p.isOperation = true))
    (hfits : Fits q b (s'.cache.get p.leaseId) (s'.claims p.leaseId))
    (hrests : q.owns b = false → Rests (s'.cache.get p.leaseId) (s'.claims p.leaseId))
    (hopens : ∀ j q', s.On p.leaseId j q' none → q'.owns none = false → p.opens a = true → Resident (s.cache.get p.leaseId) →
      q.opens b = true ∧ Resident (s'.cache.get p.leaseId)) : Inv s' := by
  have hon : s.On p.leaseId i p a := ⟨hi, rfl⟩
  have hacc := h.accounted p.leaseId
  have hbeside := others_of_owner hacc hon howns
  have hturn : ∀ l j, s'.hasTurn l j = s.hasTurn l j := fun l j => by rw [State.hasTurn, State.hasTurn, hturns]
  have hpinned : ∀ j q', s.On p.leaseId j q' none → q'.owns none = false →
      q.opens b = true ∧ Resident (s'.cache.get p.leaseId) := by
    intro j q' hq' hfree
    have hresident : Resident (s.cache.get p.leaseId) := by
      rcases not_owns hfree with ⟨r, rfl, hnone⟩ | ⟨r, rest, rfl⟩
      · cases hnone
      · exact hacc.fits j _ none hq'
    exact hopens j q' hq' hfree (hacc.opened j i q' p a hq' hfree hon) hresident
  refine h.moveOn hi hcalls (fun l j _ hj => (hturn l j).trans hj) hnext.ge (hnext ▸ h.lt_of_on hon) hsame hkeyed (fun q' b' hph hne => ?_)
    (fun q' b' hph => by cases hph; exact hlease) ?_
  · cases hph
    exact absurd rfl hne
  constructor
  · intro q' b' hph _
    cases hph
    exact hfits
  · intro j q' b' hne hq'
    refine (hacc.fits j q' b' hq').beside (owns_of_beside hbeside hne hq') fun hfree hnone _ => ?_
    subst hnone
    exact (hpinned j q' hq' hfree).2
  · intro _ hfree
    exact hrests (hfree q b rfl hlease)
  · exact fun _ _ _ _ _ => hbeside
  · intro q' b' hph _
    cases hph
    refine ⟨?_, fun _ hfree => ?_⟩
    · rintro ⟨j, q', _, hq', hfree⟩
      exact (hpinned j q' hq' hfree).1
    · rw [hkind.1] at hfree
      cases hfree
  · intro q' b' hph _ hop
    cases hph
    rw [hturn]
    exact hacc.turned i p a hon (hkind.2 hop)

/-- A call comes to own a lease that no call owns. -/
theorem Inv.take (h : Inv s) (hi : s.calls[i]? = some ph) (hold : ∀ p a, ph ≠ .waits p a)
    (hcalls : s'.calls = s.calls.set i (.waits p none)) (hturns : s'.turns = s.turns) (hnext : s.nextLease ≤ s'.nextLease)
    (hlt : p.leaseId < s'.nextLease) (hcache : s'.cache = s.cache) (hclaims : ∀ l, l ≠ p.leaseId → s'.claims l = s.claims l)
    (hbeside : ¬ s.OwnedBeside p.leaseId i) (hkind : p.owns none = true)
    (hfits : Fits p none (s.cache.get p.leaseId) (s'.claims p.leaseId))
    (hopens : Resident (s.cache.get p.leaseId) → p.opens none = true)
    (hturn : p.isOperation = true → s.hasTurn p.leaseId i = true) : Inv s' := by
  have hsame : ∀ l, l ≠ p.leaseId → Untouched s s' l := fun l hl => ⟨by rw [hcache], hclaims l hl⟩
  have hturn' : ∀ l j, s'.hasTurn l j = s.hasTurn l j := fun l j => by rw [State.hasTurn, State.hasTurn, hturns]
  have hacc := h.accounted p.leaseId
  refine h.moveOn hi hcalls (fun l j _ hj => (hturn' l j).trans hj) hnext hlt hsame (fun r hr => h.keyed _ r (hcache ▸ hr))
    (fun q b hph => absurd hph (hold q b)) (fun q b hph => by cases hph; rfl) ?_
  constructor
  · intro q b hph _
    cases hph
    rw [hcache]
    exact hfits
  · intro j q b hne hq
    rw [hcache]
    exact (hacc.fits j q b hq).beside (owns_of_beside hbeside hne hq) fun _ _ hr => hr
  · intro _ hfree
    have hnot := hfree p none rfl rfl
    rw [hkind] at hnot
    cases hnot
  · exact fun _ _ _ _ _ => hbeside
  · intro q b hph _
    cases hph
    refine ⟨?_, fun _ hfree => ?_⟩
    · rintro ⟨j, q, _, hq, hfree⟩
      apply hopens
      rcases not_owns hfree with ⟨r, rfl, hnone⟩ | ⟨r, rest, rfl⟩
      · cases hnone
      · exact hacc.fits j _ none hq
    · rw [hkind] at hfree
      cases hfree
  · intro q b hph _ hop
    cases hph
    rw [hturn']
    exact hturn hop

/-! ## Pins beside the owner, and lost claims -/

/-- A removal of the lease has asked for its unpin, and the record is still there or was. -/
def Point.removes : Point → Bool
  | .remove .unpin .. | .remove .delete .. => true
  | _ => false

theorem Fits.asked (h : Fits p a record cl) (hresident : Resident record)
    (hp : p.removes = false) : Fits p a record { cl with asked := true } := by
  obtain ⟨r, rfl, hr⟩ := hresident
  cases p with
  | acquire stage r' =>
    cases stage with
    | pin | unpin | drop => cases h.1
    | save =>
      rcases a with _ | _ | _
      · cases h.1
      · cases h.1
      · trivial
  | renew stage u =>
    obtain ⟨⟨r', hr', hrenews⟩, _, hrefused, hheld⟩ := h
    refine ⟨⟨r', hr', hrenews⟩, ?_, hrefused, hheld⟩
    cases hr'
    obtain ⟨pinnedUntil, rfl⟩ := hrenews
    exact hr.symm
  | remove stage r' after =>
    cases stage with
    | unpin | delete => cases hp
    | restore => exact ⟨h.1, h.2.1, rfl, h.2.2.2⟩
  | reapply r' rest =>
    cases a with
    | none => exact h
    | some ok => trivial

theorem Fits.granted (h : Fits p a record cl) (hresident : Resident record)
    (hp : p.opens a = true) (ok : Bool) : Fits p a record { cl with held := cl.held || ok } := by
  obtain ⟨r, rfl, hr⟩ := hresident
  cases p with
  | acquire stage r' =>
    cases stage with
    | pin | unpin | drop => cases h.1
    | save =>
      rcases a with _ | _ | _
      · cases h.1
      · cases h.1
      · trivial
  | renew stage u =>
    obtain ⟨⟨r', hr', hrenews⟩, hasked, hrefused, _, hstage⟩ := h
    refine ⟨⟨r', hr', hrenews⟩, hasked, hrefused, fun _ => ?_, hstage⟩
    cases hr'
    obtain ⟨pinnedUntil, rfl⟩ := hrenews
    exact hr
  | remove stage r' after =>
    cases stage with
    | unpin =>
      cases a with
      | none => exact ⟨h.1, h.2.1, h.2.2.1, h.2.2.2.1, fun _ => rfl⟩
      | some ok => cases hp
    | delete => cases hp
    | restore => exact h
  | reapply r' rest =>
    cases a with
    | none => exact h
    | some ok => trivial

theorem Fits.lost (h : Fits p a record cl) : Fits p a record { cl with held := false } := by
  have hlost : ∀ {P : Prop}, false = true → P := nofun
  cases p with
  | acquire stage r =>
    cases stage with
    | pin => exact ⟨h.1, h.2.1, h.2.2.1, h.2.2.2.1, hlost⟩
    | save =>
      rcases a with _ | _ | _
      · exact ⟨h.1, h.2.1, h.2.2.1, hlost⟩
      · exact ⟨h.1, h.2.1, h.2.2.1, hlost⟩
      · trivial
    | unpin => exact ⟨h.1, h.2.1, hlost⟩
    | drop => exact ⟨h.1, h.2.1, rfl⟩
  | renew stage u => exact ⟨h.1, h.2.1, h.2.2.1, hlost, h.2.2.2.2⟩
  | remove stage r after =>
    cases stage with
    | unpin => exact ⟨h.1, h.2.1, h.2.2.1, h.2.2.2.1, hlost⟩
    | delete =>
      rcases a with _ | _ | _
      · exact ⟨h.1, h.2.1, h.2.2.1, rfl⟩
      · exact ⟨h.1, h.2.1, h.2.2.1, rfl⟩
      · exact ⟨h.1, h.2.1, rfl⟩
    | restore => exact h
  | reapply r rest => cases a <;> exact h

theorem Rests.lost (h : Rests record cl) : Rests record { cl with held := false } := ⟨h.asked, nofun, h.accepted⟩

theorem Inv.dispose (h : Inv s) (l : LeaseId) : Inv (s.setClaim l fun c => { c with held := false }) := by
  have hclaim : ∀ l', (s.setClaim l fun c => { c with held := false }).claims l' = s.claims l' ∨
      (s.setClaim l fun c => { c with held := false }).claims l' = { s.claims l' with held := false } := by
    intro l'
    by_cases hl : l' = l
    · subst hl
      exact .inr (Function.update_self _ _ _)
    · exact .inl (Function.update_of_ne hl _ _)
  constructor
  · intro l' hl'
    obtain ⟨hrecord, hclaims, hnone⟩ := h.fresh l' hl'
    refine ⟨hrecord, ?_, hnone⟩
    rcases hclaim l' with hsame | hlost
    · rw [hsame, hclaims]
    · rw [hlost, hclaims]
  · exact h.keyed
  · intro l'
    have hacc := h.accounted l'
    refine ⟨?_, ?_, hacc.alone, hacc.opened, hacc.turned⟩
    · intro i p a hp
      rcases hclaim l' with hsame | hlost
      · rw [hsame]
        exact hacc.fits i p a hp
      · rw [hlost]
        exact (hacc.fits i p a hp).lost
    · intro hfree
      rcases hclaim l' with hsame | hlost
      · rw [hsame]
        exact hacc.rests hfree
      · rw [hlost]
        exact (hacc.rests hfree).lost

variable {r : PersistedApiPin} {rest : List PersistedApiPin}

/-- A pin is applied again of a lease that is recorded and that no removal is at. -/
theorem Inv.asks (h : Inv s) (hi : s.calls[i]? = some ph) (hold : ∀ p a, ph = .waits p a → p.owns a = false)
    (hresident : Resident (s.cache.get r.leaseId)) (hremoves : ∀ j q b, s.On r.leaseId j q b → q.removes = false) :
    Inv (s.waitAt i (.reapply r rest)) := by
  have hclaims : ∀ l, l ≠ r.leaseId → (s.waitAt i (.reapply r rest)).claims l = s.claims l :=
    fun l hl => Function.update_of_ne hl _ _
  have hclaim : (s.waitAt i (.reapply r rest)).claims r.leaseId = { s.claims r.leaseId with asked := true } :=
    Function.update_self _ _ _
  have hsame : ∀ l, l ≠ r.leaseId → Untouched s (s.waitAt i (.reapply r rest)) l := fun l hl => ⟨rfl, hclaims l hl⟩
  have hacc := h.accounted r.leaseId
  obtain ⟨record, hrecord, _⟩ := hresident
  have hlt := h.lt_of_record hrecord
  refine h.moveOn hi rfl (fun l j _ hj => hj) (Nat.le_refl _) hlt hsame (h.keyed _) (fun q b hph _ => hold q b hph)
    (fun q b hph => by cases hph; rfl) ?_
  constructor
  · intro q b hph _
    cases hph
    exact ⟨record, hrecord, ‹_›⟩
  · intro j q b _ hq
    rw [hclaim]
    exact (hacc.fits j q b hq).asked ⟨record, hrecord, ‹_›⟩ (hremoves j q b hq)
  · intro hbeside _
    have hrests := hacc.rests_beside hi (fun q b hph _ => hold q b hph) hbeside
    rw [hclaim]
    refine ⟨⟨fun _ => ⟨record, hrecord, ‹_›⟩, fun _ => ⟨rfl, ?_⟩⟩, hrests.held, hrests.accepted⟩
    apply hrests.accepted
    rw [hrecord]
    exact Option.some_ne_none record
  · intro q b hph _ howns
    cases hph
    cases howns
  · intro q b hph _
    cases hph
    refine ⟨fun _ => rfl, fun _ _ => ⟨rfl, ?_⟩⟩
    intro j q b _ hq
    have hnot := hremoves j q b hq
    cases q with
    | remove stage r after =>
      cases stage with
      | unpin | delete => cases hnot
      | restore => rfl
    | acquire stage r | renew stage u | reapply r rest => rfl
  · intro q b hph _ hop
    cases hph
    cases hop

/-- A pin that is applied again is granted or not. -/
theorem Inv.grants (h : Inv s) (hi : s.calls[i]? = some (.waits (.reapply r rest) none)) (ok : Bool) :
    Inv ((s.settle ok (.pin r.leaseId)).goto i (.waits (.reapply r rest) (some ok))) := by
  let s' := (s.settle ok (.pin r.leaseId)).goto i (.waits (.reapply r rest) (some ok))
  have hon : s.On r.leaseId i (.reapply r rest) none := ⟨hi, rfl⟩
  have hclaim : s'.claims r.leaseId = { s.claims r.leaseId with held := (s.claims r.leaseId).held || ok } :=
    Function.update_self _ _ _
  have hsame : ∀ l, l ≠ r.leaseId → Untouched s s' l := fun l hl => ⟨rfl, Function.update_of_ne hl _ _⟩
  have hacc := h.accounted r.leaseId
  have hresident : Resident (s.cache.get r.leaseId) := hacc.fits i _ none hon
  refine h.moveOn hi rfl (fun l j _ hj => hj) (Nat.le_refl _) (h.lt_of_on hon) hsame (h.keyed _) (fun q b hph _ => by cases hph; rfl)
    (fun q b hph => by cases hph; rfl) ?_
  constructor
  · intro q b hph _
    cases hph
    trivial
  · intro j q b _ hq
    rw [hclaim]
    exact (hacc.fits j q b hq).granted hresident (hacc.opened i j _ q b hon rfl hq) ok
  · intro hbeside _
    have hrests := hacc.rests_beside hi (fun q b hph _ => by cases hph; rfl) hbeside
    rw [hclaim]
    exact ⟨hrests.asked, fun _ => hresident, hrests.accepted⟩
  · intro q b hph _ howns
    cases hph
    cases howns
  · intro q b hph _
    cases hph
    exact ⟨fun _ => rfl, nofun⟩
  · intro q b hph _ hop
    cases hph
    cases hop

/-! ## Turns -/

theorem hasTurn_append (h : s.hasTurn l j = true) (t : LeaseId × ℕ) : ((s.turns ++ [t]).find? (·.1 = l)) = some (l, j) := by
  rw [State.hasTurn, decide_eq_true_eq] at h
  rw [find?_append, h]
  rfl

theorem find_erase {turns : List (LeaseId × ℕ)} {t : LeaseId × ℕ} (h : turns.find? (·.1 = l) = some (l, j)) (ht : t ≠ (l, j)) :
    (turns.erase t).find? (·.1 = l) = some (l, j) := by
  induction turns with
  | nil => cases h
  | cons u turns ih =>
    by_cases hu : u.1 = l
    · rw [find?_cons_of_pos (by simp [hu])] at h
      obtain rfl := Option.some.inj h
      rw [erase_cons_tail (by simpa using Ne.symm ht), find?_cons_of_pos (by simp)]
    · rw [find?_cons_of_neg (by simp [hu])] at h
      by_cases hut : u = t
      · subst hut
        rwa [erase_cons_head]
      · rw [erase_cons_tail (by simpa using hut), find?_cons_of_neg (by simp [hu])]
        exact ih h

/-- The call awaits nothing afterwards; only turns and the log change beside it. -/
structure Pauses (s s' : State) (i : ℕ) : Prop where
  calls : ∃ ph', s'.calls = s.calls.set i ph' ∧ ∀ p a, ph' ≠ .waits p a
  cache : s'.cache = s.cache
  claims : s'.claims = s.claims
  next : s'.nextLease = s.nextLease
  turns : KeepsTurns s s' i

theorem pauses_goto (s : State) (i : ℕ) (outcome : Outcome) : Pauses s (s.goto i (.done outcome)) i :=
  ⟨⟨_, rfl, (fun _ _ h => by cases h)⟩, rfl, rfl, rfl, fun _ _ _ h => h⟩

theorem pauses_enqueue (s : State) (i : ℕ) (l : LeaseId) (op : Operation) : Pauses s (s.enqueue i l op) i := by
  refine ⟨⟨_, rfl, (fun _ _ h => by cases h)⟩, rfl, rfl, rfl, ?_⟩
  intro l' j _ h
  exact decide_eq_true (hasTurn_append h (l, i))

theorem pauses_clearNext (s : State) (i : ℕ) (sessionId : SessionId) (rest : List PersistedApiPin) :
    Pauses s (s.clearNext i sessionId rest) i := by
  cases rest with
  | nil => exact pauses_goto s i _
  | cons r rest => exact pauses_enqueue s i _ _

theorem pauses_sweepNext (s : State) (i now : ℕ) (expired : List SessionId) (rest : List PersistedApiPin) :
    Pauses s (s.sweepNext i now expired rest) i := by
  cases rest with
  | nil => exact pauses_goto s i _
  | cons r rest => exact pauses_enqueue s i _ _

theorem Pauses.after {s'' : State} (h : Pauses s' s'' i) (hcalls : s'.calls = s.calls) (hcache : s'.cache = s.cache)
    (hclaims : s'.claims = s.claims) (hnext : s'.nextLease = s.nextLease) (hturns : KeepsTurns s s' i) : Pauses s s'' i := by
  obtain ⟨ph', hph', hnot⟩ := h.calls
  rw [hcalls] at hph'
  exact ⟨⟨ph', hph', hnot⟩, h.cache.trans hcache, h.claims.trans hclaims, h.next.trans hnext,
    fun l j hne hj => h.turns l j hne (hturns l j hne hj)⟩

theorem pauses_finish (s : State) (i : ℕ) (l : LeaseId) (sessionId : SessionId) (after : After) (outcome : Outcome) :
    Pauses s (s.finish i l sessionId after outcome) i := by
  have hturns : KeepsTurns s { s with turns := s.turns.erase (l, i) } i := by
    intro l' j hne h
    rw [State.hasTurn, decide_eq_true_eq] at h ⊢
    refine find_erase h ?_
    intro heq
    exact hne (congrArg Prod.snd heq).symm
  have hafter : ∀ {s''}, Pauses { s with turns := s.turns.erase (l, i) } s'' i → Pauses s s'' i :=
    fun h => h.after rfl rfl rfl rfl hturns
  have hlogged : ∀ {s'' log}, Pauses { s with turns := s.turns.erase (l, i), log } s'' i → Pauses s s'' i :=
    fun h => h.after rfl rfl rfl rfl hturns
  cases after with
  | answer => exact hafter (pauses_goto _ i outcome)
  | clear session rest =>
    cases outcome with
    | threw error => exact hafter (pauses_goto _ i _)
    | _ => exact hafter (pauses_clearNext _ i session rest)
  | sweep now rest expired =>
    rcases outcome with _ | _ | _ | ⟨_ | _⟩ | _ | _ | _
    case threw => exact hlogged (pauses_goto _ i _)
    all_goals exact hlogged (pauses_sweepNext _ i now _ rest)

theorem Inv.pause (h : Inv s) (hi : s.calls[i]? = some ph) (hpauses : Pauses s s' i)
    (hold : ∀ p a, ph = .waits p a → p.owns a = false) : Inv s' := by
  obtain ⟨ph', hcalls, hnew⟩ := hpauses.calls
  exact h.idle hi hcalls hpauses.turns hpauses.next hpauses.cache hpauses.claims hold hnew

/-- The owner of a lease is through with it. -/
theorem Inv.release (h : Inv s) (hi : s.calls[i]? = some (.waits p a)) (howns : p.owns a = true) (hpauses : Pauses s s' i)
    (hrests : Rests (s.cache.get p.leaseId) (s.claims p.leaseId)) : Inv s' := by
  obtain ⟨ph', hcalls, hnew⟩ := hpauses.calls
  refine h.leave hi howns hcalls hpauses.turns hpauses.next hpauses.cache (fun l _ => by rw [hpauses.claims]) hnew ?_
  rw [hpauses.claims]
  exact hrests

end

/-! ## Orderly steps -/

/-- An acquisition that may still be recorded. -/
def Phase.landing : Phase → Option PersistedApiPin
  | .waits (.acquire .pin r) a => if a = some false then none else some r
  | .waits (.acquire .save r) none => some r
  | _ => none

/-- The session has no legacy lease, and none is being acquired for it. -/
def State.legacyFree (s : State) (sessionId : SessionId) : Bool :=
  (s.findLegacy sessionId).isNone && !s.calls.any fun ph => ph.landing.any fun r => r.isLegacy && r.sessionId = sessionId

/-- A removal of the lease has asked for the unpin. -/
def Phase.removes (l : LeaseId) : Phase → Bool
  | .waits p _ => p.leaseId = l && p.removes
  | _ => false

/-- A pin of the lease is applied again and has not taken effect. -/
def Phase.applies (l : LeaseId) : Phase → Bool
  | .waits (.reapply r _) none => r.leaseId = l
  | _ => false

/-- The next lease that is applied again is still recorded, and no removal is at it. -/
def State.mayApply (s : State) (rest : List PersistedApiPin) : Bool :=
  (rest.dropWhile (!s.isApplied ·)).head?.all fun r =>
    (s.cache.get r.leaseId).any (·.isResident) && !s.calls.any (·.removes r.leaseId)

/-- A legacy lease is acquired where the session has none and none is being acquired, a pin is
    applied again while the lease is recorded and not being removed, no unpin overtakes such a
    pin, and no deletion fails that has leases of its sweep after it. -/
def orderly (s : State) : Step → Bool
  | .call (.applyPin sessionId _) => (s.findLegacy sessionId).isSome || s.legacyFree sessionId
  | .call (.acquireLease sessionId options) => options.ownerId ≠ some legacyOwner || s.legacyFree sessionId
  | .call (.reapplyForSession sessionId) => s.mayApply (s.listForSession sessionId)
  | .settle i ok =>
    match s.calls[i]? with
    | some (.waits (.remove .unpin r _) none) => !s.calls.any (·.applies r.leaseId)
    | some (.waits (.remove .delete _ (.sweep _ rest _)) none) => ok || rest = []
    | _ => true
  | .resume i =>
    match s.calls[i]? with
    | some (.waits (.reapply _ rest) (some _)) => s.mayApply rest
    | _ => true
  | _ => true

/-! ## Steps -/

section

variable {c : Config} {s s' : State} {i j : ℕ} {l : LeaseId} {p q : Point} {a b : Option Bool}

variable {r : PersistedApiPin}

/-- The call that has the turn of a recorded lease has it to itself. -/
theorem Inv.alone_of_turn (h : Inv s) (hr : s.cache.get l = some r) (hturn : s.hasTurn l i = true) : ¬ s.OwnedBeside l i := by
  rintro ⟨j, q, b, hne, hq, howns⟩
  have hfits := (h.accounted l).fits j q b hq
  rw [hr] at hfits
  have hoperation : q.isOperation = true := by
    cases q with
    | acquire stage r' =>
      cases stage with
      | pin | unpin | drop => cases hfits.1
      | save =>
        rcases b with _ | _ | _
        · cases hfits.1
        · cases hfits.1
        · cases howns
    | renew stage u | remove stage r' after => rfl
    | reapply r' rest => cases howns
  have hturn' := (h.accounted l).turned j q b hq hoperation
  rw [State.hasTurn, decide_eq_true_eq] at hturn hturn'
  rw [hturn] at hturn'
  exact hne (congrArg Prod.snd (Option.some.inj hturn')).symm

theorem not_resident (h : r.isResident = false) : ¬ Resident (some r) := by
  rintro ⟨r', hr', hresident⟩
  cases hr'
  rw [h] at hresident
  cases hresident

/-- Of a recorded lease that rests: its claim was the last thing asked for where it is resident. -/
theorem Rests.of_record {cl : Claim} (h : Rests (some r) cl) :
    cl.asked = r.isResident ∧ cl.refused = false ∧ (cl.held = true → r.isResident = true) := by
  have hrefused := h.accepted (Option.some_ne_none r)
  cases hr : r.isResident with
  | true => exact ⟨(h.asked.mpr ⟨r, rfl, hr⟩).1, hrefused, fun _ => rfl⟩
  | false =>
    have hnot := not_resident hr
    refine ⟨Bool.eq_false_iff.mpr fun hasked => hnot (h.asked.mp ⟨hasked, hrefused⟩), hrefused, fun hheld => ?_⟩
    exact absurd (h.held hheld) hnot

theorem Rests.record {cl : Claim} (hasked : cl.asked = r.isResident) (hrefused : cl.refused = false)
    (hheld : cl.held = true → r.isResident = true) : Rests (some r) cl := by
  refine ⟨⟨fun h => ⟨r, rfl, hasked ▸ h.1⟩, ?_⟩, fun h => ⟨r, rfl, hheld h⟩, fun _ => hrefused⟩
  rintro ⟨r', hr', hr⟩
  cases hr'
  exact ⟨hasked.trans hr, hrefused⟩

theorem Rests.none {cl : Claim} (hasked : cl.asked = true → cl.refused = true) (hheld : cl.held = false) : Rests none cl := by
  refine ⟨⟨?_, ?_⟩, ?_, fun h => absurd rfl h⟩
  · rintro ⟨h, hrefused⟩
    rw [hasked h] at hrefused
    cases hrefused
  · rintro ⟨_, hnone, _⟩
    cases hnone
  · intro h
    rw [hheld] at h
    cases h

theorem Inv.remove (h : Inv s) {op : Operation} {after : After}
    (hi : s.calls[i]? = some (.queued l op)) (hr : s.cache.get l = some r) (hturn : s.hasTurn l i = true) :
    Inv (s.remove i r after) := by
  obtain rfl := h.keyed l r hr
  have hbeside := h.alone_of_turn hr hturn
  have hrests := (h.accounted _).rests_beside hi (fun _ _ h => by cases h) hbeside
  rw [hr] at hrests
  obtain ⟨hasked, hrefused, hheld⟩ := hrests.of_record
  have hlt := h.lt_of_record hr
  rw [State.remove]
  split
  · rename_i hresident
    refine h.take (p := .remove .unpin r after) hi (fun _ _ h => by cases h) rfl rfl (Nat.le_refl _) hlt rfl
      (fun l hl => Function.update_of_ne hl _ _) hbeside rfl ?_ (fun _ => rfl) fun _ => hturn
    have hclaim : (s.waitAt i (.remove .unpin r after)).claims r.leaseId = { s.claims r.leaseId with asked := false } :=
      Function.update_self _ _ _
    show Fits _ _ (s.cache.get r.leaseId) ((s.waitAt i (.remove .unpin r after)).claims r.leaseId)
    rw [hclaim, hr]
    exact ⟨rfl, hresident, rfl, hrefused, fun _ => rfl⟩
  · rename_i hresident
    rw [Bool.not_eq_true] at hresident
    refine h.take (p := .remove .delete r after) hi (fun _ _ h => by cases h) rfl rfl (Nat.le_refl _) hlt rfl
      (fun _ _ => rfl) hbeside rfl ?_ ?_ fun _ => hturn
    · show Fits _ _ (s.cache.get r.leaseId) (s.claims r.leaseId)
      rw [hr]
      refine ⟨rfl, hasked.trans hresident, hrefused, Bool.eq_false_iff.mpr fun hh => ?_⟩
      rw [hheld hh] at hresident
      cases hresident
    · intro hres
      change Resident (s.cache.get r.leaseId) at hres
      rw [hr] at hres
      exact absurd hres (not_resident hresident)

/-- Step lemma for a turn. -/
theorem Inv.operate (h : Inv s) {op : Operation} (hi : s.calls[i]? = some (.queued l op))
    (hturn : s.hasTurn l i = true) : Inv (s.operate c i l op) := by
  have hpause : ∀ {s'}, Pauses s s' i → Inv s' := fun hp => h.pause hi hp (fun _ _ h => by cases h)
  unfold State.operate
  split
  next sessionId ttlSeconds r hr =>
    obtain rfl := h.keyed l r hr
    have hbeside := h.alone_of_turn hr hturn
    have hrests := (h.accounted _).rests_beside hi (fun _ _ h => by cases h) hbeside
    rw [hr] at hrests
    obtain ⟨hasked, hrefused, hheld⟩ := hrests.of_record
    have hlt := h.lt_of_record hr
    dsimp only
    split
    · exact hpause (pauses_finish ..)
    split
    · rename_i hresident
      let u : PersistedApiPin := { r with pinnedUntil := s.now + c.resolveTtlMs ttlSeconds }
      refine h.take (p := .renew .pin u) hi (fun _ _ h => by cases h) rfl rfl (Nat.le_refl _) hlt rfl
        (fun l hl => Function.update_of_ne hl _ _) hbeside rfl ?_ (fun _ => rfl) fun _ => hturn
      have hclaim : (s.waitAt i (.renew .pin u)).claims r.leaseId = { s.claims r.leaseId with asked := true } :=
        Function.update_self _ _ _
      show Fits _ _ (s.cache.get r.leaseId) ((s.waitAt i (.renew .pin u)).claims r.leaseId)
      rw [hclaim, hr]
      exact ⟨⟨r, rfl, _, rfl⟩, hresident.symm, hrefused, hheld, fun _ => hresident⟩
    · let u : PersistedApiPin := { r with pinnedUntil := s.now + c.resolveTtlMs ttlSeconds }
      refine h.take (p := .renew .save u) hi (fun _ _ h => by cases h) rfl rfl (Nat.le_refl _) hlt rfl
        (fun _ _ => rfl) hbeside rfl ?_ (fun _ => rfl) fun _ => hturn
      show Fits _ _ (s.cache.get r.leaseId) (s.claims r.leaseId)
      rw [hr]
      exact ⟨⟨r, rfl, _, rfl⟩, hasked, hrefused, hheld, (fun h => by cases h)⟩
  next => exact hpause (pauses_finish ..)
  next sessionId ownerId _ r hr =>
    split
    · exact hpause (pauses_finish ..)
    split
    · exact hpause (pauses_finish ..)
    · exact h.remove hi hr hturn
  next => exact hpause (pauses_finish ..)
  next now _ _ r hr =>
    split
    · exact hpause (pauses_finish ..)
    · exact h.remove hi hr hturn
  next => exact hpause (pauses_finish ..)

theorem goto_claims (s : State) (i : ℕ) (ph : Phase) : (s.goto i ph).claims = s.claims := rfl

theorem setClaim_self (s : State) (l : LeaseId) (f : Claim → Claim) : (s.setClaim l f).claims l = f (s.claims l) :=
  Function.update_self _ _ _

theorem setClaim_other (s : State) {l l' : LeaseId} (hl : l' ≠ l) (f : Claim → Claim) :
    (s.setClaim l f).claims l' = s.claims l' := Function.update_of_ne hl _ _

/-- The owner of a lease goes on, with another claim and the same record. -/
theorem Inv.stay_claim (h : Inv s) (hi : s.calls[i]? = some (.waits p a)) (howns : p.owns a = true) {f : Claim → Claim}
    (hlease : q.leaseId = p.leaseId) (hkind : q.owns none = true ∧ (q.isOperation = true → p.isOperation = true))
    (hq : q.owns b = true) (hfits : Fits q b (s.cache.get p.leaseId) (f (s.claims p.leaseId)))
    (hopens : ∀ j q', s.On p.leaseId j q' none → q'.owns none = false → p.opens a = true →
      Resident (s.cache.get p.leaseId) → q.opens b = true) :
    Inv ((s.setClaim p.leaseId f).goto i (.waits q b)) := by
  refine h.stay hi howns rfl rfl rfl hlease (fun l hl => ⟨rfl, setClaim_other s hl f⟩) (h.keyed _) hkind ?_ ?_
    fun j q' hq' hfree hp hres => ⟨hopens j q' hq' hfree hp hres, hres⟩
  · rw [show ((s.setClaim p.leaseId f).goto i (.waits q b)).claims p.leaseId = _ from setClaim_self s p.leaseId f]
    exact hfits
  · intro hnot
    rw [hq] at hnot
    cases hnot

/-- The owner of a lease goes on, and neither record nor claim changes. -/
theorem Inv.stay_same (h : Inv s) (hi : s.calls[i]? = some (.waits p a)) (howns : p.owns a = true)
    (hlease : q.leaseId = p.leaseId) (hkind : q.owns none = true ∧ (q.isOperation = true → p.isOperation = true))
    (hq : q.owns b = true) (hfits : Fits q b (s.cache.get p.leaseId) (s.claims p.leaseId))
    (hopens : p.opens a = true → q.opens b = true) : Inv (s.goto i (.waits q b)) := by
  refine h.stay hi howns rfl rfl rfl hlease (fun l hl => ⟨rfl, rfl⟩) (h.keyed _) hkind hfits ?_
    fun j q' hq' hfree hp hres => ⟨hopens hp, hres⟩
  intro hnot
  rw [hq] at hnot
  cases hnot

/-- The owner of a lease goes on, and its record is written. -/
theorem Inv.stay_save (h : Inv s) (hi : s.calls[i]? = some (.waits p none)) (howns : p.owns none = true)
    (hr : r.leaseId = p.leaseId) (hfits : Fits p (some true) (some r) (s.claims p.leaseId))
    (hrests : Rests (some r) (s.claims p.leaseId)) (hopens : p.opens (some true) = true)
    (hresident : Resident (s.cache.get p.leaseId) → r.isResident = true) :
    Inv ({ s with cache := s.cache.set p.leaseId r }.goto i (.waits p (some true))) := by
  have hget : (s.cache.set p.leaseId r).get p.leaseId = some r := JsMap.get_set_same _ _ _
  refine h.stay hi howns rfl rfl rfl rfl (fun l hl => ⟨JsMap.get_set_ne _ _ hl, rfl⟩) ?_ ⟨howns, id⟩ ?_ ?_ ?_
  · intro r' hr'
    rw [show (_ : State).cache.get p.leaseId = some r from hget] at hr'
    cases hr'
    exact hr
  · rw [show (_ : State).cache.get p.leaseId = some r from hget]
    exact hfits
  · intro _
    rw [show (_ : State).cache.get p.leaseId = some r from hget]
    exact hrests
  · intro j q' _ _ _ hres
    refine ⟨hopens, ?_⟩
    rw [show (_ : State).cache.get p.leaseId = some r from hget]
    exact ⟨r, rfl, hresident hres⟩

/-- The owner of a lease goes on, and its record is deleted. -/
theorem Inv.stay_delete (h : Inv s) (hi : s.calls[i]? = some (.waits p none)) (howns : p.owns none = true)
    (hsome : p.owns (some true) = true) (hfits : Fits p (some true) none (s.claims p.leaseId))
    (hopens : p.opens none = true → ¬ Resident (s.cache.get p.leaseId)) :
    Inv ({ s with cache := s.cache.delete p.leaseId }.goto i (.waits p (some true))) := by
  have hget : (s.cache.delete p.leaseId).get p.leaseId = none := JsMap.get_delete_same _ _
  refine h.stay hi howns rfl rfl rfl rfl (fun l hl => ⟨JsMap.get_delete_ne _ hl, rfl⟩) ?_ ⟨howns, id⟩ ?_ ?_
    fun j q' _ _ hp hres => absurd hres (hopens hp)
  · intro r' hr'
    rw [show (_ : State).cache.get p.leaseId = none from hget] at hr'
    cases hr'
  · rw [show (_ : State).cache.get p.leaseId = none from hget]
    exact hfits
  · intro hnot
    rw [hsome] at hnot
    cases hnot

theorem Renews.resident {u : PersistedApiPin} (h : Renews u r) : u.isResident = r.isResident := by
  obtain ⟨pinnedUntil, rfl⟩ := h
  rfl

/-- Step lemma for what is awaited. -/
theorem Inv.settles (h : Inv s) (hi : s.calls[i]? = some (.waits p none)) {ok : Bool} (ho : orderly s (.settle i ok) = true) :
    Inv ((s.settle ok p.await).goto i (.waits p (some ok))) := by
  have hfits := (h.accounted p.leaseId).fits i p none ⟨hi, rfl⟩
  cases p with
  | acquire stage r =>
    cases stage with
    | pin =>
      obtain ⟨hrecord, hresident, hasked, hrefused, hheld⟩ := hfits
      refine h.stay_claim (f := fun c => { c with held := c.held || ok }) hi rfl rfl ⟨rfl, id⟩ rfl ?_ fun _ _ _ _ _ _ => rfl
      refine ⟨hrecord, hresident, hasked, hrefused, fun hnow => ?_⟩
      rcases Bool.or_eq_true_iff.mp hnow with hbefore | hok
      · cases hheld hbefore
      · rw [hok]
    | save =>
      obtain ⟨hrecord, hasked, hrefused, hheld⟩ := hfits
      cases ok with
      | true =>
        refine h.stay_save hi rfl rfl trivial (.record hasked hrefused hheld) rfl fun hres => ?_
        rw [hrecord] at hres
        obtain ⟨_, hnone, _⟩ := hres
        cases hnone
      | false => exact h.stay_same hi rfl rfl ⟨rfl, id⟩ rfl ⟨hrecord, hasked, hrefused, hheld⟩ fun _ => rfl
    | unpin =>
      obtain ⟨hrecord, hasked, _⟩ := hfits
      exact h.stay_claim (f := fun c => { c with held := false }) hi rfl rfl ⟨rfl, id⟩ rfl
        ⟨hrecord, hasked, nofun⟩ fun _ _ _ _ _ _ => rfl
    | drop =>
      obtain ⟨hrecord, hasked, hheld⟩ := hfits
      cases ok with
      | true =>
        refine h.stay_delete hi rfl rfl ⟨rfl, hasked, hheld⟩ fun _ hres => ?_
        rw [hrecord] at hres
        obtain ⟨_, hnone, _⟩ := hres
        cases hnone
      | false => exact h.stay_same hi rfl rfl ⟨rfl, id⟩ rfl ⟨hrecord, hasked, hheld⟩ fun _ => rfl
  | renew stage u =>
    obtain ⟨⟨r, hrecord, hrenews⟩, hasked, hrefused, hheld, hstage⟩ := hfits
    cases stage with
    | pin =>
      refine h.stay_claim (f := fun c => { c with held := c.held || ok }) hi rfl rfl ⟨rfl, id⟩ rfl ?_ fun _ _ _ _ _ _ => rfl
      exact ⟨⟨r, hrecord, hrenews⟩, hasked, hrefused, fun _ => hstage rfl, hstage⟩
    | save =>
      cases ok with
      | true =>
        refine h.stay_save hi rfl rfl ⟨⟨u, rfl, u.pinnedUntil, rfl⟩, hasked, hrefused, hheld, hstage⟩ (.record hasked hrefused hheld) rfl
          fun hres => ?_
        rw [hrecord] at hres
        obtain ⟨r', hr', hresident⟩ := hres
        cases hr'
        exact hrenews.resident.trans hresident
      | false =>
        exact h.stay_same hi rfl rfl ⟨rfl, id⟩ rfl ⟨⟨r, hrecord, hrenews⟩, hasked, hrefused, hheld, hstage⟩ fun _ => rfl
  | remove stage r after =>
    cases stage with
    | unpin =>
      obtain ⟨hrecord, hresident, hasked, hrefused, _⟩ := hfits
      refine h.stay_claim (f := fun c => { c with held := false }) hi rfl rfl ⟨rfl, id⟩ rfl
        ⟨hrecord, hresident, hasked, hrefused, nofun⟩ fun j q hq hfree _ _ => ?_
      simp only [orderly, hi, Bool.not_eq_true', any_eq_false] at ho
      rcases not_owns hfree with ⟨_, rfl, hnone⟩ | ⟨r', rest, rfl⟩
      · cases hnone
      · exact absurd (decide_eq_true hq.2) (ho _ (mem_of_getElem? hq.1))
    | delete =>
      obtain ⟨hrecord, hasked, hrefused, hheld⟩ := hfits
      cases ok with
      | true => exact h.stay_delete hi rfl rfl ⟨rfl, hasked, hheld⟩ nofun
      | false => exact h.stay_same hi rfl rfl ⟨rfl, id⟩ rfl ⟨hrecord, hasked, hrefused, hheld⟩ nofun
    | restore =>
      obtain ⟨hrecord, hresident, hasked, hrefused⟩ := hfits
      exact h.stay_claim (f := fun c => { c with held := c.held || ok }) hi rfl rfl ⟨rfl, id⟩ rfl
        ⟨hrecord, hresident, hasked, hrefused⟩ fun _ _ _ _ _ _ => rfl
  | reapply r rest => exact h.grants hi ok

theorem Inv.reapplyNext (h : Inv s) {ph : Phase} (hi : s.calls[i]? = some ph) (hold : ∀ p a, ph = .waits p a → p.owns a = false)
    {rest : List PersistedApiPin} (ho : s.mayApply rest = true) : Inv (s.reapplyNext i rest) := by
  rw [State.mayApply] at ho
  rw [State.reapplyNext]
  split
  · exact h.pause hi (pauses_goto s i _) hold
  next r rest hrest =>
    rw [hrest, head?_cons, Option.all_some, Bool.and_eq_true, Bool.not_eq_true', any_eq_false] at ho
    refine h.asks hi hold ?_ ?_
    · cases hr : s.cache.get r.leaseId with
      | none =>
        rw [hr] at ho
        cases ho.1
      | some r' =>
        rw [hr] at ho
        exact ⟨r', rfl, ho.1⟩
    · intro j q b hq
      have hnot := ho.2 _ (mem_of_getElem? hq.1)
      simp only [Phase.removes, hq.2, decide_true, Bool.true_and] at hnot
      exact Bool.eq_false_iff.mpr hnot

/-- Step lemma for a call that goes on. -/
theorem Inv.resumes (h : Inv s) {ok : Bool} (hi : s.calls[i]? = some (.waits p (some ok)))
    (ho : orderly s (.resume i) = true) : Inv (s.resume i ok p) := by
  have hfits := (h.accounted p.leaseId).fits i p (some ok) ⟨hi, rfl⟩
  cases p with
  | acquire stage r =>
    cases stage with
    | pin =>
      obtain ⟨hrecord, hresident, hasked, hrefused, hheld⟩ := hfits
      cases ok with
      | true =>
        exact h.stay_same (q := .acquire .save r) (b := none) hi rfl rfl ⟨rfl, id⟩ rfl
          ⟨hrecord, hasked.trans hresident.symm, hrefused, fun _ => hresident⟩ fun _ => rfl
      | false =>
        simp only [State.resume, Bool.false_eq_true, if_false]
        let refuse (cl : Claim) : Claim := { cl with refused := true }
        have hclaim := setClaim_self s r.leaseId refuse
        have hother : ∀ l, l ≠ r.leaseId → (s.setClaim r.leaseId refuse).claims l = s.claims l :=
          fun l hl => setClaim_other s hl refuse
        refine h.leave hi rfl rfl (fun _ _ _ hj => hj) rfl rfl hother (fun _ _ h => by cases h) ?_
        rw [hrecord, goto_claims, show (State.setClaim ..).claims (Point.acquire .pin r).leaseId = _ from hclaim]
        exact .none (fun _ => rfl) (Bool.eq_false_iff.mpr fun hh => by cases hheld hh)
    | save =>
      cases ok with
      | true =>
        refine h.pause hi (pauses_goto s i _) fun q b hph => ?_
        cases hph
        rfl
      | false =>
        obtain ⟨hrecord, hasked, hrefused, hheld⟩ := hfits
        simp only [State.resume, Bool.false_eq_true, if_false]
        split
        · exact h.stay_claim (q := .acquire .unpin r) (b := none) (f := fun c => { c with asked := false }) hi rfl rfl
            ⟨rfl, id⟩ rfl ⟨hrecord, rfl, fun _ => rfl⟩ fun _ _ _ _ _ _ => rfl
        · rename_i hresident
          rw [Bool.not_eq_true] at hresident
          have hnot : (s.claims r.leaseId).held = false := Bool.eq_false_iff.mpr fun hh => by
            rw [hheld hh] at hresident
            cases hresident
          exact h.stay_same (q := .acquire .drop r) (b := none) hi rfl rfl ⟨rfl, id⟩ rfl
            ⟨hrecord, hasked.trans hresident, hnot⟩ fun _ => rfl
    | unpin =>
      obtain ⟨hrecord, hasked, hheld⟩ := hfits
      exact h.stay_same (q := .acquire .drop r) (b := none) hi rfl rfl ⟨rfl, id⟩ rfl
        ⟨hrecord, hasked, Bool.eq_false_iff.mpr fun hh => by cases hheld hh⟩ fun _ => rfl
    | drop =>
      obtain ⟨hrecord, hasked, hheld⟩ := hfits
      refine h.release hi rfl (pauses_goto s i _) ?_
      rw [show s.cache.get (Point.acquire .drop r).leaseId = none from hrecord]
      exact .none (fun hh => by rw [show _ = false from hasked] at hh; cases hh) hheld
  | renew stage u =>
    obtain ⟨⟨r, hrecord, hrenews⟩, hasked, hrefused, hheld, hstage⟩ := hfits
    have hrests : Rests (s.cache.get (Point.renew stage u).leaseId) (s.claims (Point.renew stage u).leaseId) := by
      rw [hrecord]
      rw [hrenews.resident] at hasked hheld
      exact .record hasked hrefused hheld
    cases stage with
    | pin =>
      cases ok with
      | true =>
        exact h.stay_same (q := .renew .save u) (b := none) hi rfl rfl ⟨rfl, id⟩ rfl
          ⟨⟨r, hrecord, hrenews⟩, hasked, hrefused, hheld, (fun h => by cases h)⟩ fun _ => rfl
      | false => exact h.release hi rfl (pauses_finish s i u.leaseId u.sessionId .answer .limitReached) hrests
    | save => exact h.release hi rfl (pauses_finish s i u.leaseId u.sessionId .answer _) hrests
  | remove stage r after =>
    cases stage with
    | unpin =>
      obtain ⟨hrecord, hresident, hasked, hrefused, hheld⟩ := hfits
      exact h.stay_same (q := .remove .delete r after) (b := none) hi rfl rfl ⟨rfl, id⟩ rfl
        ⟨hrecord, hasked, hrefused, Bool.eq_false_iff.mpr fun hh => by cases hheld hh⟩ (fun h => by cases h)
    | delete =>
      cases ok with
      | true =>
        obtain ⟨hrecord, hasked, hheld⟩ := hfits
        refine h.release hi rfl (pauses_finish ..) ?_
        rw [show s.cache.get (Point.remove .delete r after).leaseId = none from hrecord]
        exact .none (fun hh => by rw [show _ = false from hasked] at hh; cases hh) hheld
      | false =>
        obtain ⟨hrecord, hasked, hrefused, hheld⟩ := hfits
        simp only [State.resume, Bool.false_eq_true, if_false]
        split
        · rename_i hresident
          exact h.stay_claim (q := .remove .restore r after) (b := none) (f := fun c => { c with asked := true }) hi rfl rfl
            ⟨rfl, id⟩ rfl ⟨hrecord, hresident, rfl, hrefused⟩ fun _ _ _ _ _ _ => rfl
        · rename_i hresident
          rw [Bool.not_eq_true] at hresident
          refine h.release hi rfl (pauses_finish ..) ?_
          rw [show s.cache.get (Point.remove .delete r after).leaseId = some r from hrecord]
          refine .record (hasked.trans hresident.symm) hrefused fun hh => ?_
          rw [show _ = false from hheld] at hh
          cases hh
    | restore =>
      obtain ⟨hrecord, hresident, hasked, hrefused⟩ := hfits
      refine h.release hi rfl (pauses_finish s i r.leaseId r.sessionId after (.threw .store)) ?_
      rw [show s.cache.get (Point.remove .restore r after).leaseId = some r from hrecord]
      exact .record (hasked.trans hresident.symm) hrefused fun _ => hresident
  | reapply r rest =>
    refine h.reapplyNext hi ?_ ?_
    · intro q b hph
      cases hph
      rfl
    · simpa only [orderly, hi] using ho

/-! ### Calls that begin -/

/-- A call that has not asked for anything yet. -/
def State.begin (s : State) : State := { s with calls := s.calls ++ [Phase.done .released] }

theorem on_begin : s.begin.On l i p a ↔ s.On l i p a := by
  constructor
  · rintro ⟨hi, hl⟩
    rcases InFlight.get_append hi with hi | ⟨-, hdone⟩
    · exact ⟨hi, hl⟩
    · cases hdone
  · rintro ⟨hi, hl⟩
    exact ⟨InFlight.append_left _ hi, hl⟩

theorem begin_get (s : State) : s.begin.calls[s.calls.length]? = some (.done .released) :=
  getElem?_concat_length

theorem mayApply_begin (s : State) (rest : List PersistedApiPin) : s.begin.mayApply rest = s.mayApply rest := by
  have hany : ∀ l, s.begin.calls.any (·.removes l) = s.calls.any (·.removes l) := by
    intro l
    show (s.calls ++ [Phase.done .released]).any (·.removes l) = _
    rw [any_append]
    exact Bool.or_false _
  simp only [State.mayApply, hany]
  rfl

theorem Inv.begin (h : Inv s) : Inv s.begin := by
  constructor
  · intro l hl
    obtain ⟨hrecord, hclaim, hnone⟩ := h.fresh l hl
    exact ⟨hrecord, hclaim, fun i p a hp => hnone i p a (on_begin.mp hp)⟩
  · exact h.keyed
  · intro l
    have hacc := h.accounted l
    constructor
    · exact fun i p a hp => hacc.fits i p a (on_begin.mp hp)
    · exact fun hfree => hacc.rests fun i p a hp => hfree i p a (on_begin.mpr hp)
    · exact fun i j p q a b hp hq => hacc.alone i j p q a b (on_begin.mp hp) (on_begin.mp hq)
    · exact fun i j p q b hp hfree hq => hacc.opened i j p q b (on_begin.mp hp) hfree (on_begin.mp hq)
    · exact fun i p a hp => hacc.turned i p a (on_begin.mp hp)

/-- An acquisition works on an id that was not given before. -/
theorem Inv.acquireLease (h : Inv s) {outcome : Outcome} (hi : s.calls[i]? = some (.done outcome)) (sessionId : SessionId)
    (options : ApplyPinOptions) : Inv (s.acquireLease c i sessionId options) := by
  let r := s.newRecord c sessionId options
  obtain ⟨hrecord, hclaim, hnone⟩ := h.fresh s.nextLease (Nat.le_refl _)
  have hbeside : ¬ s.OwnedBeside s.nextLease i := by
    rintro ⟨j, q, b, _, hq, _⟩
    exact hnone j q b hq
  have hnotresident : ¬ Resident (s.cache.get s.nextLease) := by
    rw [hrecord]
    rintro ⟨_, hr, _⟩
    cases hr
  have hold : ∀ p a, Phase.done outcome ≠ .waits p a := (fun _ _ h => by cases h)
  rw [State.acquireLease]
  by_cases hresident : r.isResident = true
  · rw [if_pos hresident]
    let asked (cl : Claim) : Claim := { cl with asked := true }
    have hother : ∀ l, l ≠ s.nextLease → (s.setClaim s.nextLease asked).claims l = s.claims l :=
      fun l hl => setClaim_other s hl asked
    refine h.take (p := .acquire .pin r) hi hold rfl rfl (Nat.le_succ _) (Nat.lt_succ_self _) rfl hother hbeside rfl ?_
      (fun hres => absurd hres hnotresident) (fun h => by cases h)
    have hnow := setClaim_self s s.nextLease asked
    rw [hclaim] at hnow
    show Fits _ _ (s.cache.get s.nextLease) ((s.setClaim s.nextLease asked).claims s.nextLease)
    rw [hrecord, hnow]
    exact ⟨rfl, hresident, rfl, rfl, (fun h => by cases h)⟩
  · rw [if_neg hresident]
    rw [Bool.not_eq_true] at hresident
    refine h.take (p := .acquire .save r) hi hold rfl rfl (Nat.le_succ _) (Nat.lt_succ_self _) rfl (fun _ _ => rfl) hbeside rfl ?_
      (fun hres => absurd hres hnotresident) (fun h => by cases h)
    show Fits _ _ (s.cache.get s.nextLease) (s.claims s.nextLease)
    rw [hrecord, hclaim]
    exact ⟨rfl, hresident.symm, rfl, (fun h => by cases h)⟩

/-- Step lemma for a call that begins. -/
theorem Inv.calls (h : Inv s) {outcome : Outcome} (hi : s.calls[i]? = some (.done outcome)) {k : Call}
    (ho : ∀ sessionId, k = .reapplyForSession sessionId → s.mayApply (s.listForSession sessionId) = true) : Inv (s.call c i k) := by
  have hpause : ∀ {s'}, Pauses s s' i → Inv s' := fun hp => h.pause hi hp (fun _ _ h => by cases h)
  cases k with
  | applyPin sessionId options =>
    simp only [State.call]
    split
    · exact hpause (pauses_enqueue ..)
    · exact h.acquireLease hi sessionId _
  | acquireLease sessionId options => exact h.acquireLease hi sessionId options
  | renewLease sessionId leaseId ttlSeconds | releaseLease sessionId leaseId ownerId => exact hpause (pauses_enqueue ..)
  | releaseLegacyLease sessionId =>
    simp only [State.call]
    split
    · exact hpause (pauses_enqueue ..)
    · exact hpause (pauses_goto ..)
  | clear sessionId => exact hpause (pauses_clearNext ..)
  | expireNow => exact hpause ((pauses_sweepNext ..).after rfl rfl rfl rfl fun _ _ _ hj => hj)
  | reapplyForSession sessionId => exact h.reapplyNext hi (fun _ _ h => by cases h) (ho sessionId rfl)

/-- The phase that a step looks at. -/
theorem inv_step (s : State) (e : Step) (h : Inv s) (ho : orderly s e = true) : Inv (step c s e) := by
  cases e with
  | call k =>
    refine h.begin.calls (begin_get s) ?_
    rintro sessionId rfl
    rw [mayApply_begin]
    exact ho
  | turn i =>
    simp only [step]
    split
    next l op hi =>
      split
      · rename_i hturn
        exact h.operate hi hturn
      · exact h
    next => exact h
  | settle i ok =>
    simp only [step]
    split
    next p hi => exact h.settles hi ho
    next => exact h
  | resume i =>
    simp only [step]
    split
    next p ok hi => exact h.resumes hi ho
    next => exact h
  | clock now => exact ⟨h.fresh, h.keyed, fun l => ⟨(h.accounted l).fits, (h.accounted l).rests, (h.accounted l).alone,
      (h.accounted l).opened, (h.accounted l).turned⟩⟩
  | dispose l => exact h.dispose l

end

end PiWebUi.Retention
