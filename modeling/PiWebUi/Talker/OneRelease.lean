/-
  PiWebUi.Talker.OneRelease — one authority, one release.

  Over every sequence of calls: a proposal and a key are authorised at most once, a lane
  has at most one live proposal, a proposal that is not live stays as it is and is never
  authorised, a confirmation that is not an authorisation changes nothing, and a parked
  item or an offer is promoted at most once. The records are of authorised releases only
  where the caller records no others: `recordDelivery` does not ask
  (`a_record_without_authority`).
-/

import PiWebUi.Talker.Authority
import PiWebUi.Talker.Described
import PiWebUi.Lib.Run

namespace PiWebUi.Talker.Authority

open PiWebUi.Lib PiWebUi.Lib.JsNumber List Option

/-- The pair an answer authorises. -/
def KernelAnswer.authorised : KernelAnswer → Option (JsString × JsString)
  | .confirmation (.authorised p idempotencyKey _) => some (p.id, idempotencyKey)
  | _ => none

/-- Whether the call brings or takes a proposal, a parked item or an offer. -/
def KernelCall.opens : KernelCall → Bool
  | .promote _ | .parkItem _ _ _ | .offerAskWorker _ _ _ _ => true
  | _ => false

/-! ## The proposals -/

/-- Every proposal is under its own id, and no two live ones share a lane. -/
structure ProposalStore.Sound (s : ProposalStore) : Prop where
  keyed : ∀ id p, s.byId.get id = some p → p.id = id ∧ ∃ n < s.nextId, id = proposalId n
  oneLive : ∀ id id' p p', s.byId.get id = some p → s.byId.get id' = some p' → p.status.isLive → p'.status.isLive →
    p.laneId = p'.laneId → id = id'

/-- What a call does to sound proposals: they stay sound, and one that is not live stays as it is. -/
structure ProposalStore.Moves (s s' : ProposalStore) : Prop where
  sound : s'.Sound
  settled : ∀ id p, s.byId.get id = some p → p.status.isLive = false → s'.byId.get id = some p

theorem proposalId_injective : Function.Injective proposalId := fun _ _ h => natText_injective (append_cancel_left h)

namespace ProposalStore

variable {s s' : ProposalStore} {id : JsString} {p p' : Proposal}

theorem Sound.stays (h : s.Sound) : s.Moves s := ⟨h, fun _ _ hp _ => hp⟩

theorem Moves.trans {s'' : ProposalStore} (h : s.Moves s') (h' : s'.Moves s'') : s.Moves s'' :=
  ⟨h'.sound, fun id p hp hl => h'.settled id p (h.settled id p hp hl) hl⟩

/-- A live proposal changes, but not its id and lane. -/
theorem Sound.update (h : s.Sound) (hp : s.byId.get id = some p) (hlive : p.status.isLive) (hid : p'.id = p.id) (hlane : p'.laneId = p.laneId) :
    s.Moves { s with byId := s.byId.set id p' } := by
  constructor
  · constructor
    · intro i q hq
      rcases JsMap.get_set_eq_some.mp hq with ⟨rfl, rfl⟩ | ⟨-, hq⟩
      · exact ⟨hid.trans (h.keyed i p hp).1, (h.keyed i p hp).2⟩
      · exact h.keyed i q hq
    · -- Both were live before, in the same lanes.
      have hwas : ∀ i q, (s.byId.set id p').get i = some q → q.status.isLive →
          ∃ r, s.byId.get i = some r ∧ r.status.isLive ∧ r.laneId = q.laneId := by
        intro i q hq hl
        rcases JsMap.get_set_eq_some.mp hq with ⟨rfl, rfl⟩ | ⟨-, hq⟩
        · exact ⟨p, hp, hlive, hlane.symm⟩
        · exact ⟨q, hq, hl, rfl⟩
      intro i j q r hq hr hql hrl hqr
      obtain ⟨q₀, hq₀, hql₀, hqlane⟩ := hwas i q hq hql
      obtain ⟨r₀, hr₀, hrl₀, hrlane⟩ := hwas j r hr hrl
      exact h.oneLive i j q₀ r₀ hq₀ hr₀ hql₀ hrl₀ (hqlane.trans (hqr.trans hrlane.symm))
  · intro i q hq hl
    have hi : i ≠ id := by
      rintro rfl
      obtain rfl := some.inj (hp.symm.trans hq)
      rw [hlive] at hl
      cases hl
    rw [JsMap.get_set_ne _ _ hi]
    exact hq

/-- A new proposal in a lane without a live one. -/
theorem Sound.add (h : s.Sound) (hid : p.id = proposalId s.nextId)
    (hnone : ∀ i q, s.byId.get i = some q → q.status.isLive → q.laneId ≠ p.laneId) (version : ℕ) :
    s.Moves { byId := s.byId.set (proposalId s.nextId) p, nextId := s.nextId + 1, nextVersion := version } := by
  have hfresh : ∀ i q, s.byId.get i = some q → i ≠ proposalId s.nextId := by
    rintro i q hq rfl
    obtain ⟨-, n, hn, heq⟩ := h.keyed _ q hq
    have := proposalId_injective heq
    omega
  constructor
  · constructor
    · intro i q hq
      rcases JsMap.get_set_eq_some.mp hq with ⟨rfl, rfl⟩ | ⟨-, hq⟩
      · exact ⟨hid, s.nextId, Nat.lt_succ_self _, rfl⟩
      · obtain ⟨hq, n, hn, heq⟩ := h.keyed i q hq
        exact ⟨hq, n, Nat.lt_succ_of_lt hn, heq⟩
    · intro i j q r hq hr hql hrl hqr
      rcases JsMap.get_set_eq_some.mp hq with ⟨rfl, rfl⟩ | ⟨-, hqi⟩
      · rcases JsMap.get_set_eq_some.mp hr with ⟨rfl, -⟩ | ⟨-, hrj⟩
        · rfl
        · exact absurd hqr.symm (hnone j r hrj hrl)
      · rcases JsMap.get_set_eq_some.mp hr with ⟨rfl, rfl⟩ | ⟨-, hrj⟩
        · exact absurd hqr (hnone i q hqi hql)
        · exact h.oneLive i j q r hqi hrj hql hrl hqr
  · intro i q hq _
    rw [JsMap.get_set_ne _ _ (hfresh i q hq)]
    exact hq

/-- The live proposal of a lane is found, and is the only one. -/
theorem Sound.live_some (h : s.Sound) {laneId : JsString} (hp : s.live laneId = some p) :
    s.byId.get p.id = some p ∧ p.status.isLive ∧ p.laneId = laneId := by
  have hfound := find?_some hp
  simp only [Bool.and_eq_true, decide_eq_true_eq] at hfound
  obtain ⟨e, he, rfl⟩ := mem_map.mp (mem_of_find?_eq_some hp)
  have hget := JsMap.get_of_mem he
  rw [(h.keyed _ _ hget).1]
  exact ⟨hget, hfound.2, hfound.1⟩

theorem live_none {laneId : JsString} (hp : s.live laneId = none) :
    ∀ i q, s.byId.get i = some q → q.status.isLive → q.laneId ≠ laneId := by
  intro i q hq hlive hlane
  rw [live, find?_eq_none] at hp
  refine hp q (mem_map_of_mem (f := Prod.snd) (JsMap.get_eq_some.mp hq)) ?_
  simp [hlane, hlive]

theorem Sound.create (h : s.Sound) (w : Wording) (laneId : JsString) (route : PromotionRoute) (sourceUtteranceId : ℕ)
    (tidied : JsString) (original : Option JsString) (createdTurn : ℤ) (now : ℕ) :
    s.Moves (s.create w laneId route sourceUtteranceId tidied original createdTurn now).2 := by
  cases hlive : s.live laneId with
  | none =>
    simp only [ProposalStore.create, hlive]
    refine h.add ?_ ?_ _
    · rfl
    · exact live_none hlive
  | some p =>
    obtain ⟨hget, hl, hlane⟩ := h.live_some hlive
    have hsuperseded : s.Moves { s with byId := s.byId.set p.id { p with status := .superseded } } := h.update hget hl rfl rfl
    -- Whatever is live in the lane now was live before, but then it was this one.
    have hnone : ∀ i q, (s.byId.set p.id { p with status := .superseded }).get i = some q → q.status.isLive → q.laneId ≠ laneId := by
      intro i q hq hql hqlane
      rcases JsMap.get_set_eq_some.mp hq with ⟨rfl, rfl⟩ | ⟨hi, hq⟩
      · cases hql
      · exact hi (h.oneLive i p.id q p hq hget hql hl (hqlane.trans hlane.symm))
    simp only [ProposalStore.create, hlive, supersede, hget]
    refine hsuperseded.trans (hsuperseded.sound.add ?_ ?_ _)
    · rfl
    · exact hnone

/-- Either the live proposal is taken, or nothing changes. -/
theorem take_cases (s : ProposalStore) (id : JsString) (variant : Option ReleaseVariant) (identity : ProposalIdentity) :
    (∃ stored taken, s.byId.get id = some stored ∧ stored.status.isLive ∧
      taken = { stored with status := .released, presentedVariant := some (variant.getD .tidied) } ∧
      s.takeForConfirmation id variant identity = (.taken taken, { s with byId := s.byId.set id taken })) ∨
    ((s.takeForConfirmation id variant identity).1.isTaken = false ∧ (s.takeForConfirmation id variant identity).2 = s) := by
  unfold takeForConfirmation
  split
  · exact Or.inr ⟨rfl, rfl⟩
  · next stored hget =>
    split
    · exact Or.inr ⟨rfl, rfl⟩
    · next hlive =>
      split
      · exact Or.inr ⟨rfl, rfl⟩
      · simp only
        split
        · exact Or.inr ⟨rfl, rfl⟩
        · exact Or.inl ⟨stored, _, hget, by simpa using hlive, rfl, rfl⟩

end ProposalStore

/-! ## What a call does -/

namespace Kernel

variable {w : Wording} {now : ℕ} {k k' : Kernel}

theorem promote_moves (h : k.proposals.Sound) {input : KernelPromotionInput} {p : Proposal}
    (hp : k.promote w now input = .ok (p, k')) :
    k.proposals.Moves k'.proposals ∧ k'.releases = k.releases ∧ k'.reservedIdempotencyKeys = k.reservedIdempotencyKeys := by
  cases input with
  | directAddress laneId tidied original sourceUtteranceId createdTurn =>
    cases hp
    exact ⟨h.create .., rfl, rfl⟩
  | acceptedOffer laneId id sourceUtteranceId createdTurn | parkedItemPromotion laneId id sourceUtteranceId createdTurn =>
    simp only [promote] at hp
    split at hp
    · cases hp
    · cases hp
      exact ⟨h.create .., rfl, rfl⟩

/-- Either the key was free and the live proposal is taken, or nothing changes. -/
theorem confirm_cases (k : Kernel) (input : KernelConfirmationInput) :
    (∃ stored taken, k.proposals.byId.get input.proposalId = some stored ∧ stored.status.isLive ∧
      taken = { stored with status := .released, presentedVariant := some (input.variant.getD .tidied) } ∧
      k.reservedIdempotencyKeys.has input.idempotencyKey = false ∧
      k.confirm input = (.authorised taken input.idempotencyKey taken.laneId,
        { k with
          reservedIdempotencyKeys := k.reservedIdempotencyKeys.set input.idempotencyKey input.proposalId
          proposals := { k.proposals with byId := k.proposals.byId.set input.proposalId taken } })) ∨
    ((k.confirm input).1.isAuthorised = false ∧ (k.confirm input).2 = k) := by
  unfold confirm
  simp only
  split
  · exact Or.inr ⟨rfl, rfl⟩
  · split
    · exact Or.inr ⟨rfl, rfl⟩
    · split
      · exact Or.inr ⟨rfl, rfl⟩
      · next hkey =>
        rw [not_or, Bool.not_eq_true, Bool.not_eq_true] at hkey
        rcases k.proposals.take_cases input.proposalId input.variant input.identity with
          ⟨stored, taken, hget, hlive, htaken, htake⟩ | ⟨hrefused, hsame⟩
        · rw [htake]
          exact Or.inl ⟨stored, taken, hget, hlive, htaken, hkey.2, rfl⟩
        · -- The reservation is given back.
          have hback := JsMap.delete_set_of_not_has hkey.2 input.proposalId
          generalize k.proposals.takeForConfirmation input.proposalId input.variant input.identity = take at hrefused hsame
          obtain ⟨result, proposals⟩ := take
          obtain rfl : proposals = k.proposals := hsame
          cases result with
          | taken p => cases hrefused
          | notFound | notLive p | stale p | originalNotOffered p => exact Or.inr ⟨rfl, by rw [hback]⟩

variable {c : KernelCall}

theorem authorised_confirm {pair : JsString × JsString} (ha : (k.call w now c).1.authorised = some pair) :
    ∃ input, c = .confirm input := by
  cases c with
  | confirm input => exact ⟨input, rfl⟩
  | promote input | recordDelivery input | reconcile key outcome receiptTimestamp | cancel id | present id variant =>
    simp only [call, answer] at ha
    split at ha <;> cases ha
  | parkItem text sourceUtteranceId original | offerAskWorker question reason sourceUtteranceId topic => cases ha

theorem call_moves (h : k.proposals.Sound) (c : KernelCall) : k.proposals.Moves (k.call w now c).2.proposals := by
  cases c with
  | promote input =>
    simp only [call]
    cases hp : k.promote w now input with
    | error e => exact h.stays
    | ok r => exact (promote_moves h hp).1
  | confirm input =>
    rcases k.confirm_cases input with ⟨stored, taken, hget, hlive, rfl, -, heq⟩ | ⟨-, heq⟩
    · simp only [call, heq, Prod.map_snd, id]
      exact h.update hget hlive rfl rfl
    · simp only [call, heq, Prod.map_snd, id]
      exact h.stays
  | recordDelivery input | reconcile key outcome receiptTimestamp =>
    simp only [call, recordDelivery, reconcile]
    split
    · exact h.stays
    · split <;> exact h.stays
  | cancel id | present id variant =>
    simp only [call, cancel, present]
    split
    · exact h.stays
    · next stored hget =>
      split
      · next hlive => exact h.update hget hlive rfl rfl
      · exact h.stays
  | parkItem text sourceUtteranceId original | offerAskWorker question reason sourceUtteranceId topic => exact h.stays

/-- Only a promotion, a parking and an offer change the lot and the offers. -/
theorem call_kept (hc : c.opens = false) : (k.call w now c).2.parkingLot = k.parkingLot ∧ (k.call w now c).2.offers = k.offers := by
  cases c with
  | promote input | parkItem text sourceUtteranceId original | offerAskWorker question reason sourceUtteranceId topic => cases hc
  | confirm input =>
    rcases k.confirm_cases input with ⟨stored, taken, -, -, -, -, heq⟩ | ⟨-, heq⟩
    all_goals simp only [call, heq, Prod.map, id_eq, and_self]
  | recordDelivery input | reconcile key outcome receiptTimestamp | cancel id | present id variant =>
    simp only [call, recordDelivery, reconcile, cancel, present]
    split
    · exact ⟨rfl, rfl⟩
    · split <;> exact ⟨rfl, rfl⟩

/-- An authorisation takes a live proposal and reserves a key that was free. -/
theorem call_authorised (h : k.proposals.Sound) {id key : JsString} (ha : (k.call w now c).1.authorised = some (id, key)) :
    (∃ stored, k.proposals.byId.get id = some stored ∧ stored.status.isLive) ∧ k.reservedIdempotencyKeys.has key = false ∧
      (k.call w now c).2.reservedIdempotencyKeys = k.reservedIdempotencyKeys.set key id ∧
      (∃ taken, (k.call w now c).2.proposals.byId.get id = some taken ∧ taken.status = .released) ∧
      (k.call w now c).2.releases = k.releases := by
  obtain ⟨input, rfl⟩ := authorised_confirm ha
  rcases k.confirm_cases input with ⟨stored, taken, hget, hlive, rfl, hkey, heq⟩ | ⟨hnot, -⟩
  · simp only [call, heq, Prod.map, KernelAnswer.authorised, some.injEq, Prod.mk.injEq] at ha
    obtain ⟨rfl, rfl⟩ := ha
    rw [(h.keyed _ _ hget).1]
    simp only [call, heq, Prod.map, id_eq]
    exact ⟨⟨stored, hget, hlive⟩, hkey, trivial, ⟨_, JsMap.get_set_same .., rfl⟩, trivial⟩
  · simp only [call, Prod.map] at ha
    cases hr : (k.confirm input).1 with
    | authorised p key' lane =>
      rw [hr] at hnot
      cases hnot
    | duplicateRefusal _ _ _ | refused _ _ =>
      rw [hr] at ha
      cases ha

/-- Without an authorisation no key is reserved. -/
theorem call_unauthorised (h : k.proposals.Sound) (ha : (k.call w now c).1.authorised = none) :
    (k.call w now c).2.reservedIdempotencyKeys = k.reservedIdempotencyKeys := by
  cases c with
  | promote input =>
    simp only [call]
    cases hp : k.promote w now input with
    | error e => rfl
    | ok r => exact (promote_moves h hp).2.2
  | confirm input =>
    rcases k.confirm_cases input with ⟨stored, taken, -, -, -, -, heq⟩ | ⟨-, heq⟩
    · simp only [call, heq, Prod.map, KernelAnswer.authorised] at ha
      cases ha
    · simp only [call, heq, Prod.map, id_eq]
  | recordDelivery input | reconcile key outcome receiptTimestamp | cancel id | present id variant =>
    simp only [call, recordDelivery, reconcile, cancel, present]
    split
    · rfl
    · split <;> rfl
  | parkItem text sourceUtteranceId original | offerAskWorker question reason sourceUtteranceId topic => rfl

end Kernel

/-! ## Runs -/

/-- Every call and its answer, in order. -/
abbrev Log := List (KernelCall × KernelAnswer)

def stepCall (w : Wording) (s : Kernel × Log) (e : ℕ × KernelCall) : Kernel × Log :=
  ((s.1.call w e.1 e.2).2, s.2 ++ [(e.2, (s.1.call w e.1 e.2).1)])

/-- The calls, each with the clock it reads, from a kernel. -/
def runFrom (w : Wording) (k : Kernel) (calls : List (ℕ × KernelCall)) : Kernel × Log := calls.foldl (stepCall w) (k, [])

def authorised (log : Log) : List (JsString × JsString) := log.filterMap fun e => e.2.authorised

/-- The parked item a call promoted. -/
def promotedItem : KernelCall × KernelAnswer → Option JsString
  | (.promote (.parkedItemPromotion _ parkedItemId _ _), .proposal _) => some parkedItemId
  | _ => none

/-- The offer a call promoted. -/
def promotedOffer : KernelCall × KernelAnswer → Option JsString
  | (.promote (.acceptedOffer _ offerId _ _), .proposal _) => some offerId
  | _ => none

@[simp] theorem authorised_append (log : Log) (e : KernelCall × KernelAnswer) :
    authorised (log ++ [e]) = authorised log ++ e.2.authorised.toList := by
  cases he : e.2.authorised <;> simp [authorised, filterMap_append, he]

variable {w : Wording} {now : ℕ} {k : Kernel} {log : Log}

/-- What was authorised is reserved, released and never authorised twice. -/
structure Tracked (s : Kernel × Log) : Prop where
  sound : s.1.proposals.Sound
  reserved : ∀ id key, (id, key) ∈ authorised s.2 ↔ s.1.reservedIdempotencyKeys.get key = some id
  released : ∀ id key, (id, key) ∈ authorised s.2 → ∃ p, s.1.proposals.byId.get id = some p ∧ p.status = .released
  proposalsOnce : ((authorised s.2).map Prod.fst).Nodup
  keysOnce : ((authorised s.2).map Prod.snd).Nodup

variable {s : Kernel × Log} {id : JsString}

theorem Tracked.step (h : Tracked s) (e : ℕ × KernelCall) : Tracked (stepCall w s e) := by
  obtain ⟨k, log⟩ := s
  obtain ⟨now, c⟩ := e
  have hmoves : k.proposals.Moves (k.call w now c).2.proposals := Kernel.call_moves h.sound c
  have hstays : ∀ id p, k.proposals.byId.get id = some p → p.status = .released →
      (k.call w now c).2.proposals.byId.get id = some p := by
    intro id p hp hr
    exact hmoves.settled id p hp (by rw [hr]; rfl)
  cases ha : (k.call w now c).1.authorised with
  | none =>
    have hreserved := Kernel.call_unauthorised h.sound ha
    have hlog : authorised (stepCall w (k, log) (now, c)).2 = authorised log := by simp [stepCall, ha]
    constructor
    · exact hmoves.sound
    · intro id key
      rw [hlog, h.reserved id key, stepCall, hreserved]
    · intro id key hmem
      rw [hlog] at hmem
      obtain ⟨p, hp, hr⟩ := h.released id key hmem
      exact ⟨p, hstays id p hp hr, hr⟩
    · rw [hlog]
      exact h.proposalsOnce
    · rw [hlog]
      exact h.keysOnce
  | some pair =>
    obtain ⟨id, key⟩ := pair
    obtain ⟨⟨stored, hget, hlive⟩, hfree, hreserved, ⟨taken, htaken, hstatus⟩, -⟩ := Kernel.call_authorised h.sound ha
    have hlog : authorised (stepCall w (k, log) (now, c)).2 = authorised log ++ [(id, key)] := by simp [stepCall, ha]
    -- Neither the proposal nor the key is among the pairs so far.
    have hnewId : ∀ key', (id, key') ∉ authorised log := by
      intro key' hmem
      obtain ⟨p, hp, hr⟩ := h.released id key' hmem
      obtain rfl := some.inj (hget.symm.trans hp)
      rw [hr] at hlive
      cases hlive
    have hnewKey : ∀ id', (id', key) ∉ authorised log := by
      intro id' hmem
      have := JsMap.has_iff_get.mpr (isSome_iff_exists.mpr ⟨id', (h.reserved id' key).mp hmem⟩)
      rw [hfree] at this
      cases this
    constructor
    · exact hmoves.sound
    · intro id' key'
      rw [hlog, stepCall, hreserved, JsMap.get_set, mem_append, mem_singleton]
      by_cases hk : key' = key
      · subst hk
        simp [hnewKey id', eq_comm]
      · simp [hk, h.reserved id' key']
    · intro id' key' hmem
      rw [hlog, mem_append, mem_singleton] at hmem
      rcases hmem with hmem | heq
      · obtain ⟨p, hp, hr⟩ := h.released id' key' hmem
        exact ⟨p, hstays id' p hp hr, hr⟩
      · cases heq
        exact ⟨taken, htaken, hstatus⟩
    · rw [hlog, map_append, nodup_append]
      refine ⟨h.proposalsOnce, by simp, ?_⟩
      rintro a ha' b hb rfl
      obtain ⟨⟨id', key'⟩, hmem, rfl⟩ := mem_map.mp ha'
      obtain rfl : id' = id := by simpa using hb
      exact hnewId key' hmem
    · rw [hlog, map_append, nodup_append]
      refine ⟨h.keysOnce, by simp, ?_⟩
      rintro a ha' b hb rfl
      obtain ⟨⟨id', key'⟩, hmem, rfl⟩ := mem_map.mp ha'
      obtain rfl : key' = key := by simpa using hb
      exact hnewKey id' hmem

theorem tracked_start : Tracked ({}, []) := by
  constructor
  · constructor
    · intro id p hp
      cases hp
    · intro id id' p p' hp
      cases hp
  · intro id key
    simp [authorised]
  · intro id key hmem
    cases hmem
  · exact nodup_nil
  · exact nodup_nil

theorem tracked_run (w : Wording) (calls : List (ℕ × KernelCall)) : Tracked (runFrom w {} calls) :=
  Run.invariant_all (fun _ e h => h.step e) tracked_start calls

/-- A proposal that is not live stays as it is and is not authorised from then on. -/
theorem settled_never_authorised (h : k.proposals.Sound) {p : Proposal} (hp : k.proposals.byId.get id = some p)
    (hl : p.status.isLive = false) (later : List (ℕ × KernelCall)) : id ∉ (authorised (runFrom w k later).2).map Prod.fst := by
  suffices hstep : ∀ (s : Kernel × Log) (e : ℕ × KernelCall),
      (s.1.proposals.Sound ∧ s.1.proposals.byId.get id = some p ∧ id ∉ (authorised s.2).map Prod.fst) →
        (stepCall w s e).1.proposals.Sound ∧ (stepCall w s e).1.proposals.byId.get id = some p ∧
          id ∉ (authorised (stepCall w s e).2).map Prod.fst from
    (Run.invariant_all hstep ⟨h, hp, by simp [authorised]⟩ later).2.2
  rintro ⟨k, log⟩ ⟨now, c⟩ ⟨hs, hget, hnot⟩
  have hmoves : k.proposals.Moves (k.call w now c).2.proposals := Kernel.call_moves hs c
  refine ⟨hmoves.sound, hmoves.settled id p hget hl, ?_⟩
  simp only [stepCall, authorised_append, map_append, mem_append, not_or]
  refine ⟨hnot, ?_⟩
  cases ha : (k.call w now c).1.authorised with
  | none => simp
  | some pair =>
    obtain ⟨id', key⟩ := pair
    obtain ⟨⟨stored, hstored, hlive⟩, -⟩ := Kernel.call_authorised hs ha
    simp only [toList_some, map_cons, map_nil, mem_singleton]
    rintro rfl
    obtain rfl := some.inj (hget.symm.trans hstored)
    rw [hl] at hlive
    cases hlive

/-! ## Promotions -/

theorem parkId_injective : Function.Injective parkId := fun _ _ h => natText_injective (append_cancel_left h)

/-- The lot's own list of promoted items is what the log says, and no two items share an id. -/
structure LotTracked (s : Kernel × Log) : Prop where
  promoted : s.2.filterMap promotedItem = s.1.parkingLot.promoted.map (·.id)
  distinct : ((s.1.parkingLot.items ++ s.1.parkingLot.promoted).map (·.id)).Nodup
  issued : ∀ i ∈ s.1.parkingLot.items ++ s.1.parkingLot.promoted, ∃ n < s.1.parkingLot.nextId, i.id = parkId n

theorem ParkingLot.promote_some {l l' : ParkingLot} {item : ParkedItem} (h : l.promote id = some (item, l')) :
    item.id = id ∧ (l'.items ++ l'.promoted).Perm (l.items ++ l.promoted) ∧ l'.promoted = l.promoted ++ [item] ∧
      l'.nextId = l.nextId := by
  unfold promote at h
  split at h
  · cases h
  · next index hindex =>
    obtain ⟨hlt, hid, -⟩ := findIdx?_eq_some_iff_getElem.mp hindex
    rw [getElem?_eq_getElem hlt] at h
    cases h
    refine ⟨by simpa using hid, ?_, rfl, rfl⟩
    have hperm : (l.items.eraseIdx index ++ [l.items[index]]).Perm l.items :=
      (perm_append_singleton _ _).trans (getElem_cons_eraseIdx_perm hlt)
    have hswap : (l.promoted ++ [l.items[index]]).Perm ([l.items[index]] ++ l.promoted) := perm_append_comm
    have happ := hperm.append_right l.promoted
    rw [append_assoc] at happ
    exact (hswap.append_left _).trans happ

/-- No promotion of a parked item in the entry, and the lot as it was. -/
theorem LotTracked.same {k k' : Kernel} {log : Log} (h : LotTracked (k, log)) {e : KernelCall × KernelAnswer}
    (he : promotedItem e = none) (hlot : k'.parkingLot = k.parkingLot) : LotTracked (k', log ++ [e]) := by
  constructor
  · simp only [filterMap_append, filterMap_cons, he, filterMap_nil, append_nil, hlot]
    exact h.promoted
  · simp only [hlot]
    exact h.distinct
  · simp only [hlot]
    exact h.issued

theorem LotTracked.step (h : LotTracked s) (e : ℕ × KernelCall) : LotTracked (stepCall w s e) := by
  obtain ⟨k, log⟩ := s
  obtain ⟨now, c⟩ := e
  cases c with
  | parkItem text sourceUtteranceId original =>
    -- The new item's id was not issued before.
    have hnew : ∀ i ∈ k.parkingLot.items ++ k.parkingLot.promoted, i.id ≠ parkId k.parkingLot.nextId := by
      intro i hi heq
      obtain ⟨n, hn, hid⟩ := h.issued i hi
      have hne : n ≠ k.parkingLot.nextId := Nat.ne_of_lt hn
      exact hne (parkId_injective (hid.symm.trans heq))
    have hmem : ∀ (item i : ParkedItem), i ∈ (k.parkingLot.items ++ [item]) ++ k.parkingLot.promoted →
        i = item ∨ i ∈ k.parkingLot.items ++ k.parkingLot.promoted := by
      intro item i hi
      simp only [mem_append, mem_singleton] at hi ⊢
      tauto
    constructor
    · simp only [stepCall, Kernel.call, ParkingLot.add, filterMap_append, filterMap_cons, promotedItem,
        filterMap_nil, append_nil]
      exact h.promoted
    · simp only [stepCall, Kernel.call, ParkingLot.add]
      have hperm : ∀ item : ParkedItem, ((k.parkingLot.items ++ [item]) ++ k.parkingLot.promoted).Perm
          (item :: (k.parkingLot.items ++ k.parkingLot.promoted)) := by
        intro item
        rw [append_assoc]
        exact perm_middle
      rw [((hperm _).map _).nodup_iff, map_cons, nodup_cons]
      refine ⟨?_, h.distinct⟩
      intro hin
      obtain ⟨i, hi, heq⟩ := mem_map.mp hin
      exact hnew i hi heq
    · intro i hi
      simp only [stepCall, Kernel.call, ParkingLot.add] at hi ⊢
      rcases hmem _ i hi with rfl | hi
      · exact ⟨k.parkingLot.nextId, Nat.lt_succ_self _, rfl⟩
      · obtain ⟨n, hn, hid⟩ := h.issued i hi
        exact ⟨n, Nat.lt_succ_of_lt hn, hid⟩
  | promote input =>
    cases input with
    | directAddress laneId tidied original sourceUtteranceId createdTurn => exact h.same rfl rfl
    | acceptedOffer laneId id sourceUtteranceId createdTurn =>
      refine h.same ?_ ?_
      · rfl
      · simp only [Kernel.call, Kernel.promote]
        split <;> rfl
    | parkedItemPromotion laneId id sourceUtteranceId createdTurn =>
      simp only [stepCall, Kernel.call, Kernel.promote]
      cases hp : k.parkingLot.promote id with
      | none => exact h.same rfl rfl
      | some r =>
        obtain ⟨item, lot⟩ := r
        obtain ⟨hid, hperm, hpromoted, hnext⟩ := ParkingLot.promote_some hp
        constructor
        · simp only [Kernel.answer, filterMap_append, filterMap_cons, promotedItem, filterMap_nil, hpromoted,
            map_append, map_cons, map_nil, hid]
          rw [h.promoted]
        · simp only [Kernel.answer]
          rw [(hperm.map _).nodup_iff]
          exact h.distinct
        · intro i hi
          simp only [Kernel.answer, hnext] at hi ⊢
          exact h.issued i (hperm.mem_iff.mp hi)
  | confirm input => exact h.same rfl (Kernel.call_kept rfl).1
  | recordDelivery input => exact h.same rfl (Kernel.call_kept rfl).1
  | reconcile key outcome receiptTimestamp => exact h.same rfl (Kernel.call_kept rfl).1
  | cancel id => exact h.same rfl (Kernel.call_kept rfl).1
  | present id variant => exact h.same rfl (Kernel.call_kept rfl).1
  | offerAskWorker question reason sourceUtteranceId topic => exact h.same rfl rfl

theorem lotTracked_run (w : Wording) (calls : List (ℕ × KernelCall)) : LotTracked (runFrom w {} calls) := by
  refine Run.invariant_all (fun _ e h => h.step e) ?_ calls
  exact ⟨rfl, nodup_nil, nofun⟩

/-- Every promoted offer is accepted, and was promoted once. -/
structure OffersTracked (s : Kernel × Log) : Prop where
  once : (s.2.filterMap promotedOffer).Nodup
  accepted : ∀ id ∈ s.2.filterMap promotedOffer,
    ∃ offer, s.1.offers.offers.find? (·.id = id) = some offer ∧ offer.status = .accepted

theorem OffersTracked.same {k k' : Kernel} {log : Log} (h : OffersTracked (k, log)) {e : KernelCall × KernelAnswer}
    (he : promotedOffer e = none) (hoffers : k'.offers = k.offers) : OffersTracked (k', log ++ [e]) := by
  have hlog : (log ++ [e]).filterMap promotedOffer = log.filterMap promotedOffer := by simp [filterMap_append, he]
  constructor
  · rw [hlog]
    exact h.once
  · rw [hlog, hoffers]
    exact h.accepted

/-- What is found after the first offer with an id is replaced. -/
theorem find_replaceF {offers : List KernelOffer} {found accepted : KernelOffer}
    (hfound : offers.find? (·.id = id) = some found) (hid : accepted.id = id) (id' : JsString) :
    (offers.replaceF fun o => if o.id = id then some accepted else none).find? (·.id = id') =
      if id' = id then some accepted else offers.find? (·.id = id') := by
  induction offers with
  | nil => cases hfound
  | cons o offers ih =>
    by_cases ho : o.id = id
    · simp only [replaceF_cons, ho, if_true, find?_cons, hid]
      by_cases h : id = id'
      · simp [h]
      · simp [h, Ne.symm h]
    · have hrest : offers.find? (·.id = id) = some found := by simpa [find?_cons, ho] using hfound
      simp only [replaceF_cons, ho, if_false, find?_cons, ih hrest]
      by_cases h : id' = id
      · simp [h, ho]
      · simp [h]

theorem AskWorkerOffers.accept_ok {o o' : AskWorkerOffers} {offer : KernelOffer} (h : o.accept id = .ok (offer, o')) :
    offer.status = .accepted ∧ (∃ found, o.offers.find? (·.id = id) = some found ∧ found.status = .offered) ∧
      ∀ id', o'.offers.find? (·.id = id') = if id' = id then some offer else o.offers.find? (·.id = id') := by
  unfold accept at h
  split at h
  · cases h
  · next found hfound =>
    split at h
    · cases h
    · cases h
    · next hstatus =>
      cases h
      have hid : found.id = id := by simpa using find?_some hfound
      exact ⟨rfl, ⟨found, hfound, hstatus⟩, find_replaceF hfound hid⟩

theorem OffersTracked.step (h : OffersTracked s) (e : ℕ × KernelCall) : OffersTracked (stepCall w s e) := by
  obtain ⟨k, log⟩ := s
  obtain ⟨now, c⟩ := e
  cases c with
  | offerAskWorker question reason sourceUtteranceId topic =>
    -- A new offer comes last, so what was found is found still.
    have hlog : (stepCall w (k, log) (now, .offerAskWorker question reason sourceUtteranceId topic)).2.filterMap promotedOffer =
        log.filterMap promotedOffer := by
      simp [stepCall, filterMap_append, promotedOffer]
    constructor
    · rw [hlog]
      exact h.once
    · rw [hlog]
      intro id hid
      obtain ⟨offer, hoffer, hstatus⟩ := h.accepted id hid
      refine ⟨offer, ?_, hstatus⟩
      simp only [stepCall, Kernel.call, AskWorkerOffers.offer]
      split
      · exact hoffer
      · rw [find?_append, hoffer]
        rfl
  | promote input =>
    cases input with
    | directAddress laneId tidied original sourceUtteranceId createdTurn => exact h.same rfl rfl
    | parkedItemPromotion laneId id sourceUtteranceId createdTurn =>
      refine h.same ?_ ?_
      · rfl
      · simp only [Kernel.call, Kernel.promote]
        split <;> rfl
    | acceptedOffer laneId id sourceUtteranceId createdTurn =>
      simp only [stepCall, Kernel.call, Kernel.promote]
      cases hp : k.offers.accept id with
      | error e => exact h.same rfl rfl
      | ok r =>
        obtain ⟨offer, offers⟩ := r
        obtain ⟨hstatus, ⟨found, hfound, hoffered⟩, hfind⟩ := AskWorkerOffers.accept_ok hp
        have hnew : id ∉ log.filterMap promotedOffer := by
          intro hmem
          obtain ⟨offer', hoffer', haccepted⟩ := h.accepted id hmem
          obtain rfl := some.inj (hfound.symm.trans hoffer')
          rw [hoffered] at haccepted
          cases haccepted
        constructor
        · simp only [Kernel.answer, filterMap_append, filterMap_cons, promotedOffer, filterMap_nil]
          rw [nodup_append]
          refine ⟨h.once, by simp, ?_⟩
          rintro a ha b hb rfl
          obtain rfl : a = id := by simpa using hb
          exact hnew ha
        · intro id' hid'
          simp only [Kernel.answer, filterMap_append, filterMap_cons, promotedOffer, filterMap_nil,
            mem_append, mem_singleton] at hid'
          simp only [Kernel.answer]
          rw [hfind id']
          by_cases heq : id' = id
          · exact ⟨offer, by rw [if_pos heq], hstatus⟩
          · rw [if_neg heq]
            exact h.accepted id' (hid'.resolve_right heq)
  | parkItem text sourceUtteranceId original => exact h.same rfl rfl
  | confirm input => exact h.same rfl (Kernel.call_kept rfl).2
  | recordDelivery input => exact h.same rfl (Kernel.call_kept rfl).2
  | reconcile key outcome receiptTimestamp => exact h.same rfl (Kernel.call_kept rfl).2
  | cancel id => exact h.same rfl (Kernel.call_kept rfl).2
  | present id variant => exact h.same rfl (Kernel.call_kept rfl).2

theorem offersTracked_run (w : Wording) (calls : List (ℕ × KernelCall)) : OffersTracked (runFrom w {} calls) := by
  refine Run.invariant_all (fun _ e h => h.step e) ?_ calls
  exact ⟨nodup_nil, nofun⟩

/-! ## Records -/

/-- Every record is of a pair that was authorised. -/
def RecordsAuthorised (s : Kernel × Log) : Prop := ∀ r ∈ s.1.releases, (r.proposalId, r.idempotencyKey) ∈ authorised s.2

/-- A delivery that would be recorded is of a proposal its key is reserved for. -/
def Recorded (s : Kernel × Log) (e : ℕ × KernelCall) : Prop :=
  match e.2 with
  | .recordDelivery input =>
    ((s.1.proposals.byId.get input.proposalId).isSome ∧
      ReleaseStore.hasReleaseFor s.1.releases input.proposalId = false ∧
      ReleaseStore.hasIdempotencyKey s.1.releases input.idempotencyKey = false) →
    s.1.reservedIdempotencyKeys.get input.idempotencyKey = some input.proposalId
  | _ => True

/-- Only a recorded delivery adds a pair that no record had. -/
theorem Kernel.call_records (h : k.proposals.Sound) (c : KernelCall) {r : ReleaseRecord} (hr : r ∈ (k.call w now c).2.releases) :
    (∃ r' ∈ k.releases, r'.proposalId = r.proposalId ∧ r'.idempotencyKey = r.idempotencyKey) ∨
      ∃ input, c = .recordDelivery input ∧ r.proposalId = input.proposalId ∧ r.idempotencyKey = input.idempotencyKey ∧
        (k.proposals.byId.get input.proposalId).isSome ∧
        ReleaseStore.hasReleaseFor k.releases input.proposalId = false ∧
        ReleaseStore.hasIdempotencyKey k.releases input.idempotencyKey = false := by
  by_cases hmem : r ∈ k.releases
  · exact Or.inl ⟨r, hmem, rfl, rfl⟩
  have hsame {P : Prop} (hr : r ∈ k.releases) : P := absurd hr hmem
  cases c with
  | promote input =>
    simp only [call] at hr
    cases hp : k.promote w now input with
    | error e =>
      rw [hp] at hr
      exact hsame hr
    | ok result =>
      obtain ⟨p, k'⟩ := result
      rw [hp] at hr
      simp only [answer, (promote_moves h hp).2.1] at hr
      exact hsame hr
  | confirm input =>
    rcases k.confirm_cases input with ⟨stored, taken, -, -, -, -, heq⟩ | ⟨-, heq⟩
    all_goals
      simp only [call, heq, Prod.map, id_eq] at hr
      exact hsame hr
  | recordDelivery input =>
    simp only [call, recordDelivery] at hr
    split at hr
    · exact hsame hr
    · next proposal hget =>
      split at hr
      · exact hsame hr
      · next hfree =>
        simp only [answer, mem_append, mem_singleton] at hr
        rcases hr with hr | rfl
        · exact hsame hr
        · have hid : proposal.id = input.proposalId := (h.keyed _ _ hget).1
          rw [not_or, Bool.not_eq_true, Bool.not_eq_true, hid] at hfree
          exact Or.inr ⟨input, rfl, hid, rfl, by rw [hget]; rfl, hfree.1, hfree.2⟩
  | reconcile key outcome receiptTimestamp =>
    simp only [call, reconcile] at hr
    split at hr
    · exact hsame hr
    · next latest hlatest =>
      split at hr
      · simp only [answer, mem_append, mem_singleton] at hr
        rcases hr with hr | rfl
        · exact hsame hr
        · exact Or.inl ⟨latest, mem_reverse.mp (mem_of_find?_eq_some hlatest), rfl, rfl⟩
      · exact hsame hr
  | cancel id =>
    simp only [call, cancel] at hr
    split at hr
    · exact hsame hr
    · split at hr <;> exact hsame hr
  | present id variant =>
    simp only [call, present] at hr
    split at hr
    · exact hsame hr
    · split at hr <;> exact hsame hr
  | parkItem text sourceUtteranceId original | offerAskWorker question reason sourceUtteranceId topic => exact hsame hr

/-- The records stay authorised over a call exactly if the call is no record without authority. -/
theorem recordsAuthorised_step (ht : Tracked s) (h : RecordsAuthorised s) (e : ℕ × KernelCall) :
    RecordsAuthorised (stepCall w s e) ↔ Recorded s e := by
  obtain ⟨k, log⟩ := s
  obtain ⟨now, c⟩ := e
  constructor
  · intro hafter
    cases c with
    | recordDelivery input =>
      rintro ⟨hsome, hrelease, hkey⟩
      obtain ⟨proposal, hget⟩ := isSome_iff_exists.mp hsome
      have hid : proposal.id = input.proposalId := (ht.sound.keyed _ _ hget).1
      rw [← ht.reserved]
      -- The record is the last one, and the call authorises nothing.
      have hlog : authorised (stepCall w (k, log) (now, .recordDelivery input)).2 = authorised log := by
        simp [stepCall, Kernel.call, Kernel.recordDelivery, hget, hid, hrelease, hkey, Kernel.answer, KernelAnswer.authorised]
      rw [RecordsAuthorised, hlog] at hafter
      have hlast := hafter
        { proposalId := proposal.id, sha256 := proposal.sha256, idempotencyKey := input.idempotencyKey,
          targetLane := proposal.laneId, deliveryOutcome := input.outcome, receiptTimestamp := input.receiptTimestamp.getD now }
        (by simp [stepCall, Kernel.call, Kernel.recordDelivery, hget, hid, hrelease, hkey, Kernel.answer])
      rw [← hid]
      exact hlast
    | promote _ | confirm _ | reconcile _ _ _ | cancel _ | present _ _ | parkItem _ _ _ | offerAskWorker _ _ _ _ => trivial
  · intro hrec r hr
    have hgrows : ∀ pair, pair ∈ authorised log → pair ∈ authorised (stepCall w (k, log) (now, c)).2 := by
      intro pair hpair
      rw [stepCall, authorised_append]
      exact mem_append_left _ hpair
    rcases Kernel.call_records ht.sound c hr with ⟨r', hr', hid, hkey⟩ | ⟨input, rfl, hid, hkey, hrecorded⟩
    · rw [← hid, ← hkey]
      exact hgrows _ (h r' hr')
    · rw [hid, hkey]
      exact hgrows _ ((ht.reserved _ _).mpr (hrec hrecorded))

/-! ## One authority, one release -/

/-- What holds of every run. -/
structure Guarded (w : Wording) (calls : List (ℕ × KernelCall)) : Prop where
  /-- No proposal is authorised twice, and no key. -/
  proposalsOnce : ((authorised (runFrom w {} calls).2).map Prod.fst).Nodup
  keysOnce : ((authorised (runFrom w {} calls).2).map Prod.snd).Nodup
  /-- No lane ever has two live proposals. -/
  oneLive : ∀ before, before <+: calls → ∀ id id' p p',
    (runFrom w {} before).1.proposals.byId.get id = some p → (runFrom w {} before).1.proposals.byId.get id' = some p' →
    p.status.isLive → p'.status.isLive → p.laneId = p'.laneId → id = id'
  /-- A proposal that is released, cancelled or superseded is not authorised later. -/
  settled : ∀ before later, before ++ later = calls → ∀ id p, (runFrom w {} before).1.proposals.byId.get id = some p →
    p.status.isLive = false → id ∉ (authorised (runFrom w (runFrom w {} before).1 later).2).map Prod.fst
  /-- A confirmation that authorises nothing changes nothing. -/
  refusals : ∀ before, before <+: calls → ∀ input, ((runFrom w {} before).1.confirm input).1.isAuthorised = false →
    ((runFrom w {} before).1.confirm input).2 = (runFrom w {} before).1
  /-- No parked item and no offer is promoted twice. -/
  itemsOnce : ((runFrom w {} calls).2.filterMap promotedItem).Nodup
  offersOnce : ((runFrom w {} calls).2.filterMap promotedOffer).Nodup

/-- And after every call each record is of an authorised pair. -/
structure OneRelease (w : Wording) (calls : List (ℕ × KernelCall)) : Prop extends Guarded w calls where
  records : ∀ before, before <+: calls → RecordsAuthorised (runFrom w {} before)

theorem guarded (w : Wording) (calls : List (ℕ × KernelCall)) : Guarded w calls where
  proposalsOnce := (tracked_run w calls).proposalsOnce
  keysOnce := (tracked_run w calls).keysOnce
  oneLive before _ := (tracked_run w before).sound.oneLive
  settled before later _ _ _ hp hl := settled_never_authorised (tracked_run w before).sound hp hl later
  refusals before _ input hnot := by
    rcases Kernel.confirm_cases (runFrom w {} before).1 input with ⟨stored, taken, -, -, -, -, heq⟩ | ⟨-, heq⟩
    · rw [heq] at hnot
      cases hnot
    · exact heq
  itemsOnce := by
    have h := lotTracked_run w calls
    rw [h.promoted]
    refine List.Nodup.sublist ?_ h.distinct
    exact (sublist_append_right _ _).map _
  offersOnce := (offersTracked_run w calls).once

theorem records_iff (w : Wording) (calls : List (ℕ × KernelCall)) :
    (∀ before, before <+: calls → RecordsAuthorised (runFrom w {} before)) ↔ Run.Along (stepCall w) Recorded ({}, []) calls := by
  have hstart : RecordsAuthorised ({}, []) := nofun
  have hstep : ∀ s e, (Tracked s ∧ RecordsAuthorised s) → Recorded s e →
      Tracked (stepCall w s e) ∧ RecordsAuthorised (stepCall w s e) :=
    fun s e h hrec => ⟨h.1.step e, (recordsAuthorised_step h.1 h.2 e).mpr hrec⟩
  rw [← Run.along_iff_of_invariant hstep (fun s e h => recordsAuthorised_step h.1 h.2 e) ⟨tracked_start, hstart⟩]
  exact (Run.along_after_iff hstart).symm

/-- Every run is guarded; its records are of authorised releases exactly if each delivery that
    is recorded is of the proposal its key was reserved for. -/
theorem one_release (w : Wording) (calls : List (ℕ × KernelCall)) :
    Guarded w calls ∧ (OneRelease w calls ↔ Run.Along (stepCall w) Recorded ({}, []) calls) := by
  refine ⟨guarded w calls, ?_⟩
  constructor
  · intro h
    exact (records_iff w calls).mp h.records
  · intro h
    exact ⟨guarded w calls, (records_iff w calls).mpr h⟩

/-- A lane's proposal, recorded as delivered under a key no confirmation brought. -/
def unconfirmed : List (ℕ × KernelCall) :=
  [(1, .promote (.directAddress (js "lane") (js "fix the login bug") none 1 1)),
   (2, .recordDelivery { proposalId := proposalId 1, idempotencyKey := js "k", outcome := .refused (js "session gone") })]

/-- The record is there without an authorisation. -/
theorem a_record_without_authority : ¬ OneRelease plainWording unconfirmed := by
  intro h
  have hnot : ¬ RecordsAuthorised (runFrom plainWording {} unconfirmed) := by
    unfold RecordsAuthorised
    decide +kernel
  exact hnot (h.records unconfirmed prefix_rfl)

end PiWebUi.Talker.Authority
