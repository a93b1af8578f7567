/-
  PiWebUi.Talker.Authority — the host authority kernel (server/src/talker/policy-core.ts, with
  proposal-store.ts, parking-lot.ts, kernel-operations.ts and release-store.ts).

  A promotion makes the one live proposal of a lane, from the operator's words, an accepted
  offer or a parked item. A confirmation that echoes its identity and brings a fresh key
  authorises it once. What a delivery came to is recorded, and an unknown outcome is
  reconciled by a further record.
-/

import PiWebUi.Talker.Draft
import PiWebUi.Lib.JsMap
import Mathlib.Data.List.Basic

namespace PiWebUi.Talker

open PiWebUi.Lib PiWebUi.Lib.JsNumber

namespace Authority

/-! ## Proposals -/

inductive PromotionRoute
  | directAddress
  | acceptedOffer
  | parkedItemPromotion
  deriving DecidableEq

inductive ProposalStatus
  | draft
  | presented
  | released
  | cancelled
  | superseded
  deriving DecidableEq

/-- Drafted or presented. -/
def ProposalStatus.isLive : ProposalStatus → Bool
  | .draft | .presented => true
  | _ => false

structure Proposal where
  id : JsString
  laneId : JsString
  version : ℕ
  sha256 : JsString
  original : JsString
  tidied : JsString
  presentedVariant : Option ReleaseVariant := none
  status : ProposalStatus := .draft
  promotionRoute : PromotionRoute
  sourceUtteranceId : ℕ
  createdTurn : ℤ
  createdAt : ℕ
  deriving DecidableEq

structure ProposalStore where
  byId : JsMap JsString Proposal := JsMap.empty
  nextId : ℕ := 1
  nextVersion : ℕ := 1

inductive ProposalTakeResult
  | taken (proposal : Proposal)
  | notFound
  | notLive (proposal : Proposal)
  | stale (proposal : Proposal)
  | originalNotOffered (proposal : Proposal)
  deriving DecidableEq

def ProposalTakeResult.isTaken : ProposalTakeResult → Bool
  | .taken _ => true
  | _ => false

def proposalId (n : ℕ) : JsString := js "prop-" ++ natText n

namespace ProposalStore

/-- The first live proposal of the lane. -/
def live (s : ProposalStore) (laneId : JsString) : Option Proposal :=
  s.byId.values.find? fun p => p.laneId = laneId && p.status.isLive

/-- `storedLive.status = 'superseded'` -/
def supersede (s : ProposalStore) (live : Proposal) : ProposalStore :=
  match s.byId.get live.id with
  | some storedLive => { s with byId := s.byId.set live.id { storedLive with status := .superseded } }
  | none => s

/-- The new proposal; the one live before it in its lane is superseded. -/
def create (w : Wording) (s : ProposalStore) (laneId : JsString) (route : PromotionRoute) (sourceUtteranceId : ℕ)
    (tidied : JsString) (original : Option JsString) (createdTurn : ℤ) (now : ℕ) : Proposal × ProposalStore :=
  let s := match s.live laneId with
    | some live => s.supersede live
    | none => s
  let original := original.getD tidied
  let proposal : Proposal := {
    id := proposalId s.nextId
    laneId
    version := s.nextVersion
    sha256 := proposalHash w tidied (if original ≠ tidied then some original else none)
    original
    tidied
    promotionRoute := route
    sourceUtteranceId
    createdTurn
    createdAt := now }
  (proposal, { byId := s.byId.set proposal.id proposal, nextId := s.nextId + 1, nextVersion := s.nextVersion + 1 })

/-- Live, then the identity, then the variant is checked; only then the proposal is consumed. -/
def takeForConfirmation (s : ProposalStore) (id : JsString) (variant : Option ReleaseVariant) (identity : ProposalIdentity) :
    ProposalTakeResult × ProposalStore :=
  match s.byId.get id with
  | none => (.notFound, s)
  | some stored =>
    if !stored.status.isLive then (.notLive stored, s)
    else if stored.version ≠ identity.version ∨ stored.sha256 ≠ identity.hash then (.stale stored, s)
    else
      let variant := variant.getD .tidied
      if variant = .original ∧ stored.original = stored.tidied then (.originalNotOffered stored, s)
      else
        let taken := { stored with status := .released, presentedVariant := some variant }
        (.taken taken, { s with byId := s.byId.set id taken })

end ProposalStore

/-! ## Parked items and offers -/

structure ParkedItem where
  id : JsString
  text : JsString
  createdAt : ℕ
  sourceUtteranceId : ℕ
  original : Option JsString
  deriving DecidableEq

structure ParkingLot where
  items : List ParkedItem := []
  promoted : List ParkedItem := []
  nextId : ℕ := 1

def parkId (n : ℕ) : JsString := js "park-" ++ natText n

def ParkingLot.add (l : ParkingLot) (text : JsString) (sourceUtteranceId : ℕ) (original : Option JsString) (now : ℕ) :
    ParkedItem × ParkingLot :=
  let item : ParkedItem := ⟨parkId l.nextId, text, now, sourceUtteranceId, original⟩
  (item, { l with items := l.items ++ [item], nextId := l.nextId + 1 })

/-- The item leaves the lot. -/
def ParkingLot.promote (l : ParkingLot) (itemId : JsString) : Option (ParkedItem × ParkingLot) :=
  match l.items.findIdx? (·.id = itemId) with
  | none => none
  | some index =>
    l.items[index]?.map fun item => (item, { l with items := l.items.eraseIdx index, promoted := l.promoted ++ [item] })

inductive OfferStatus
  | offered
  | accepted
  | declined
  deriving DecidableEq

structure KernelOffer where
  id : JsString
  question : JsString
  reason : JsString
  sourceUtteranceId : ℕ
  topic : Option JsString
  status : OfferStatus := .offered
  createdAt : ℕ
  deriving DecidableEq

structure AskWorkerOffers where
  offers : List KernelOffer := []
  nextId : ℕ := 1

def offerId (n : ℕ) : JsString := js "offer-" ++ natText n

inductive OfferAskWorkerResult
  | offered (offer : KernelOffer)
  | duplicateOfferRefused (existing : KernelOffer)
  deriving DecidableEq

/-- One offer a topic. -/
def AskWorkerOffers.offer (o : AskWorkerOffers) (question reason : JsString) (sourceUtteranceId : ℕ) (topic : Option JsString)
    (now : ℕ) : OfferAskWorkerResult × AskWorkerOffers :=
  match topic.bind fun t => o.offers.find? (·.topic = some t) with
  | some existing => (.duplicateOfferRefused existing, o)
  | none =>
    let offer : KernelOffer := { id := offerId o.nextId, question, reason, sourceUtteranceId, topic, createdAt := now }
    (.offered offer, { offers := o.offers ++ [offer], nextId := o.nextId + 1 })

inductive KernelError
  | proposalNotFound (id : JsString)
  | parkedItemNotFound (id : JsString)
  | offerNotFound (id : JsString)
  | offerState (id detail : JsString)
  | duplicateRelease (proposalId idempotencyKey : JsString)
  | releaseNotFound (idempotencyKey : JsString)
  | reconciliationState (idempotencyKey detail : JsString)
  deriving DecidableEq

def KernelError.message : KernelError → JsString
  | .proposalNotFound id => js "Proposal not found: " ++ id
  | .parkedItemNotFound id => js "Parked item not found: " ++ id
  | .offerNotFound id => js "Offer not found: " ++ id
  | .offerState id detail => js "Offer '" ++ id ++ js "' cannot be accepted: " ++ detail
  | .duplicateRelease proposalId idempotencyKey =>
    js "Duplicate release refused: proposal '" ++ proposalId ++ js "' or key '" ++ idempotencyKey ++ js "' was already released."
  | .releaseNotFound idempotencyKey => js "No release recorded for idempotency key '" ++ idempotencyKey ++ js "'."
  | .reconciliationState idempotencyKey detail => js "Reconciliation refused for '" ++ idempotencyKey ++ js "': " ++ detail

def AskWorkerOffers.accept (o : AskWorkerOffers) (id : JsString) : Except KernelError (KernelOffer × AskWorkerOffers) :=
  match o.offers.find? (·.id = id) with
  | none => .error (.offerNotFound id)
  | some found =>
    match found.status with
    | .declined => .error (.offerState id (js "the operator declined this offer"))
    | .accepted => .error (.offerState id (js "this offer was already accepted and promoted"))
    | .offered =>
      let accepted := { found with status := .accepted }
      .ok (accepted, { o with offers := o.offers.replaceF fun offer => if offer.id = id then some accepted else none })

/-! ## Releases -/

inductive ReleaseOutcome
  | delivered (mechanism disclosure : Option JsString)
  | queued (disclosure : JsString)
  | refused (reason : JsString)
  | unknown (reason : JsString)
  deriving DecidableEq

def ReleaseOutcome.status : ReleaseOutcome → JsString
  | .delivered _ _ => js "delivered"
  | .queued _ => js "queued"
  | .refused _ => js "refused"
  | .unknown _ => js "unknown"

/-- `Exclude<ReleaseOutcome, { status: 'unknown' }>` -/
abbrev SettledOutcome := { outcome : ReleaseOutcome // outcome.status ≠ js "unknown" }

structure ReleaseRecord where
  proposalId : JsString
  sha256 : JsString
  idempotencyKey : JsString
  targetLane : JsString
  deliveryOutcome : ReleaseOutcome
  receiptTimestamp : ℕ
  reconciledFrom : Option ℕ := none
  deriving DecidableEq

abbrev ReleaseStore := List ReleaseRecord

namespace ReleaseStore

def hasReleaseFor (records : ReleaseStore) (proposalId : JsString) : Bool := records.any (·.proposalId = proposalId)

def hasIdempotencyKey (records : ReleaseStore) (key : JsString) : Bool := records.any (·.idempotencyKey = key)

def latest (records : ReleaseStore) (key : JsString) : Option ReleaseRecord := records.reverse.find? (·.idempotencyKey = key)

def findByProposal (records : ReleaseStore) (proposalId : JsString) : Option ReleaseRecord :=
  records.reverse.find? (·.proposalId = proposalId)

end ReleaseStore

/-! ## The kernel -/

structure Kernel where
  parkingLot : ParkingLot := {}
  proposals : ProposalStore := {}
  releases : ReleaseStore := []
  offers : AskWorkerOffers := {}
  reservedIdempotencyKeys : JsMap JsString JsString := JsMap.empty

inductive KernelPromotionInput
  | directAddress (laneId tidied : JsString) (original : Option JsString) (sourceUtteranceId : ℕ) (createdTurn : ℤ)
  | acceptedOffer (laneId offerId : JsString) (sourceUtteranceId : ℕ) (createdTurn : ℤ)
  | parkedItemPromotion (laneId parkedItemId : JsString) (sourceUtteranceId : ℕ) (createdTurn : ℤ)
  deriving DecidableEq

structure KernelConfirmationInput where
  proposalId : JsString
  identity : ProposalIdentity
  idempotencyKey : JsString
  variant : Option ReleaseVariant := none
  deriving DecidableEq

inductive RefusalReason
  | notFound
  | notLive
  | stale
  | originalNotOffered
  deriving DecidableEq

inductive KernelConfirmationResult
  | authorised (proposal : Proposal) (idempotencyKey targetLane : JsString)
  | duplicateRefusal (proposalId idempotencyKey : JsString) (prior : Option ReleaseRecord)
  | refused (reason : RefusalReason) (proposal : Option Proposal)
  deriving DecidableEq

def KernelConfirmationResult.isAuthorised : KernelConfirmationResult → Bool
  | .authorised _ _ _ => true
  | _ => false

structure KernelDeliveryInput where
  proposalId : JsString
  idempotencyKey : JsString
  outcome : ReleaseOutcome
  receiptTimestamp : Option ℕ := none
  deriving DecidableEq

inductive KernelCall
  | promote (input : KernelPromotionInput)
  | confirm (input : KernelConfirmationInput)
  | recordDelivery (input : KernelDeliveryInput)
  | reconcile (idempotencyKey : JsString) (outcome : SettledOutcome) (receiptTimestamp : Option ℕ)
  | cancel (proposalId : JsString)
  | present (proposalId : JsString) (variant : ReleaseVariant)
  | parkItem (text : JsString) (sourceUtteranceId : ℕ) (original : Option JsString)
  | offerAskWorker (question reason : JsString) (sourceUtteranceId : ℕ) (topic : Option JsString)
  deriving DecidableEq

inductive KernelAnswer
  | proposal (p : Option Proposal)
  | confirmation (r : KernelConfirmationResult)
  | record (r : ReleaseRecord)
  | parked (item : ParkedItem)
  | offer (r : OfferAskWorkerResult)
  | threw (e : KernelError)
  deriving DecidableEq

namespace Kernel

section

variable (w : Wording) (now : ℕ)

def promote (k : Kernel) : KernelPromotionInput → Except KernelError (Proposal × Kernel)
  | .directAddress laneId tidied original sourceUtteranceId createdTurn =>
    let r := k.proposals.create w laneId .directAddress sourceUtteranceId tidied original createdTurn now
    .ok (r.1, { k with proposals := r.2 })
  | .acceptedOffer laneId offerId sourceUtteranceId createdTurn =>
    match k.offers.accept offerId with
    | .error e => .error e
    | .ok (offer, offers) =>
      let r := k.proposals.create w laneId .acceptedOffer sourceUtteranceId offer.question none createdTurn now
      .ok (r.1, { k with offers, proposals := r.2 })
  | .parkedItemPromotion laneId parkedItemId sourceUtteranceId createdTurn =>
    match k.parkingLot.promote parkedItemId with
    | none => .error (.parkedItemNotFound parkedItemId)
    | some (item, parkingLot) =>
      let r := k.proposals.create w laneId .parkedItemPromotion sourceUtteranceId item.text item.original createdTurn now
      .ok (r.1, { k with parkingLot, proposals := r.2 })

/-- Why a proposal was not taken. -/
def refusalOf : ProposalTakeResult → RefusalReason × Option Proposal
  | .notLive p => (.notLive, some p)
  | .stale p => (.stale, some p)
  | .originalNotOffered p => (.originalNotOffered, some p)
  | .notFound | .taken _ => (.notFound, none)

/-- The key is reserved before the proposal is taken, and given back if it is not. -/
def confirm (k : Kernel) (input : KernelConfirmationInput) : KernelConfirmationResult × Kernel :=
  let proposal := k.proposals.byId.get input.proposalId
  let prior := ReleaseStore.findByProposal k.releases input.proposalId
  let duplicate (prior : Option ReleaseRecord) : KernelConfirmationResult :=
    .duplicateRefusal input.proposalId input.idempotencyKey prior
  if prior.isSome ∨ proposal.map (·.status) = some .released then (duplicate prior, k)
  else if proposal = none then (.refused .notFound none, k)
  else if ReleaseStore.hasIdempotencyKey k.releases input.idempotencyKey ∨
      k.reservedIdempotencyKeys.has input.idempotencyKey then
    (duplicate (ReleaseStore.latest k.releases input.idempotencyKey), k)
  else
    let reserved := k.reservedIdempotencyKeys.set input.idempotencyKey input.proposalId
    match k.proposals.takeForConfirmation input.proposalId input.variant input.identity with
    | (.taken p, proposals) =>
      (.authorised p input.idempotencyKey p.laneId, { k with reservedIdempotencyKeys := reserved, proposals })
    | (refusal, proposals) =>
      (.refused (refusalOf refusal).1 (refusalOf refusal).2,
        { k with reservedIdempotencyKeys := reserved.delete input.idempotencyKey, proposals })

def recordDelivery (k : Kernel) (input : KernelDeliveryInput) : Except KernelError (ReleaseRecord × Kernel) :=
  match k.proposals.byId.get input.proposalId with
  | none => .error (.proposalNotFound input.proposalId)
  | some proposal =>
    if ReleaseStore.hasReleaseFor k.releases proposal.id ∨ ReleaseStore.hasIdempotencyKey k.releases input.idempotencyKey then
      .error (.duplicateRelease proposal.id input.idempotencyKey)
    else
      let record : ReleaseRecord := {
        proposalId := proposal.id
        sha256 := proposal.sha256
        idempotencyKey := input.idempotencyKey
        targetLane := proposal.laneId
        deliveryOutcome := input.outcome
        receiptTimestamp := input.receiptTimestamp.getD now }
      .ok (record, { k with releases := k.releases ++ [record] })

def reconcile (k : Kernel) (idempotencyKey : JsString) (outcome : SettledOutcome) (receiptTimestamp : Option ℕ) :
    Except KernelError (ReleaseRecord × Kernel) :=
  match ReleaseStore.latest k.releases idempotencyKey with
  | none => .error (.releaseNotFound idempotencyKey)
  | some latest =>
    match latest.deliveryOutcome with
    | .unknown _ =>
      let record := { latest with
        deliveryOutcome := outcome.val
        receiptTimestamp := receiptTimestamp.getD now
        reconciledFrom := some latest.receiptTimestamp }
      .ok (record, { k with releases := k.releases ++ [record] })
    | settled =>
      .error (.reconciliationState idempotencyKey (js "latest outcome is '" ++ settled.status ++ js "', not 'unknown'"))

def cancel (k : Kernel) (id : JsString) : Except KernelError (Proposal × Kernel) :=
  match k.proposals.byId.get id with
  | none => .error (.proposalNotFound id)
  | some stored =>
    if stored.status.isLive then
      .ok ({ stored with status := .cancelled },
        { k with proposals := { k.proposals with byId := k.proposals.byId.set id { stored with status := .cancelled } } })
    else .ok (stored, k)

def present (k : Kernel) (id : JsString) (variant : ReleaseVariant) : Except KernelError (Option Proposal × Kernel) :=
  match k.proposals.byId.get id with
  | none => .error (.proposalNotFound id)
  | some stored =>
    if stored.status.isLive then
      let shown := { stored with status := .presented, presentedVariant := some variant }
      .ok (some shown, { k with proposals := { k.proposals with byId := k.proposals.byId.set id shown } })
    else .ok (none, k)

/-- An answer, or what was thrown and the kernel as it was. -/
def answer {α : Type} (k : Kernel) (f : α → KernelAnswer) : Except KernelError (α × Kernel) → KernelAnswer × Kernel
  | .error e => (.threw e, k)
  | .ok (a, k') => (f a, k')

def call (k : Kernel) : KernelCall → KernelAnswer × Kernel
  | .promote input => k.answer (fun p => .proposal (some p)) (k.promote w now input)
  | .confirm input => ((k.confirm input).map .confirmation id)
  | .recordDelivery input => k.answer .record (k.recordDelivery now input)
  | .reconcile key outcome receiptTimestamp => k.answer .record (k.reconcile now key outcome receiptTimestamp)
  | .cancel id => k.answer (fun p => .proposal (some p)) (k.cancel id)
  | .present id variant => k.answer .proposal (k.present id variant)
  | .parkItem text sourceUtteranceId original =>
    let r := k.parkingLot.add text sourceUtteranceId original now
    (.parked r.1, { k with parkingLot := r.2 })
  | .offerAskWorker question reason sourceUtteranceId topic =>
    let r := k.offers.offer question reason sourceUtteranceId topic now
    (.offer r.1, { k with offers := r.2 })

end

end Kernel

end Authority

end PiWebUi.Talker
