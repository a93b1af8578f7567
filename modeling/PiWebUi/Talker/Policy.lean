/-
  PiWebUi.Talker.Policy — what an operator's turn does (server/src/talker/policy-core.ts).

  `decideOperatorTurn` reads a view of the draft and the turn's input and names one
  decision: a release, a refusal, a cancellation, or a turn the model answers.
  `decideAfterModelReply` says what the model's reply adds to the draft. Neither writes
  anything.
-/

import PiWebUi.Talker.Draft

namespace PiWebUi.Talker

open PiWebUi.Lib PiWebUi.Lib.JsNumber PendingProposalStore

inductive UtteranceClass
  | confirm
  | cancel
  | question
  | statement
  deriving DecidableEq

/-- The classifier of utterances and the markers of replies. -/
structure Classifier where
  classifyOperatorUtterance : JsString → UtteranceClass
  resolveDraftSelection : JsString → Option OrdinalPosition
  extractPostCancelInstruction : JsString → Option JsString
  extractAmendmentInstruction : JsString → Option JsString
  isMetaSendQuestion : JsString → Bool
  isWorkerDirectedQuestion : JsString → Bool
  isAddressedToTalkerMark : JsString → Bool
  isAskWorkerOffer : JsString → Bool
  stripTalkerAddressedMarker : JsString → JsString
  stripAskWorkerMarker : JsString → JsString

/-! ## State and input -/

structure PolicyDraftView where
  utterances : List DraftUtteranceEntry
  identity : Option ProposalIdentity
  lapsed : Bool

structure PolicyStateView where
  turn : ℤ
  draft : Option PolicyDraftView

structure PolicyTurnInput where
  utterance : JsString
  releaseVariant : Option ReleaseVariant := none
  proposalRef : Option ProposalIdentity := none

/-! ## Decisions -/

inductive ConversationalPath
  | draft
  | residue
  | workerDirected
  | offer
  | plain
  deriving DecidableEq

structure CancelResidue where
  text : JsString
  draftable : Bool
  deriving DecidableEq

structure ConversationalPlan where
  path : ConversationalPath
  cancelled : Bool := false
  cancelResidue : Option CancelResidue := none
  draftCandidate : Option JsString := none
  offerCandidate : Option JsString := none
  opensBatchWhenKept : Bool := false
  deriving DecidableEq

inductive DecisionKind
  | release (selection : Option OrdinalPosition) (variant : ReleaseVariant)
  | refuseLapsed (reply : JsString)
  | refuseStaleCard (reply : JsString)
  | refuseOriginalNotOffered (reply : JsString)
  | clarifySelection (reply : JsString)
  | nothingPending (reply : JsString)
  | nothingToCancel (reply : JsString)
  | cancel (plan : ConversationalPlan)
  | conversational (plan : ConversationalPlan)
  deriving DecidableEq

structure PolicyDecision where
  turn : ℤ
  utterance : JsString
  utteranceClass : UtteranceClass
  kind : DecisionKind
  deriving DecidableEq

/-! ## Replies of the harness -/

def nothingPendingAck : JsString :=
  js "Nothing is held right now, so there is nothing to send. Say the instruction and I'll hold it for your go-ahead."

def nothingToCancelAck : JsString := js "Nothing is held right now — there was nothing to cancel."

def quoted (u : DraftUtteranceEntry) : JsString := js "\"" ++ u.text ++ js "\""

def quoteDraft (utterances : List DraftUtteranceEntry) : JsString :=
  List.intercalate (js " ... ") (utterances.map quoted)

def reconfirmAskReply (utterances : List DraftUtteranceEntry) : JsString :=
  js "You were composing something — still want that sent? Here is what I am holding: " ++ quoteDraft utterances ++
    js ". Say yes and I will send it."

def selectionClarifyReply (utterances : List DraftUtteranceEntry) : JsString :=
  let parts := utterances.zipIdx.map fun u => natText (u.2 + 1) ++ js ". " ++ quoted u.1
  js "I am holding " ++ natText utterances.length ++ js " things — " ++ List.intercalate (js " ") parts ++ js ". Which one?"

def staleProposalReply (utterances : List DraftUtteranceEntry) : JsString :=
  js "That card is out of date — the wording has changed since it was shown, so I sent nothing. " ++
    js "Here is what I am holding now: " ++ quoteDraft utterances ++ js ". Confirm this current version and I will send it."

def originalNotOfferedReply (utterances : List DraftUtteranceEntry) : JsString :=
  js "Your exact raw words are not on offer here — nothing visible was taken out of what I am holding: " ++
    quoteDraft utterances ++ js ". Say yes and I will send it as shown."

/-! ## The decision before the model -/

def selectionResolves (selection : OrdinalPosition) (count : ℕ) : Bool := (resolveOrdinalIndex selection count).isSome

/-- Whether an echoed identity is the current one. -/
def identityMatches (draft : PolicyDraftView) (echo : ProposalIdentity) : Bool := draft.identity = some echo

section

variable (w : Wording) (cl : Classifier)

/-- A confirmation: lapsed, then the identity, the variant and the selection are checked. -/
def decideConfirm (state : PolicyStateView) (input : PolicyTurnInput) : DecisionKind :=
  let selection := cl.resolveDraftSelection input.utterance
  match state.draft with
  | none => .nothingPending nothingPendingAck
  | some draft =>
    if draft.lapsed then .refuseLapsed (reconfirmAskReply draft.utterances)
    else if input.proposalRef.any (!identityMatches draft ·) then .refuseStaleCard (staleProposalReply draft.utterances)
    else
      let variant := input.releaseVariant.getD .tidied
      if variant = .original ∧ ((describeProposal w draft.utterances).original.getD []) = [] then
        .refuseOriginalNotOffered (originalNotOfferedReply draft.utterances)
      else if selection.any (!selectionResolves · draft.utterances.length) then
        .clarifySelection (selectionClarifyReply draft.utterances)
      else .release selection variant

/-- Whether what a cancelling breath goes on to say may join a draft. -/
def residueDraftable (residue : JsString) : Bool :=
  match cl.classifyOperatorUtterance residue with
  | .statement => true
  | .question => !cl.isMetaSendQuestion residue && cl.isWorkerDirectedQuestion residue
  | _ => false

def decideCancel (state : PolicyStateView) (utterance : JsString) : DecisionKind :=
  let cancelled := state.draft.isSome
  match (cl.extractPostCancelInstruction utterance).filter (· ≠ []) with
  | some residue =>
    if residueDraftable cl residue then
      .cancel {
        path := .residue
        cancelled
        cancelResidue := some ⟨residue, true⟩
        draftCandidate := some residue
        opensBatchWhenKept := true }
    else .cancel { path := .plain, cancelled, cancelResidue := some ⟨residue, false⟩ }
  | none => if cancelled then .cancel { path := .plain, cancelled } else .nothingToCancel nothingToCancelAck

def decideQuestion (state : PolicyStateView) (utterance : JsString) : DecisionKind :=
  let metaSend := cl.isMetaSendQuestion utterance
  let workerDirected := cl.isWorkerDirectedQuestion utterance
  if !metaSend && workerDirected then
    .conversational { path := .workerDirected, opensBatchWhenKept := state.draft.isNone }
  else
    let offerCandidate := if !metaSend && !workerDirected then some utterance else none
    .conversational { path := .offer, offerCandidate, opensBatchWhenKept := offerCandidate.isSome && state.draft.isNone }

def decideStatement (state : PolicyStateView) (utterance : JsString) : DecisionKind :=
  match cl.extractAmendmentInstruction utterance with
  | some amendment =>
    .cancel {
      path := .residue
      cancelled := state.draft.isSome
      cancelResidue := some ⟨amendment, true⟩
      draftCandidate := some amendment
      opensBatchWhenKept := true }
  | none => .conversational { path := .draft, draftCandidate := some utterance, opensBatchWhenKept := state.draft.isNone }

/-- A statement that selects a part is a confirmation of it. -/
def utteranceClassOf (utterance : JsString) : UtteranceClass :=
  let classified := cl.classifyOperatorUtterance utterance
  if (cl.resolveDraftSelection utterance).isSome ∧ classified = .statement then .confirm else classified

def decideOperatorTurn (state : PolicyStateView) (input : PolicyTurnInput) : PolicyDecision where
  turn := state.turn
  utterance := input.utterance
  utteranceClass := utteranceClassOf cl input.utterance
  kind :=
    match utteranceClassOf cl input.utterance with
    | .confirm => decideConfirm w cl state input
    | .cancel => decideCancel cl state input.utterance
    | .question => decideQuestion cl state input.utterance
    | .statement => decideStatement cl state input.utterance

/-! ## The decision after the model -/

structure PostModelPlan where
  reply : JsString
  askWorkerOffer : Bool
  addressedToTalker : Bool
  append : Option JsString
  opensBatch : Bool

def decideAfterModelReply (plan : ConversationalPlan) (rawReply : JsString) : PostModelPlan :=
  let drafts := plan.path = .draft ∨ plan.path = .residue
  let addressedToTalker := drafts ∧ plan.draftCandidate.isSome ∧ cl.isAddressedToTalkerMark rawReply
  let askWorkerOffer := plan.path = .offer ∧ plan.offerCandidate.isSome ∧ cl.isAskWorkerOffer rawReply
  { reply := cl.stripTalkerAddressedMarker (cl.stripAskWorkerMarker rawReply)
    askWorkerOffer
    addressedToTalker
    append :=
      if drafts ∧ ¬addressedToTalker ∧ plan.draftCandidate.isSome then plan.draftCandidate
      else if askWorkerOffer then plan.offerCandidate
      else none
    opensBatch :=
      match plan.path with
      | .workerDirected => plan.opensBatchWhenKept
      | .offer => askWorkerOffer && plan.opensBatchWhenKept
      | .draft | .residue => !addressedToTalker && plan.opensBatchWhenKept
      | .plain => false }

/-- The view of the store at a turn. -/
def policyStateView (s : PendingProposalStore) (turn : ℤ) : PolicyStateView where
  turn
  draft := (s.snapshotDraft).map fun utterances =>
    { utterances
      identity := (s.describeCurrentProposal w).map fun d => ⟨d.2, d.1.hash⟩
      lapsed := s.isLapsed turn }

end

end PiWebUi.Talker
