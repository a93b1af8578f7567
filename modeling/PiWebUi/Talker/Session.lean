/-
  PiWebUi.Talker.Session — one talker session (server/src/talker/talker.ts) and the registry
  that keeps the sessions (server/src/talker/session-registry.ts).

  A turn runs in one go to its first wait: a release takes its parts and waits for the
  delivery, a spoken turn makes its changes and waits for the worker's snapshot, then for
  the model, whose reply may add words to the draft. Turns are not serialised: while one
  waits, others run. The registry keeps so many sessions and deletes the least recently
  used; the turns of a deleted one still end on it.
-/

import PiWebUi.Talker.Policy
import PiWebUi.Lib.JsMap

namespace PiWebUi.Talker

open PiWebUi.Lib

/-! ## The verbatim log -/

structure VerbatimUtterance where
  id : ℕ
  text : JsString
  turn : ℤ
  acknowledged : Bool := false
  deriving DecidableEq

structure UtteranceLog where
  records : List VerbatimUtterance := []
  nextId : ℕ := 1
  limit : ℕ := 50

namespace UtteranceLog

/-- The id of the new record, and the log with it. -/
def record (l : UtteranceLog) (text : JsString) (turn : ℤ) : ℕ × UtteranceLog :=
  let records := l.records ++ [{ id := l.nextId, text, turn }]
  (l.nextId, { l with records := records.drop (records.length - l.limit), nextId := l.nextId + 1 })

/-- How many records a receipt covers now. -/
def takeReceipt (l : UtteranceLog) : Option ℕ × UtteranceLog :=
  let outstanding := l.records.filter (!·.acknowledged)
  if outstanding = [] then (none, l)
  else (some outstanding.length, { l with records := l.records.map ({ · with acknowledged := true }) })

end UtteranceLog

/-! ## Deliveries and results -/

inductive DeliveryOutcome
  | delivered (mechanism : JsString)
  | queued (mechanism : JsString)
  | refused (reason : JsString)
  | unknown (reason : JsString)
  deriving DecidableEq

def releaseAck : JsString := js "sending that now"

def queuedAck : JsString := js "Got it — that'll reach the worker after this turn."

def refusedAck : JsString := js "I couldn't deliver that — it has not reached the worker."

def modelFailureReply : JsString := js "I couldn't reach my model just then — can you say that again?"

def receiptAck : JsString := js "Noted — still holding that."

def ackForOutcome : DeliveryOutcome → JsString
  | .delivered _ => releaseAck
  | .queued _ => queuedAck
  | .refused _ | .unknown _ => refusedAck

def describeOutcome : DeliveryOutcome → JsString
  | .delivered mechanism => js "delivered (" ++ mechanism ++ js ")"
  | .queued mechanism => js "queued (" ++ mechanism ++ js ")"
  | .refused reason | .unknown reason => js "not delivered (" ++ reason ++ js ")"

def receiptAckFor (unacknowledgedCount : ℕ) : Option JsString := if 0 < unacknowledgedCount then some receiptAck else none

structure ReleasedInfo where
  utteranceId : ℕ
  text : JsString
  delivery : DeliveryOutcome
  deriving DecidableEq

structure TalkerTurnResult where
  reply : JsString
  utteranceClass : UtteranceClass
  released : Option ReleasedInfo := none
  cancelled : Bool := false
  modelCalled : Bool := false
  receiptAck : Option JsString := none
  askWorkerOffer : Bool := false
  addressedToTalker : Bool := false
  error : Option JsString := none
  deriving DecidableEq

/-! ## Turns -/

/-- What happened to the parts of the draft, by their ids. -/
inductive LedgerEntry
  | appended (id : ℕ) (turn : ℤ)
  | superseded (ids : List ℕ)
  | taken (turn : ℤ) (ids : List ℕ)
  | reported (turn : ℤ)
  | cancelled (turn : ℤ) (ids : List ℕ)
  deriving DecidableEq

/-- A spoken turn under way: what was decided, and the record its words are kept under. -/
structure SpokenTurn where
  utterance : JsString
  utteranceClass : UtteranceClass
  plan : ConversationalPlan
  draftRecordId : ℕ

/-- What a turn waits for. -/
inductive Suspended
  | snapshot (t : SpokenTurn)
  | model (t : SpokenTurn)
  | delivery (confirmingUtterance : JsString) (taken : TakenRelease)

inductive Progress
  | done (result : TalkerTurnResult)
  | waits (wait : Suspended)
  | throws

structure TalkerSession where
  proposals : PendingProposalStore := {}
  utteranceLog : UtteranceLog := {}
  turnCount : ℤ := 0
  ledger : List LedgerEntry := []

/-- The ids of the parts in the draft. -/
def PendingProposalStore.heldIds (s : PendingProposalStore) : List ℕ :=
  ((s.draft.map (·.utterances)).getD []).map (·.id)

section

variable (w : Wording) (cl : Classifier)

namespace TalkerSession

def appendToDraft (s : TalkerSession) (utteranceId : ℕ) (text : JsString) (turn : ℤ) : TalkerSession :=
  let replaced := match s.proposals.heldBeside w text with
    | none => s.proposals.heldIds
    | some _ => []
  { s with
    proposals := s.proposals.appendToDraft w utteranceId text turn
    ledger := s.ledger ++ [.superseded replaced, .appended utteranceId turn] }

def cancel (s : TalkerSession) (turn : ℤ) : TalkerSession :=
  { s with proposals := s.proposals.cancel, ledger := s.ledger ++ [.cancelled turn s.proposals.heldIds] }

/-- The release path. Nothing to take leaves a plain spoken turn. -/
def release (s : TalkerSession) (confirmingUtterance : JsString) (turn : ℤ) (selection : Option OrdinalPosition)
    (variant : ReleaseVariant) : TalkerSession × Progress :=
  match s.proposals.takeForRelease turn selection variant with
  | (none, proposals) => ({ s with proposals }, .waits (.snapshot ⟨confirmingUtterance, .confirm, { path := .plain }, 0⟩))
  | (some taken, proposals) =>
    ({ s with proposals, ledger := s.ledger ++ [.taken turn taken.utteranceIds] }, .waits (.delivery confirmingUtterance taken))

/-- A cancelling turn: the draft is cleared, and a residue that may be drafted gets a record. -/
def cancelTurn (s : TalkerSession) (decision : PolicyDecision) (plan : ConversationalPlan) (recordId : ℕ) :
    TalkerSession × Progress :=
  let s := s.cancel decision.turn
  let spoken (draftRecordId : ℕ) : Suspended :=
    .snapshot ⟨decision.utterance, decision.utteranceClass, plan, draftRecordId⟩
  match plan.cancelResidue with
  | some ⟨text, true⟩ =>
    let r := s.utteranceLog.record text decision.turn
    ({ s with utteranceLog := r.2 }, .waits (spoken r.1))
  | _ => (s, .waits (spoken recordId))

/-- What a decision does before the turn waits or ends. -/
def execute (s : TalkerSession) (decision : PolicyDecision) (recordId : ℕ) : TalkerSession × Progress :=
  let mechanical (reply : JsString) : Progress := .done { reply, utteranceClass := decision.utteranceClass }
  match decision.kind with
  | .release selection variant => s.release decision.utterance decision.turn selection variant
  | .cancel plan => s.cancelTurn decision plan recordId
  | .conversational plan =>
    let s := if plan.path = .workerDirected then s.appendToDraft w recordId decision.utterance decision.turn else s
    (s, .waits (.snapshot ⟨decision.utterance, decision.utteranceClass, plan, recordId⟩))
  | .refuseLapsed reply => ({ s with proposals := s.proposals.markResurfaced decision.turn }, mechanical reply)
  | .nothingToCancel reply => ({ s with ledger := s.ledger ++ [.cancelled decision.turn []] }, mechanical reply)
  | .refuseStaleCard reply | .refuseOriginalNotOffered reply | .clarifySelection reply | .nothingPending reply =>
    (s, mechanical reply)

/-- The decision of a turn: the confirmation is aged first. -/
def decision (s : TalkerSession) (input : PolicyTurnInput) (turn : ℤ) : PolicyDecision :=
  decideOperatorTurn w cl (policyStateView w (s.proposals.tickTurn turn) turn) input

def handleOperatorTurnBody (s : TalkerSession) (input : PolicyTurnInput) (turn : ℤ) : TalkerSession × Progress :=
  let r := s.utteranceLog.record input.utterance turn
  execute w { s with proposals := s.proposals.tickTurn turn, utteranceLog := r.2 } (s.decision w cl input turn) r.1

def handleOperatorTurn (s : TalkerSession) (input : PolicyTurnInput) : TalkerSession × Progress :=
  if trim input.utterance = [] then (s, .throws)
  else handleOperatorTurnBody w cl { s with turnCount := s.turnCount + 1 } input (s.turnCount + 1)

/-! ### After a wait -/

/-- A provider that fails ends the turn. -/
def resumeSnapshot (s : TalkerSession) (t : SpokenTurn) (answered : Bool) : TalkerSession × Progress :=
  (s, if answered then .waits (.model t) else .throws)

/-- The words a reply of the model adds to the draft. -/
def wordsKept (t : SpokenTurn) (reply : Except JsString JsString) : Option JsString :=
  (decideAfterModelReply cl t.plan (reply.toOption.getD modelFailureReply)).append

def resumeModel (s : TalkerSession) (turn : ℤ) (t : SpokenTurn) (reply : Except JsString JsString) :
    TalkerSession × Progress :=
  let post := decideAfterModelReply cl t.plan (reply.toOption.getD modelFailureReply)
  let s := match wordsKept cl t reply with
    | some text => s.appendToDraft w t.draftRecordId text turn
    | none => s
  let receipt := if post.opensBatch then s.utteranceLog.takeReceipt else (none, s.utteranceLog)
  ({ s with utteranceLog := receipt.2 }, .done {
    reply := post.reply
    utteranceClass := t.utteranceClass
    cancelled := t.plan.cancelled
    modelCalled := reply.toOption.isSome
    receiptAck := receiptAckFor (receipt.1.getD 0)
    askWorkerOffer := post.askWorkerOffer
    addressedToTalker := post.addressedToTalker
    error := match reply with | .error e => some e | .ok _ => none })

/-- `none`: the delivery threw. -/
def resumeDelivery (s : TalkerSession) (turn : ℤ) (taken : TakenRelease) (outcome : Option DeliveryOutcome) :
    TalkerSession × Progress :=
  match outcome with
  | none => (s, .throws)
  | some delivery =>
    ({ s with
        proposals := s.proposals.recordReleased ⟨taken.utteranceId, taken.text, describeOutcome delivery, turn⟩
        ledger := s.ledger ++ [.reported turn] },
      .done {
        reply := ackForOutcome delivery
        utteranceClass := .confirm
        released := some ⟨taken.utteranceId, taken.text, delivery⟩ })

end TalkerSession

/-! ## Turns under way -/

/-- A session and what its turns wait for, by their number. -/
structure Conversation where
  session : TalkerSession := {}
  calls : JsMap ℤ Suspended := JsMap.empty

inductive Answer
  | snapshot (answered : Bool)
  | reply (r : Except JsString JsString)
  | outcome (o : Option DeliveryOutcome)

namespace Conversation

/-- The turn waits once more, or is over. -/
def proceed (calls : JsMap ℤ Suspended) (turn : ℤ) (r : TalkerSession × Progress) : Conversation where
  session := r.1
  calls := match r.2 with
    | .waits wait => calls.set turn wait
    | .done _ | .throws => calls.delete turn

def turn (c : Conversation) (input : PolicyTurnInput) : Conversation :=
  proceed c.calls (c.session.turnCount + 1) (c.session.handleOperatorTurn w cl input)

def answer (c : Conversation) (turn : ℤ) (a : Answer) : Conversation :=
  match c.calls.get turn, a with
  | some (.snapshot t), .snapshot answered => proceed c.calls turn (c.session.resumeSnapshot t answered)
  | some (.model t), .reply r => proceed c.calls turn (c.session.resumeModel w cl turn t r)
  | some (.delivery _ taken), .outcome o => proceed c.calls turn (c.session.resumeDelivery turn taken o)
  | _, _ => c

end Conversation

/-! ## The registry -/

/-- `sessions` is in the order of use; a session is kept by its number, also when it is deleted. -/
structure TalkerSessionRegistry where
  maxSessions : ℕ := 32
  sessions : JsMap JsString ℕ := JsMap.empty
  objects : ℕ → Conversation := fun _ => {}
  created : ℕ := 0

inductive RegistryEvent
  | turn (key : JsString) (input : PolicyTurnInput)
  | answer (object : ℕ) (turn : ℤ) (a : Answer)

namespace TalkerSessionRegistry

/-- The oldest are deleted until so many are left. -/
def evictOldest (maxSessions : ℕ) (sessions : JsMap JsString ℕ) : JsMap JsString ℕ :=
  ⟨sessions.entries.drop (sessions.size - maxSessions),
    sessions.nodup.sublist ((List.drop_sublist _ _).map _)⟩

def getOrCreate (r : TalkerSessionRegistry) (key : JsString) : ℕ × TalkerSessionRegistry :=
  match r.sessions.get key with
  | some object => (object, { r with sessions := (r.sessions.delete key).set key object })
  | none =>
    (r.created, { r with
      sessions := evictOldest r.maxSessions (r.sessions.set key r.created)
      created := r.created + 1 })

/-- The utterance is checked before the session is looked up. -/
def step (r : TalkerSessionRegistry) : RegistryEvent → TalkerSessionRegistry
  | .turn key input =>
    if trim input.utterance = [] then r
    else
      let (object, r) := r.getOrCreate key
      { r with objects := Function.update r.objects object ((r.objects object).turn w cl input) }
  | .answer object turn a => { r with objects := Function.update r.objects object ((r.objects object).answer w cl turn a) }

end TalkerSessionRegistry

end

end PiWebUi.Talker
