/-
  PiWebUi.Talker.Draft — the operator's draft (server/src/talker/proposal-store.ts, with the
  removals of relay-normalise.ts).

  What the operator said toward an instruction that is not released yet: its parts, in
  order, each with the text a release sends and, where that differs, the words as spoken.
  A part is appended, or replaces the draft it states again. A release takes every part or
  the selected one, a cancellation drops them all. Turns age the confirmation, never the
  draft. Appending and a partial release move the version.
-/

import PiWebUi.Lib.JsText

namespace PiWebUi.Talker

open PiWebUi.Lib

/-! ## Texts -/

structure RelayNormalisation where
  text : JsString
  changed : Bool
  removals : List JsString
  deriving DecidableEq

/-- What the store does to texts without looking at the draft. -/
structure Wording where
  normaliseRelayText : JsString → RelayNormalisation
  repairRelaySeams : JsString → JsString
  normaliseForRestatement : JsString → JsString
  sha256 : JsString → JsString

/-- `/\S/.test(piece)` -/
def hasVisible (piece : JsString) : Bool := piece.any (!isWhiteSpace ·)

def relayHasVisibleRemoval (removals : List JsString) : Bool := removals.any hasVisible

def visibleRemovalFragments (removals : List JsString) : List JsString :=
  ((removals.filter hasVisible).map trim).filter (· ≠ [])

/-! ## Proposals -/

inductive OrdinalPosition
  | first
  | second
  | third
  | fourth
  | fifth
  | last
  deriving DecidableEq

/-- The index a position selects of so many parts. -/
def resolveOrdinalIndex (position : OrdinalPosition) (count : ℕ) : Option ℕ :=
  if count = 0 then none
  else
    let order (idx : ℕ) : Option ℕ := if count ≤ idx then none else some idx
    match position with
    | .last => some (count - 1)
    | .first => order 0
    | .second => order 1
    | .third => order 2
    | .fourth => order 3
    | .fifth => order 4

/-- `originalText` is there where the relay text is not the words as spoken. -/
structure DraftUtteranceEntry where
  id : ℕ
  text : JsString
  turn : ℤ
  originalText : Option JsString := none
  removals : List JsString := []
  deriving DecidableEq

inductive ReleaseVariant
  | tidied
  | original
  deriving DecidableEq

/-- What a release of the variant sends of a part. -/
def DraftUtteranceEntry.sent (u : DraftUtteranceEntry) : ReleaseVariant → JsString
  | .tidied => u.text
  | .original => u.originalText.getD u.text

def joinDraftText (utterances : List DraftUtteranceEntry) : JsString := joinLines (utterances.map (·.sent .tidied))

def joinOriginalDraftText (utterances : List DraftUtteranceEntry) : JsString := joinLines (utterances.map (·.sent .original))

structure ProposalDescriptor where
  text : JsString
  cleaned : Bool
  removed : Option JsString := none
  original : Option JsString := none
  hash : JsString
  deriving DecidableEq

structure ProposalIdentity where
  version : ℕ
  hash : JsString
  deriving DecidableEq

/-! ## The store -/

structure OperatorDraft where
  utterances : List DraftUtteranceEntry
  createdTurn : ℤ
  lastTouchedTurn : ℤ
  ageTurns : ℤ := 0
  needsReConfirmation : Bool := false
  version : ℕ
  deriving DecidableEq

def OperatorDraft.age (d : OperatorDraft) (turn : ℤ) : ℤ := max d.ageTurns (turn - d.lastTouchedTurn)

structure ReleasedRecord where
  utteranceId : ℕ
  text : JsString
  outcome : JsString
  turn : ℤ
  deriving DecidableEq

structure PendingProposalStore where
  maxPendingAgeTurns : ℤ := 6
  releasedHistoryLimit : ℕ := 5
  draft : Option OperatorDraft := none
  released : List ReleasedRecord := []
  nextProposalVersion : ℕ := 0
  deriving DecidableEq

structure TakenRelease where
  utteranceIds : List ℕ
  utteranceId : ℕ
  text : JsString
  deriving DecidableEq

namespace PendingProposalStore

/-- The draft, where it has a part. -/
def live (s : PendingProposalStore) : Option OperatorDraft := s.draft.filter (·.utterances ≠ [])

/-- `snapshotDraft`: the parts of the draft, if it has any. -/
def snapshotDraft (s : PendingProposalStore) : Option (List DraftUtteranceEntry) := s.live.map (·.utterances)

def isLapsed (s : PendingProposalStore) (turn : ℤ) : Bool :=
  s.draft.any fun d => s.maxPendingAgeTurns ≤ d.age turn

def markResurfaced (s : PendingProposalStore) (turn : ℤ) : PendingProposalStore :=
  { s with draft := s.draft.map fun d => { d with lastTouchedTurn := turn, ageTurns := 0, needsReConfirmation := false } }

def tickTurn (s : PendingProposalStore) (turn : ℤ) : PendingProposalStore :=
  { s with draft := s.draft.map fun d => { d with
      ageTurns := d.age turn
      needsReConfirmation := d.needsReConfirmation || s.maxPendingAgeTurns ≤ d.age turn } }

/-- The parts a release takes and those it leaves. -/
def selectParts (utterances : List DraftUtteranceEntry) :
    Option OrdinalPosition → Option (List DraftUtteranceEntry × List DraftUtteranceEntry)
  | none => some (utterances, [])
  | some position => do
    let idx ← resolveOrdinalIndex position utterances.length
    let selected ← utterances[idx]?
    return ([selected], utterances.eraseIdx idx)

def takeForRelease (s : PendingProposalStore) (turn : ℤ) (selection : Option OrdinalPosition) (variant : ReleaseVariant) :
    Option TakenRelease × PendingProposalStore :=
  match s.live with
  | none => (none, s)
  | some d =>
    if s.maxPendingAgeTurns ≤ d.age turn then
      (none, { s with draft := some { d with ageTurns := d.age turn, needsReConfirmation := true } })
    else
      match selectParts d.utterances selection with
      | none | some ([], _) => (none, s)
      | some (u :: us, remaining) =>
        (some ⟨(u :: us).map (·.id), u.id, joinLines ((u :: us).map (·.sent variant))⟩,
          if remaining = [] then { s with draft := none }
          else { s with
            draft := some { d with utterances := remaining, version := s.nextProposalVersion + 1 }
            nextProposalVersion := s.nextProposalVersion + 1 })

def canResolveSelection (s : PendingProposalStore) (position : OrdinalPosition) : Bool :=
  s.draft.any fun d => (resolveOrdinalIndex position d.utterances.length).isSome

def cancel (s : PendingProposalStore) : PendingProposalStore := { s with draft := none }

def recordReleased (s : PendingProposalStore) (rec : ReleasedRecord) : PendingProposalStore :=
  let released := s.released ++ [rec]
  { s with released := released.drop (released.length - s.releasedHistoryLimit) }

end PendingProposalStore

section

variable (w : Wording)

def isDraftRestatement (heldText newText : JsString) : Bool :=
  let held := w.normaliseForRestatement heldText
  let next := w.normaliseForRestatement newText
  held ≠ [] && next ≠ [] && (next.isPrefixOf held || held.isPrefixOf next)

/-- The text and, where one is offered, the original, parted by a unit of their own. -/
def proposalHash (text : JsString) (original : Option JsString) : JsString := w.sha256 (text ++ [0] ++ original.getD [])

def describeProposal (utterances : List DraftUtteranceEntry) : ProposalDescriptor :=
  let text := joinDraftText utterances
  if relayHasVisibleRemoval (utterances.flatMap (·.removals)) then
    let fragments := utterances.flatMap fun u => visibleRemovalFragments u.removals
    let original := joinOriginalDraftText utterances
    { text
      cleaned := true
      removed := if fragments = [] then none else some (w.repairRelaySeams (List.intercalate [32] fragments))
      original := some original
      hash := proposalHash w text (some original) }
  else { text, cleaned := false, hash := proposalHash w text none }

namespace PendingProposalStore

def describeCurrentProposal (s : PendingProposalStore) : Option (ProposalDescriptor × ℕ) :=
  s.live.map fun d => (describeProposal w d.utterances, d.version)

/-- The part an utterance becomes. -/
def draftEntry (utteranceId : ℕ) (text : JsString) (turn : ℤ) : DraftUtteranceEntry :=
  let relay := w.normaliseRelayText text
  if relay.changed then { id := utteranceId, text := relay.text, turn, originalText := some text, removals := relay.removals }
  else { id := utteranceId, text, turn }

/-- The draft a new part is added to: none is held, or the new text states the held one again. -/
def heldBeside (s : PendingProposalStore) (text : JsString) : Option OperatorDraft :=
  s.live.filter fun held => !isDraftRestatement w (joinDraftText held.utterances) text

def appendToDraft (s : PendingProposalStore) (utteranceId : ℕ) (text : JsString) (turn : ℤ) : PendingProposalStore :=
  let entry := draftEntry w utteranceId text turn
  let version := s.nextProposalVersion + 1
  let draft : OperatorDraft :=
    match s.heldBeside w text with
    | none => { utterances := [entry], createdTurn := turn, lastTouchedTurn := turn, version }
    | some held => { held with
        utterances := held.utterances ++ [entry]
        lastTouchedTurn := turn
        ageTurns := 0
        needsReConfirmation := false
        version }
  { s with draft := some draft, nextProposalVersion := version }

end PendingProposalStore

end

end PiWebUi.Talker
