/-
  PiWebUi.Voice.VoiceSession — the lanes of the voice service (voice-session.ts): their
  bridges, the transcripts, the context injected into them and the stall watch.

  A lane record outlives its bridges; after a worker switch the lane has another record.
  Records and bridges are numbered in the order they are made. What an operation does up to
  its next `await` is one step; what it does then is a `Continuation` that is resumed later.
  A bridge's `connect()` settles, and its callbacks come, at any time. `sent` is what a
  bridge answers when context is written to it, `now` the clock.
-/

import PiWebUi.Lib.JsMap
import PiWebUi.Voice.GeminiLiveBridge

namespace PiWebUi.Voice

open Lib

inductive Speaker where
  | operator
  | talker
  deriving DecidableEq

inductive Entry where
  | delta (record bridge : ℕ) (speaker : Speaker) (text : JsString)
  | final (record : ℕ) (bridge : Option ℕ) (speaker : Speaker) (text : JsString)
  | boundary (record bridge : ℕ)
  deriving DecidableEq

structure LaneRecord where
  laneId : JsString := []
  attachmentGeneration : ℤ := 0
  state : VoiceWireState := .idle
  bridge : Option ℕ := none
  speechActive : Bool := false
  pendingContextText : Option JsString := none
  lastContextText : Option JsString := none
  readingLevelNotice : Option JsString := none
  contextTimer : Bool := false
  lastContextSentAtMs : Option ℤ := none
  operatorPartial : JsString := []
  talkerPartial : JsString := []
  resumptionHandle : Option JsString := none
  lastModelEngagedAtMs : ℤ := 0
  awaitingModelSinceMs : Option ℤ := none
  unansweredUtterances : List JsString := []
  stallReminted : Bool := false
  stallTimer : Bool := false
  pendingReplays : List JsString := []
  deriving DecidableEq

/-- `replays` are the utterances of the remint that opened it. -/
structure BridgeRecord where
  record : ℕ
  resumptionHandle : Option JsString
  replays : Option (List JsString)
  connect : Promise := .pending
  /-- The service has called its `close()`. -/
  closed : Bool := false
  deriving DecidableEq

inductive Continuation where
  /-- `start` has closed the lane of another generation. -/
  | switch (laneId : JsString) (attachmentGeneration : ℤ)
  /-- A remint has closed the lane, and then opened it again. -/
  | reopen (record : ℕ) (toReplay : List JsString)
  | replay (record : ℕ) (toReplay : List JsString)
  /-- `dispose` has closed these records. -/
  | disposing (visited : List ℕ)
  deriving DecidableEq

structure VoiceSessionService where
  lanes : JsMap JsString ℕ
  records : ℕ → LaneRecord
  nextRecord : ℕ
  bridges : ℕ → BridgeRecord
  nextBridge : ℕ
  continuations : List Continuation
  disposed : Bool
  disposeResolved : Bool
  stopped : List JsString
  log : List Entry

inductive VoiceEvent where
  | start (laneId : JsString) (attachmentGeneration : ℤ)
  | stop (laneId : JsString)
  | dispose
  | resume (i : ℕ)
  | connected (bridge : ℕ) (ok : Bool)
  | callback (bridge : ℕ) (callback : Callback) (now : ℤ) (sent : Bool)
  | noteActivity (laneId : JsString) (attachmentGeneration : ℤ) (speechStart : Bool) (now : ℤ) (sent : Bool)
  | injectContext (laneId : JsString) (text : JsString) (now : ℤ) (sent : Bool)
  | setReadingLevel (laneId : JsString) (level : JsString) (now : ℤ) (sent : Bool)
  | contextTimer (record : ℕ) (now : ℤ) (sent : Bool)
  | noteOperatorUtterance (laneId : JsString) (text : JsString) (now : ℤ)
  | stallTimer (record : ℕ) (now : ℤ)
  deriving DecidableEq

def VOICE_PENDING_CONTEXT_MAX_CHARS : ℕ := 400000

def VOICE_MODEL_REPLY_STALL_MS : ℤ := 20000

def VOICE_MODEL_ENGAGE_GRACE_MS : ℤ := 1500

namespace LaneRecord

def partialOf (lane : LaneRecord) : Speaker → JsString
  | .operator => lane.operatorPartial
  | .talker => lane.talkerPartial

def addPartial (lane : LaneRecord) (text : JsString) : Speaker → LaneRecord
  | .operator => { lane with operatorPartial := lane.operatorPartial ++ text }
  | .talker => { lane with talkerPartial := lane.talkerPartial ++ text }

/-! ## Context -/

def sendContext (lane : LaneRecord) (now : ℤ) (sent : Bool) : LaneRecord :=
  match lane.pendingContextText with
  | none => lane
  | some text =>
    if text = [] || lane.bridge.isNone then lane
    else
      { lane with
        pendingContextText := if sent then none else some text
        lastContextSentAtMs := some now
        lastContextText := some text
        readingLevelNotice := none }

def flushContext (contextCoalesceMs : ℤ) (lane : LaneRecord) (force : Bool) (now : ℤ) (sent : Bool) : LaneRecord :=
  if !(lane.pendingContextText.any (· ≠ [])) || lane.state ≠ .live then lane
  else if lane.speechActive && !force then lane
  else if force || lane.lastContextSentAtMs.all (fun last => contextCoalesceMs ≤ now - last) then lane.sendContext now sent
  else { lane with contextTimer := true }

def queueContext (contextCoalesceMs : ℤ) (lane : LaneRecord) (text : JsString) (now : ℤ) (sent : Bool) : LaneRecord :=
  let merged :=
    match lane.pendingContextText with
    | some pending => if pending = [] then text else pending ++ [newline] ++ text
    | none => text
  let bounded :=
    if merged.length ≤ VOICE_PENDING_CONTEXT_MAX_CHARS then merged
    else js "--- earlier host context omitted (over 400000 characters) ---" ++ [newline] ++ merged.drop (merged.length - VOICE_PENDING_CONTEXT_MAX_CHARS)
  { lane with pendingContextText := some bounded }.flushContext contextCoalesceMs false now sent

/-! ## The stall watch -/

def armStallWatch (lane : LaneRecord) (text : JsString) (now : ℤ) : LaneRecord :=
  let unanswered := lane.unansweredUtterances ++ [text]
  { lane with
    unansweredUtterances := if 8 < unanswered.length then unanswered.tail else unanswered
    awaitingModelSinceMs := some now
    stallTimer := true }

def noteModelEngaged (lane : LaneRecord) (now : ℤ) : LaneRecord :=
  let lane := { lane with lastModelEngagedAtMs := now }
  if lane.awaitingModelSinceMs = none && lane.unansweredUtterances = [] && !lane.stallReminted then lane
  else
    { lane with
      awaitingModelSinceMs := none
      unansweredUtterances := []
      stallReminted := false
      pendingReplays := []
      stallTimer := false }

def flushPendingReplays (lane : LaneRecord) : LaneRecord :=
  if lane.state ≠ .live || lane.bridge.isNone then lane else { lane with pendingReplays := [] }

/-- What is left of a lane that is closed. -/
def closed (lane : LaneRecord) : LaneRecord :=
  { lane with
    contextTimer := false
    stallTimer := false
    awaitingModelSinceMs := none
    unansweredUtterances := []
    pendingReplays := []
    bridge := none
    speechActive := false
    pendingContextText := none
    state := .stopped }

/-! ## What a lane is, apart from its context and its stall watch -/

def core (lane : LaneRecord) : JsString × VoiceWireState × Option ℕ × JsString × JsString :=
  (lane.laneId, lane.state, lane.bridge, lane.operatorPartial, lane.talkerPartial)

theorem core_eq {a b : LaneRecord} (h : a.core = b.core) :
    a.laneId = b.laneId ∧ a.state = b.state ∧ a.bridge = b.bridge ∧ ∀ speaker, a.partialOf speaker = b.partialOf speaker := by
  simp only [core, Prod.mk.injEq] at h
  obtain ⟨hlane, hstate, hbridge, hoperator, htalker⟩ := h
  refine ⟨hlane, hstate, hbridge, fun speaker => ?_⟩
  cases speaker
  · exact hoperator
  · exact htalker

@[simp] theorem core_sendContext (lane : LaneRecord) (now : ℤ) (sent : Bool) : (lane.sendContext now sent).core = lane.core := by
  unfold sendContext
  split
  · rfl
  · split <;> rfl

@[simp] theorem core_flushContext (c : ℤ) (lane : LaneRecord) (force : Bool) (now : ℤ) (sent : Bool) :
    (lane.flushContext c force now sent).core = lane.core := by
  unfold flushContext
  split
  · rfl
  · split
    · rfl
    · split
      · exact core_sendContext lane now sent
      · rfl

@[simp] theorem core_queueContext (c : ℤ) (lane : LaneRecord) (text : JsString) (now : ℤ) (sent : Bool) :
    (lane.queueContext c text now sent).core = lane.core := by
  unfold queueContext
  rw [core_flushContext]
  rfl

@[simp] theorem core_armStallWatch (lane : LaneRecord) (text : JsString) (now : ℤ) : (lane.armStallWatch text now).core = lane.core := rfl

@[simp] theorem core_noteModelEngaged (lane : LaneRecord) (now : ℤ) : (lane.noteModelEngaged now).core = lane.core := by
  simp only [noteModelEngaged]
  split <;> rfl

@[simp] theorem core_flushPendingReplays (lane : LaneRecord) : lane.flushPendingReplays.core = lane.core := by
  unfold flushPendingReplays
  split <;> rfl

end LaneRecord

namespace VoiceSessionService

variable (contextCoalesceMs : ℤ)

def new : VoiceSessionService := ⟨.empty, fun _ => {}, 0, fun _ => ⟨0, none, none, .rejected, true⟩, 0, [], false, false, [], []⟩

def setRecord (s : VoiceSessionService) (record : ℕ) (lane : LaneRecord) : VoiceSessionService :=
  { s with records := Function.update s.records record lane }

def modifyRecord (s : VoiceSessionService) (record : ℕ) (f : LaneRecord → LaneRecord) : VoiceSessionService :=
  s.setRecord record (f (s.records record))

/-! ## Lifecycle -/

/-- `openLane`, up to its bridge's `connect()`. -/
def openLane (s : VoiceSessionService) (record : ℕ) (resumptionHandle : Option JsString) (replays : Option (List JsString)) :
    VoiceSessionService :=
  { s.modifyRecord record fun lane => { lane with state := .connecting, bridge := some s.nextBridge } with
    bridges := Function.update s.bridges s.nextBridge ⟨record, resumptionHandle, replays, .pending, false⟩
    nextBridge := s.nextBridge + 1 }

def closeLane (s : VoiceSessionService) (record : ℕ) : VoiceSessionService :=
  { s.modifyRecord record .closed with
    bridges := (s.records record).bridge.elim s.bridges fun b => Function.update s.bridges b { s.bridges b with closed := true } }

/-- `createLane`, and its first opening. -/
def createLane (s : VoiceSessionService) (laneId : JsString) (attachmentGeneration : ℤ) : VoiceSessionService :=
  { s.setRecord s.nextRecord { laneId, attachmentGeneration } with
    lanes := s.lanes.set laneId s.nextRecord
    nextRecord := s.nextRecord + 1 }.openLane s.nextRecord none none

/-- A start opens the lane again when it is not up. -/
def reopens (lane : LaneRecord) : Bool := lane.state = .stopped || lane.state = .error || lane.bridge.isNone

def start (s : VoiceSessionService) (laneId : JsString) (attachmentGeneration : ℤ) : VoiceSessionService :=
  if s.disposed then s
  else
    let s := { s with stopped := s.stopped.filter (· ≠ laneId) }
    match s.lanes.get laneId with
    | some record =>
      let lane := s.records record
      if lane.attachmentGeneration = attachmentGeneration then
        if reopens lane then s.openLane record lane.resumptionHandle none else s
      else { s.closeLane record with continuations := s.continuations ++ [.switch laneId attachmentGeneration] }
    | none => s.createLane laneId attachmentGeneration

def stop (s : VoiceSessionService) (laneId : JsString) : VoiceSessionService :=
  match s.lanes.get laneId with
  | some record => { s.closeLane record with stopped := laneId :: s.stopped }
  | none => s

/-- The next lane of the map. -/
def disposeNext (s : VoiceSessionService) (visited : List ℕ) : VoiceSessionService :=
  match s.lanes.values.find? fun record => visited.all (· ≠ record) with
  | some record => { s.closeLane record with continuations := s.continuations ++ [.disposing (visited ++ [record])] }
  | none => { s with disposeResolved := true }

def dispose (s : VoiceSessionService) : VoiceSessionService := if s.disposed then s else { s with disposed := true }.disposeNext []

def replay (s : VoiceSessionService) (record : ℕ) (toReplay : List JsString) : VoiceSessionService :=
  if toReplay = [] then s
  else
    let text := js "RECONNECT CONTEXT: while the voice connection was down, the operator said: " ++ List.intercalate (js " | ") toReplay
    s.modifyRecord record fun lane => { lane with pendingReplays := [text] }.flushPendingReplays

def continue_ (s : VoiceSessionService) : Continuation → VoiceSessionService
  | .switch laneId attachmentGeneration => { s with lanes := s.lanes.delete laneId }.createLane laneId attachmentGeneration
  | .reopen record toReplay => s.openLane record none (some toReplay)
  | .replay record toReplay => s.replay record toReplay
  | .disposing visited => s.disposeNext visited

def resume (s : VoiceSessionService) (i : ℕ) : VoiceSessionService :=
  match s.continuations[i]? with
  | some k => { s with continuations := s.continuations.eraseIdx i }.continue_ k
  | none => s

/-- `connect()` settles, and `openLane` goes on. -/
def connected (s : VoiceSessionService) (b : ℕ) (ok : Bool) : VoiceSessionService :=
  let bridge := s.bridges b
  if bridge.connect ≠ .pending then s
  else
    let s := { s with
      bridges := Function.update s.bridges b { bridge with connect := if ok then .resolved else .rejected }
      continuations := s.continuations ++ bridge.replays.elim [] fun toReplay => [.replay bridge.record toReplay] }
    if ok then s else s.modifyRecord bridge.record fun lane => { lane with state := .error }

/-! ## Transcripts -/

def finals (record : ℕ) (lane : LaneRecord) : List Entry :=
  (if lane.operatorPartial ≠ [] then [.final record lane.bridge .operator lane.operatorPartial] else []) ++
    if lane.talkerPartial ≠ [] then [.final record lane.bridge .talker lane.talkerPartial] else []

/-- At a boundary of `bridge`. -/
def flushFinalTranscripts (s : VoiceSessionService) (record : ℕ) (bridge : Option ℕ) : VoiceSessionService :=
  { s.modifyRecord record fun lane => { lane with operatorPartial := [], talkerPartial := [] } with
    log := s.log ++ finals record (s.records record) ++ bridge.elim [] fun b => [.boundary record b] }

def addTranscript (s : VoiceSessionService) (record bridge : ℕ) (speaker : Speaker) (text : JsString) : VoiceSessionService :=
  { s.modifyRecord record (·.addPartial text speaker) with log := s.log ++ [.delta record bridge speaker text] }

/-! ## Callbacks of a bridge -/

def onState (lane : LaneRecord) (state : VoiceWireState) (now : ℤ) (sent : Bool) : LaneRecord :=
  if lane.state = .stopped || state = .stopped then lane
  else
    let lane := { lane with state }
    if state = .live then (lane.flushContext contextCoalesceMs true now sent).flushPendingReplays else lane

def callback (s : VoiceSessionService) (b : ℕ) (now : ℤ) (sent : Bool) : Callback → VoiceSessionService
  | .onState state _ => s.modifyRecord (s.bridges b).record (onState contextCoalesceMs · state now sent)
  | .onSetupComplete | .onGoAway _ => s
  | .onReconnected => s.modifyRecord (s.bridges b).record (·.flushContext contextCoalesceMs true now sent)
  | .onAudioPcm _ _ | .onToolCall _ _ => s.modifyRecord (s.bridges b).record (·.noteModelEngaged now)
  | .onInputTranscription text => s.addTranscript (s.bridges b).record b .operator text
  | .onOutputTranscription text =>
    (s.modifyRecord (s.bridges b).record (·.noteModelEngaged now)).addTranscript (s.bridges b).record b .talker text
  | .onTurnComplete => (s.modifyRecord (s.bridges b).record (·.noteModelEngaged now)).flushFinalTranscripts (s.bridges b).record (some b)
  | .onInterrupted => s.flushFinalTranscripts (s.bridges b).record (some b)
  | .onResumptionHandle handle _ => s.modifyRecord (s.bridges b).record fun lane => { lane with resumptionHandle := some handle }
  | .onError _ _ fatal => if fatal then s.modifyRecord (s.bridges b).record fun lane => { lane with state := .error } else s

/-! ## The host -/

def noteActivity (s : VoiceSessionService) (laneId : JsString) (attachmentGeneration : ℤ) (speechStart : Bool) (now : ℤ) (sent : Bool) :
    VoiceSessionService :=
  match s.lanes.get laneId with
  | none => s
  | some record =>
    if (s.records record).attachmentGeneration ≠ attachmentGeneration then s
    else
      let s := s.modifyRecord record fun lane => { lane with speechActive := speechStart }
      if speechStart then s
      else
        (s.flushFinalTranscripts record (s.records record).bridge).modifyRecord record (·.flushContext contextCoalesceMs false now sent)

def injectContext (s : VoiceSessionService) (laneId text : JsString) (now : ℤ) (sent : Bool) : VoiceSessionService :=
  match s.lanes.get laneId with
  | none => s
  | some record => s.modifyRecord record (·.queueContext contextCoalesceMs text now sent)

def setReadingLevel (s : VoiceSessionService) (laneId level : JsString) (now : ℤ) (sent : Bool) : VoiceSessionService :=
  match s.lanes.get laneId with
  | none => s
  | some record =>
    let notice := js "READING LEVEL: " ++ level
    s.modifyRecord record fun lane =>
      { lane with readingLevelNotice := some notice }.queueContext contextCoalesceMs (lane.lastContextText.getD notice) now sent

def onContextTimer (s : VoiceSessionService) (record : ℕ) (now : ℤ) (sent : Bool) : VoiceSessionService :=
  if (s.records record).contextTimer then
    s.modifyRecord record fun lane => { lane with contextTimer := false }.flushContext contextCoalesceMs false now sent
  else s

def noteOperatorUtterance (s : VoiceSessionService) (laneId text : JsString) (now : ℤ) : VoiceSessionService :=
  match s.lanes.get laneId with
  | none => s
  | some record =>
    let lane := s.records record
    if 0 < lane.lastModelEngagedAtMs ∧ now - lane.lastModelEngagedAtMs < VOICE_MODEL_ENGAGE_GRACE_MS then s
    else s.modifyRecord record (·.armStallWatch text now)

/-- A lane that has waited for its model long enough is closed, to be opened again. -/
def runStallCheck (s : VoiceSessionService) (record : ℕ) (now : ℤ) : VoiceSessionService :=
  if s.disposed then s
  else
    let lane := s.records record
    match lane.awaitingModelSinceMs with
    | none => s
    | some since =>
      if now - max since lane.lastModelEngagedAtMs < VOICE_MODEL_REPLY_STALL_MS then
        s.modifyRecord record fun lane => { lane with stallTimer := true }
      else if lane.stallReminted then s
      else if lane.state ≠ .live || lane.bridge.isNone then s
      else
        let s := s.modifyRecord record fun lane => { lane with stallReminted := true }
        { s.closeLane record with continuations := s.continuations ++ [.reopen record lane.unansweredUtterances] }

def onStallTimer (s : VoiceSessionService) (record : ℕ) (now : ℤ) : VoiceSessionService :=
  if (s.records record).stallTimer then
    (s.modifyRecord record fun lane => { lane with stallTimer := false }).runStallCheck record now
  else s

def step (s : VoiceSessionService) : VoiceEvent → VoiceSessionService
  | .start laneId attachmentGeneration => s.start laneId attachmentGeneration
  | .stop laneId => s.stop laneId
  | .dispose => s.dispose
  | .resume i => s.resume i
  | .connected b ok => s.connected b ok
  | .callback b callback now sent => if b < s.nextBridge then s.callback contextCoalesceMs b now sent callback else s
  | .noteActivity laneId attachmentGeneration speechStart now sent =>
    s.noteActivity contextCoalesceMs laneId attachmentGeneration speechStart now sent
  | .injectContext laneId text now sent => s.injectContext contextCoalesceMs laneId text now sent
  | .setReadingLevel laneId level now sent => s.setReadingLevel contextCoalesceMs laneId level now sent
  | .contextTimer record now sent => s.onContextTimer contextCoalesceMs record now sent
  | .noteOperatorUtterance laneId text now => s.noteOperatorUtterance laneId text now
  | .stallTimer record now => s.onStallTimer record now

end VoiceSessionService

end PiWebUi.Voice
