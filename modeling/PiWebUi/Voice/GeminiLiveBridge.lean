/-
  PiWebUi.Voice.GeminiLiveBridge — the bridge of one lane to its provider session
  (gemini-live-bridge.ts).

  `sessions` are the calls of the session factory, in order; a session is named by its
  place, and its promise, its socket and its `close()` are told apart. A handler runs as
  the list `todo` of what it still does, one `go` at a time: it delivers its callbacks to
  the host one by one, and between two of them the host may call the bridge. Everything
  else waits for the handler. `sinceClose` are the callbacks delivered after `close()`.
-/

import PiWebUi.Lib.JsText

namespace PiWebUi.Voice

open Lib

inductive VoiceWireState where
  | idle
  | connecting
  | live
  | reconnecting
  | suspended
  | stopped
  | error
  deriving DecidableEq

inductive VoiceErrorCode where
  | voiceQuotaExhausted
  | voiceProviderUnavailable
  | voiceInternalError
  deriving DecidableEq

inductive Callback where
  | onSetupComplete
  | onAudioPcm (pcm : List UInt8) (mimeType : JsString)
  | onInputTranscription (text : JsString)
  | onOutputTranscription (text : JsString)
  | onTurnComplete
  | onInterrupted
  | onToolCall (name id : JsString)
  | onResumptionHandle (handle : JsString) (resumable : Bool)
  | onGoAway (timeLeft : Option JsString)
  | onState (state : VoiceWireState) (detail : Option JsString)
  | onError (code : VoiceErrorCode) (message : JsString) (fatal : Bool)
  | onReconnected
  deriving DecidableEq

/-- `refused` is the reason `validateToolArguments` gives. -/
structure ToolCall where
  name : JsString
  id : JsString
  refused : Option JsString
  deriving DecidableEq

structure AudioPart where
  pcm : List UInt8
  mimeType : Option JsString
  deriving DecidableEq

structure ServerContent where
  audio : List AudioPart := []
  inputTranscription : JsString := []
  outputTranscription : JsString := []
  interrupted : Bool := false
  turnComplete : Bool := false
  deriving DecidableEq

structure LiveServerMessage where
  setupComplete : Bool := false
  newHandle : JsString := []
  resumable : Bool := false
  goAway : Option (Option JsString) := none
  functionCalls : List ToolCall := []
  serverContent : Option ServerContent := none
  deriving DecidableEq

inductive Promise where
  | pending
  | resolved
  | rejected
  deriving DecidableEq

/-- A call of the factory: the handle of its config, and whether `attemptReconnect` made it. -/
structure ProviderSession where
  handle : Option JsString
  reconnect : Bool
  promise : Promise := .pending
  /-- Its socket has closed. -/
  ended : Bool := false
  /-- The bridge has called its `close()`. -/
  closed : Bool := false
  deriving DecidableEq

def ProviderSession.isOpen (p : ProviderSession) : Bool := p.promise = .resolved && !p.ended && !p.closed

/-- What is left of a handler. -/
inductive Action where
  | callback (callback : Callback)
  | setState (state : VoiceWireState) (detail : Option JsString)
  | setup
  | resumptionUpdate (newHandle : JsString) (resumable : Bool)
  | beginReconnect (reason : JsString)
  | schedule
  | toolCalls (calls : List ToolCall)
  | acknowledge
  | awaitTools
  deriving DecidableEq

structure BridgeConfig where
  maxReconnectAttempts : ℕ
  ackToolCalls : Bool

structure GeminiLiveBridge where
  session : Option ℕ := none
  state : VoiceWireState := .idle
  resumptionHandle : Option JsString
  closing : Bool := false
  reconnecting : Bool := false
  resumingSession : Bool := false
  reconnectAttempts : ℕ := 0
  /-- `cancelPendingReconnect` is set. -/
  pendingReconnect : Bool := false
  lastProviderError : Option JsString := none
  /-- `usage.reconnects`. -/
  reconnects : ℕ := 0
  recentToolCallIds : List JsString := []
  sessions : List ProviderSession := []
  /-- Tool handlers that have not answered. -/
  toolRuns : ℕ := 0
  todo : List Action := []
  /-- The session whose event is being handled. -/
  source : Option ℕ := none
  callbacks : List Callback := []
  sinceClose : List Callback := []
  deriving DecidableEq

/-- `ackFails` and `fails` are the error of a write to the provider. -/
inductive BridgeEvent where
  | connect
  | close
  | go (ackFails : Option JsString)
  | resolve (session : ℕ)
  | reject (session : ℕ) (message : JsString)
  | socketError (session : ℕ) (message : JsString)
  | socketClose (session : ℕ)
  | message (session : ℕ) (message : LiveServerMessage)
  | timer
  | send (fails : Option JsString)
  | toolsSettled (failed : Option JsString)
  deriving DecidableEq

/-! ## Errors -/

def QUOTA_WORDS : List JsString :=
  [js "quota", js "resourceexhausted", js "resource_exhausted", js "resource-exhausted", js "429", js "ratelimit", js "rate limit", js "rate_limit",
    js "rate-limit", js "too many requests"]

/-- `toLowerCase`, as far as these words can tell. -/
def lower (s : JsString) : JsString := s.map fun u => if 65 ≤ u && u ≤ 90 then u + 32 else u

def classifyProviderFailure (message : JsString) : VoiceErrorCode :=
  if QUOTA_WORDS.any (includes (lower message)) then .voiceQuotaExhausted else .voiceProviderUnavailable

def emitError (code : VoiceErrorCode) (message : JsString) (fatal : Bool) : List Action :=
  .callback (.onError code message fatal) :: if fatal then [.setState .error (some message)] else []

/-! ## Tool calls -/

def VOICE_FUNCTION_DECLARATIONS : List JsString := [js "relay_to_worker", js "read_worker_history"]

structure ToolScan where
  errors : List Callback
  accepted : List ToolCall
  duplicates : List ToolCall
  recentToolCallIds : List JsString

/-- The last 256. -/
def rememberToolCallId (recent : List JsString) (id : JsString) : List JsString :=
  if id = [] then recent else (recent ++ [id]).drop (recent.length + 1 - 256)

def scanToolCall (t : ToolScan) (call : ToolCall) : ToolScan :=
  if !VOICE_FUNCTION_DECLARATIONS.any (· = call.name) then
    { t with errors := t.errors ++ [.onError .voiceInternalError (js "model called an undeclared function (" ++ call.name ++ js ")") false] }
  else
    match call.refused with
    | some reason => { t with errors := t.errors ++ [.onError .voiceInternalError (js "model called " ++ call.name ++ js " with " ++ reason) false] }
    | none =>
      if t.recentToolCallIds.any (· = call.id) then { t with duplicates := t.duplicates ++ [call] }
      else { t with recentToolCallIds := rememberToolCallId t.recentToolCallIds call.id, accepted := t.accepted ++ [call] }

def scanToolCalls (recent : List JsString) (calls : List ToolCall) : ToolScan := calls.foldl scanToolCall ⟨[], [], [], recent⟩

def ToolScan.actions (t : ToolScan) : List Action :=
  t.errors.map .callback ++ (if t.duplicates ≠ [] then [.acknowledge] else []) ++
    if t.accepted = [] then [] else t.accepted.map (fun call => .callback (.onToolCall call.name call.id)) ++ [.awaitTools]

/-! ## Messages -/

def handleServerContent (content : ServerContent) : List Action :=
  (content.audio.filter (·.pcm ≠ [])).map (fun part => .callback (.onAudioPcm part.pcm (part.mimeType.getD (js "audio/pcm;rate=24000")))) ++
    (if content.inputTranscription ≠ [] then [.callback (.onInputTranscription content.inputTranscription)] else []) ++
    (if content.outputTranscription ≠ [] then [.callback (.onOutputTranscription content.outputTranscription)] else []) ++
    (if content.interrupted then [.callback .onInterrupted] else []) ++
    if content.turnComplete then [.callback .onTurnComplete] else []

def handleMessage (m : LiveServerMessage) : List Action :=
  (if m.setupComplete then [.setup] else []) ++
    [.resumptionUpdate m.newHandle m.resumable] ++
    (match m.goAway with
      | some timeLeft => [.callback (.onGoAway timeLeft), .beginReconnect (js "provider goAway")]
      | none => []) ++
    (if m.functionCalls ≠ [] then [.toolCalls m.functionCalls] else []) ++
    match m.serverContent with
    | some content => handleServerContent content
    | none => []

namespace GeminiLiveBridge

variable (c : BridgeConfig)

def isLive (s : GeminiLiveBridge) : Bool := s.state = .live && s.session.isSome && !s.closing

/-- The resumption handle is there: it is truthy. -/
def held (s : GeminiLiveBridge) : Bool := s.resumptionHandle.any (· ≠ [])

def deliver (s : GeminiLiveBridge) (callback : Callback) : GeminiLiveBridge :=
  { s with callbacks := s.callbacks ++ [callback], sinceClose := if s.closing then s.sinceClose ++ [callback] else s.sinceClose }

def setState (s : GeminiLiveBridge) (state : VoiceWireState) (detail : Option JsString) : GeminiLiveBridge :=
  { s with state }.deliver (.onState state detail)

/-- `session.close()` and `this.session = null`. -/
def dropSession (s : GeminiLiveBridge) : GeminiLiveBridge :=
  { s with
    session := none
    sessions := s.session.elim s.sessions fun k => s.sessions.modify k fun p => { p with closed := true } }

/-! ## Open and reconnect -/

def openSession (s : GeminiLiveBridge) (reconnect : Bool) : GeminiLiveBridge :=
  { s with sessions := s.sessions ++ [{ handle := s.resumptionHandle, reconnect }] }

def connect (s : GeminiLiveBridge) : GeminiLiveBridge :=
  if s.closing then s else if s.session.isSome then s else s.openSession false

def close (s : GeminiLiveBridge) : GeminiLiveBridge :=
  if s.closing then s
  else
    ({ s with closing := true, reconnecting := false, resumingSession := false, pendingReconnect := false }.dropSession).setState .stopped none

/-- The reconnect would be begun. -/
def begins (s : GeminiLiveBridge) : Bool := !s.closing && !s.reconnecting && s.held && decide (s.reconnectAttempts < c.maxReconnectAttempts)

def beginReconnect (s : GeminiLiveBridge) (reason : JsString) : GeminiLiveBridge :=
  if s.closing || s.reconnecting then s
  else
    let cause := s.lastProviderError.getD reason
    if !s.held then
      let message := js "provider session lost before a resumption handle was issued (" ++ reason ++ js "): " ++ cause
      { s with todo := emitError (classifyProviderFailure cause) message true ++ s.todo }
    else if c.maxReconnectAttempts ≤ s.reconnectAttempts then
      let message := js "provider session lost and reconnect attempts are exhausted (" ++ reason ++ js "): " ++ cause
      { s with todo := emitError (classifyProviderFailure cause) message true ++ s.todo }
    else { s.dropSession with reconnecting := true, todo := [.setState .reconnecting (some reason), .schedule] ++ s.todo }

/-- The promise of the factory resolves. -/
def resolve (s : GeminiLiveBridge) (i : ℕ) : GeminiLiveBridge :=
  match s.sessions[i]? with
  | some p =>
    if p.promise = .pending then
      if s.closing then { s with sessions := s.sessions.modify i fun p => { p with promise := .resolved, closed := true } }
      else { s with sessions := s.sessions.modify i fun p => { p with promise := .resolved }, session := some i, state := .connecting }
    else s
  | none => s

def reject (s : GeminiLiveBridge) (i : ℕ) (message : JsString) : GeminiLiveBridge :=
  match s.sessions[i]? with
  | some p =>
    if p.promise = .pending then
      { s with
        sessions := s.sessions.modify i fun p => { p with promise := .rejected }
        resumingSession := if p.reconnect then false else s.resumingSession
        todo := emitError (classifyProviderFailure message) message true
        source := none }
    else s
  | none => s

def handleSocketError (s : GeminiLiveBridge) (i : ℕ) (message : JsString) : GeminiLiveBridge :=
  if s.closing then s
  else { s with lastProviderError := some message, todo := emitError (classifyProviderFailure message) message false, source := some i }

def handleSocketClose (s : GeminiLiveBridge) (i : ℕ) : GeminiLiveBridge :=
  let s := { s with sessions := s.sessions.modify i fun p => { p with ended := true } }
  if s.closing then { s with state := .stopped }
  else
    let s := { s with session := none }
    if s.reconnecting then s else { s with source := some i }.beginReconnect c (js "socket closed unexpectedly")

/-- The timer of the reconnect, and `attemptReconnect`. -/
def timer (s : GeminiLiveBridge) : GeminiLiveBridge :=
  if s.pendingReconnect then
    let s := { s with pendingReconnect := false, reconnecting := false }
    if s.closing then s
    else
      { s with reconnectAttempts := s.reconnectAttempts + 1, reconnects := s.reconnects + 1, resumingSession := true }.openSession true
  else s

/-! ## A handler -/

def setup (s : GeminiLiveBridge) : GeminiLiveBridge :=
  let wasReconnect := s.resumingSession
  let s := { s with resumingSession := false, lastProviderError := none, state := .live }.deliver .onSetupComplete
  { s with todo := .setState .live none :: (if wasReconnect then [.callback .onReconnected] else []) ++ s.todo }

def acknowledge (s : GeminiLiveBridge) (fails : Option JsString) : GeminiLiveBridge :=
  if s.session.isNone || s.closing then s
  else
    match fails with
    | some message =>
      { s with todo := emitError .voiceInternalError (js "failed to acknowledge a tool call: " ++ message) false ++ s.todo }
    | none => s

def perform (s : GeminiLiveBridge) (ackFails : Option JsString) : Action → GeminiLiveBridge
  | .callback callback => s.deliver callback
  | .setState state detail => s.setState state detail
  | .setup => s.setup
  | .resumptionUpdate newHandle resumable =>
    if newHandle = [] then s else { s with resumptionHandle := some newHandle }.deliver (.onResumptionHandle newHandle resumable)
  | .beginReconnect reason => s.beginReconnect c reason
  | .schedule => { s with pendingReconnect := true }
  | .toolCalls calls =>
    let scan := scanToolCalls s.recentToolCallIds calls
    { s with recentToolCallIds := scan.recentToolCallIds, todo := scan.actions ++ s.todo }
  | .acknowledge => s.acknowledge ackFails
  | .awaitTools => { s with toolRuns := s.toolRuns + 1 }

def go (s : GeminiLiveBridge) (ackFails : Option JsString) : GeminiLiveBridge :=
  match s.todo with
  | [] => s
  | action :: rest => { s with todo := rest }.perform c ackFails action

/-- `sendAudio`, `sendContextText` and the activity markers, of which only a failure is delivered. -/
def send (s : GeminiLiveBridge) (fails : Option JsString) : GeminiLiveBridge :=
  match fails with
  | some message => if s.isLive then s.deliver (.onError .voiceProviderUnavailable message false) else s
  | none => s

/-- What is left to do when the handlers of a call have answered. -/
def answerTools (failed : Option JsString) : List Action :=
  (match failed with
    | some message => emitError .voiceInternalError (js "a tool handler failed: " ++ message) false
    | none => []) ++ if c.ackToolCalls then [.acknowledge] else []

def toolsSettled (s : GeminiLiveBridge) (failed : Option JsString) : GeminiLiveBridge :=
  if 0 < s.toolRuns then
    { s with
      toolRuns := s.toolRuns - 1
      todo := answerTools c failed
      source := none }
  else s

/-- An event of a session that the factory was asked for. -/
def knows (s : GeminiLiveBridge) (i : ℕ) : Bool := decide (i < s.sessions.length)

def step (s : GeminiLiveBridge) : BridgeEvent → GeminiLiveBridge
  | .connect => s.connect
  | .close => s.close
  | .go ackFails => s.go c ackFails
  | .send fails => s.send fails
  | .resolve i => if s.todo = [] then s.resolve i else s
  | .reject i message => if s.todo = [] then s.reject i message else s
  | .socketError i message => if s.todo = [] && s.knows i then s.handleSocketError i message else s
  | .socketClose i => if s.todo = [] && s.knows i then s.handleSocketClose c i else s
  | .message i m => if s.todo = [] && s.knows i && !s.closing then { s with todo := handleMessage m, source := some i } else s
  | .timer => if s.todo = [] then s.timer else s
  | .toolsSettled failed => if s.todo = [] then s.toolsSettled c failed else s

def new (resumptionHandle : Option JsString) : GeminiLiveBridge := { resumptionHandle }

end GeminiLiveBridge

end PiWebUi.Voice
