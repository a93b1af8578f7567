/-
  PiWebUi.Client.WebSocketClient — the browser's connection: sockets and when they are
  replaced, the backoff timer, and the queue of what could not be sent.

  A socket is an index into `sockets`. It opens, begins to close and closes by events of
  its own; a reconnect first refreshes the CSRF token, which completes as one more event.
  Whether a socket can be constructed, a send throws, and how many sends of a flush go
  through before one throws are the environment's. The status handler sends when the
  socket opens; no other handler calls the client. Heartbeats come at any time.
  `handed`, `accepted`, `final` and `strayed` are read by nothing.
-/

import PiWebUi.Lib.Json
import PiWebUi.Lib.Run

namespace PiWebUi.Client

open PiWebUi.Lib

/-- `WebSocket.readyState`. -/
inductive ReadyState where
  | connecting
  | opened
  | closing
  | closed
deriving DecidableEq

/-- Connecting or open. -/
def ReadyState.live : ReadyState → Bool
  | connecting | opened => true
  | closing | closed => false

structure Frame where
  message : Json
  /-- Authentication, a ping or a re-subscription. -/
  own : Bool
deriving DecidableEq

inductive SendResult where
  | sent
  | queued
  | failed
deriving DecidableEq

structure WebSocketClient where
  maxReconnectAttempts : ℕ
  maxQueuedMessages : ℕ
  /-- The token `useAuth` holds. -/
  authToken : Option JsString
  sockets : List ReadyState
  ws : Option ℕ
  reconnectAttempts : ℕ
  /-- The reconnect timers that are pending. -/
  timers : List ℕ
  timersMade : ℕ
  reconnectTimer : Option ℕ
  csrfToken : Option JsString
  pendingSessionReconnect : Option JsString
  intentionalDisconnect : Bool
  outboundQueue : List Frame
  switchAckPending : Bool
  switchAckTimer : Bool
  /-- CSRF refreshes that are in flight. -/
  refreshes : ℕ
  /-- What the sockets were given. -/
  handed : List Frame
  /-- What `send` returned `sent` or `queued` for. -/
  accepted : List Json
  /-- `disconnect` was called, and `connect` not since. -/
  final : Bool
  /-- A socket was created while it was. -/
  strayed : Bool
deriving DecidableEq

inductive SocketEvent where
  | connect (targetSessionId : Option JsString) (constructs : Bool)
  | disconnect
  | handleResume
  | send (message : Json) (throws : Bool)
  | ping (throws : Bool)
  /-- A socket opens. `calls`: what the status handler sends. -/
  | opens (i : ℕ) (calls : List (Json × Bool)) (authThrows subscribeThrows : Bool) (flushes : ℕ)
  | startsClosing (i : ℕ)
  | closes (i : ℕ)
  | message (i : ℕ) (message : Json) (flushes : ℕ)
  | ackFallback (flushes : ℕ)
  | reconnectTimer (t : ℕ)
  | refreshed (csrfToken : Option JsString) (constructs : Bool)
  | tokenChanged (csrfToken : Option JsString)
deriving DecidableEq

/-- A string that is there and not empty. -/
def truthy (s : Option JsString) : Option JsString := s.filter (· ≠ [])

def typeOf (message : Json) : Option Json := message.get (js "type")

def authFrame (token : JsString) : Frame := ⟨.obj [(js "type", .str (js "auth")), (js "csrfToken", .str token)], true⟩

def subscribeFrame (path : JsString) : Frame :=
  ⟨.obj [(js "type", .str (js "subscribe_session")), (js "sessionPath", .str path)], true⟩

def pingFrame : Frame := ⟨.obj [(js "type", .str (js "ping"))], true⟩

def isSwitch (message : Json) : Bool := typeOf message = some (.str (js "switch_session"))

def failedSwitchCodes : List JsString :=
  [js "SESSION_NOT_FOUND", js "SESSION_FILE_MISSING", js "SESSION_IDENTITY_MISMATCH", js "SUBSCRIBE_FAILED"]

/-- The switch that was waited for is done, or has failed for good. -/
def acknowledges (message : Json) : Bool :=
  typeOf message = some (.str (js "session_switched")) || typeOf message = some (.str (js "session_subscribed")) ||
    (typeOf message = some (.str (js "error")) &&
      failedSwitchCodes.any fun code => message.get (js "code") = some (.str code))

namespace WebSocketClient

def createWebSocketClient (maxReconnectAttempts maxQueuedMessages : ℕ) (token : Option JsString) : WebSocketClient :=
  { maxReconnectAttempts := maxReconnectAttempts, maxQueuedMessages := max 1 maxQueuedMessages, authToken := token
    sockets := [], ws := none, reconnectAttempts := 0, timers := [], timersMade := 0, reconnectTimer := none
    csrfToken := token, pendingSessionReconnect := none, intentionalDisconnect := false, outboundQueue := []
    switchAckPending := false, switchAckTimer := false, refreshes := 0, handed := [], accepted := [], final := false
    strayed := false }

def readyState (s : WebSocketClient) : Option ReadyState := s.ws.bind (s.sockets[·]?)

def isOpen (s : WebSocketClient) : Bool := s.readyState = some .opened

/-- `socket.close()`. -/
def close (s : WebSocketClient) (i : ℕ) : WebSocketClient :=
  { s with sockets := s.sockets.modify i fun st => if st.live then .closing else st }

def clearReconnectTimer (s : WebSocketClient) : WebSocketClient :=
  { s with timers := s.timers.filter fun t => some t ≠ s.reconnectTimer, reconnectTimer := none }

def attemptReconnect (s : WebSocketClient) : WebSocketClient :=
  if s.maxReconnectAttempts ≤ s.reconnectAttempts then s
  else
    { s with
      reconnectAttempts := s.reconnectAttempts + 1
      timers := s.timers ++ [s.timersMade]
      timersMade := s.timersMade + 1
      reconnectTimer := some s.timersMade }

/-- The client is connected or about to be. -/
def connected (s : WebSocketClient) : Bool := s.readyState.any ReadyState.live

def connect (s : WebSocketClient) (targetSessionId : Option JsString) (constructs : Bool) : WebSocketClient :=
  if s.connected then s
  else
    let s := { s with
      intentionalDisconnect := false
      pendingSessionReconnect := (truthy targetSessionId).or s.pendingSessionReconnect
      csrfToken := s.authToken }
    if constructs then
      { s with sockets := s.sockets ++ [.connecting], ws := some s.sockets.length, strayed := s.strayed || s.final }
    else s.attemptReconnect

def disconnect (s : WebSocketClient) : WebSocketClient :=
  let s := { s.clearReconnectTimer with
    intentionalDisconnect := true
    switchAckTimer := false
    switchAckPending := false
    pendingSessionReconnect := none
    outboundQueue := []
    final := true }
  { (match s.ws with
    | some i => s.close i
    | none => s) with ws := none }

def handleResume (s : WebSocketClient) : WebSocketClient :=
  if s.intentionalDisconnect then s
  else if s.connected then s
  else { s.clearReconnectTimer with reconnectAttempts := 0, refreshes := s.refreshes + 1 }

def queueOutbound (s : WebSocketClient) (f : Frame) : WebSocketClient × SendResult :=
  if s.intentionalDisconnect then (s, .failed)
  else if s.maxQueuedMessages ≤ s.outboundQueue.length then (s, .failed)
  else ({ s with outboundQueue := s.outboundQueue ++ [f] }.handleResume, .queued)

/-- What is recorded of a send of the application. -/
def record (f : Frame) (r : WebSocketClient × SendResult) : WebSocketClient :=
  if f.own = false ∧ r.2 ≠ .failed then { r.1 with accepted := r.1.accepted ++ [f.message] } else r.1

def send (s : WebSocketClient) (f : Frame) (throws : Bool) : WebSocketClient :=
  record f <|
    if s.isOpen then
      let s := if isSwitch f.message then { s with switchAckPending := true } else s
      if throws then s.queueOutbound f else ({ s with handed := s.handed ++ [f] }, .sent)
    else s.queueOutbound f

/-- `flushes` sends go through, if there are as many; the next one throws. -/
def flushOutboundQueue (s : WebSocketClient) (flushes : ℕ) : WebSocketClient :=
  if s.isOpen then
    { s with handed := s.handed ++ s.outboundQueue.take flushes, outboundQueue := s.outboundQueue.drop flushes }
  else s

/-- A re-subscription the status handler makes is one of the frames apart. -/
def statusCall (s : WebSocketClient) (call : Json × Bool) : WebSocketClient := s.send ⟨call.1, isSwitch call.1⟩ call.2

/-- What is sent before the queue is looked at. -/
def greet (s : WebSocketClient) (calls : List (Json × Bool)) (authThrows subscribeThrows : Bool) : WebSocketClient :=
  let s := calls.foldl statusCall s
  let s := { s with reconnectAttempts := 0 }
  let s := match truthy s.csrfToken with
    | some token => s.send (authFrame token) authThrows
    | none => s
  match s.pendingSessionReconnect with
  | some path => { s.send (subscribeFrame path) subscribeThrows with pendingSessionReconnect := none, switchAckPending := true }
  | none => s

def onopen (s : WebSocketClient) (i : ℕ) (calls : List (Json × Bool)) (authThrows subscribeThrows : Bool) (flushes : ℕ) :
    WebSocketClient :=
  if s.ws ≠ some i ∨ s.intentionalDisconnect = true then s.close i
  else
    let s := s.greet calls authThrows subscribeThrows
    if s.outboundQueue ≠ [] ∧ s.switchAckPending = true then { s with switchAckTimer := true } else s.flushOutboundQueue flushes

def onclose (s : WebSocketClient) (i : ℕ) : WebSocketClient :=
  if s.ws ≠ some i then s
  else
    let s := { s with ws := none, switchAckTimer := false, switchAckPending := false }
    if s.intentionalDisconnect then s else s.attemptReconnect

def onmessage (s : WebSocketClient) (i : ℕ) (message : Json) (flushes : ℕ) : WebSocketClient :=
  if s.ws ≠ some i ∨ s.intentionalDisconnect = true then s
  else if acknowledges message then
    { s with switchAckPending := false, switchAckTimer := false }.flushOutboundQueue flushes
  else s

def setReadyState (s : WebSocketClient) (i : ℕ) (st : ReadyState) : WebSocketClient := { s with sockets := s.sockets.set i st }

def step (s : WebSocketClient) : SocketEvent → WebSocketClient
  | .connect target constructs => { s with final := false }.connect target constructs
  | .disconnect => s.disconnect
  | .handleResume => s.handleResume
  | .send message throws => s.send ⟨message, false⟩ throws
  | .ping throws => s.send pingFrame throws
  | .opens i calls authThrows subscribeThrows flushes =>
    if s.sockets[i]? = some .connecting then (s.setReadyState i .opened).onopen i calls authThrows subscribeThrows flushes else s
  | .startsClosing i => s.close i
  | .closes i =>
    if s.sockets[i]? = none ∨ s.sockets[i]? = some .closed then s else (s.setReadyState i .closed).onclose i
  | .message i message flushes => if s.sockets[i]? = some .opened then s.onmessage i message flushes else s
  | .ackFallback flushes =>
    if s.switchAckTimer then { s with switchAckTimer := false, switchAckPending := false }.flushOutboundQueue flushes else s
  | .reconnectTimer t =>
    if t ∈ s.timers then { s with timers := s.timers.filter (· ≠ t), refreshes := s.refreshes + 1 } else s
  | .refreshed token constructs =>
    if s.refreshes = 0 then s
    else { s with refreshes := s.refreshes - 1, authToken := (truthy token).or s.authToken }.connect none constructs
  | .tokenChanged token => { s with authToken := token }

end WebSocketClient

end PiWebUi.Client
