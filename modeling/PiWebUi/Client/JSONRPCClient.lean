/-
  PiWebUi.Client.JSONRPCClient — JSON-RPC over a socket: the handshake, the reconnects and
  the requests that wait for a response.

  A socket's listeners of `connect` and its permanent ones run in the order they were
  added; the promise of a reconnect's `connect` is caught right after it is rejected. A
  socket is closed when its error event comes, and its close event comes later. A request is an entry of `requests` with every call of its `resolve` and `reject`. Whether
  a socket can be constructed and a request can be sent are the environment's; handlers of
  the application do not call the client. `requests`, `final` and `strayed` are read by
  nothing.
-/

import PiWebUi.Client.WebSocketClient
import PiWebUi.Lib.JsMap

namespace PiWebUi.Client

open PiWebUi.Lib

inductive ConnectionState where
  | connecting
  | connected
  | disconnecting
  | disconnected
deriving DecidableEq

structure RpcSocket where
  readyState : ReadyState
  /-- Its close event was fired. -/
  closeFired : Bool
  /-- The listeners of `connect` are still there. -/
  handshake : Bool
  /-- The promise of `connect` is not settled. -/
  awaited : Bool
  /-- The reconnect timer called `connect`. -/
  reconnect : Bool
deriving DecidableEq

/-- What a request is settled with; a response is one with the text of an id. -/
inductive Outcome where
  | result (id : JsString)
  | error (id : JsString)
  | timeout
  | connectionError
  /-- The request could not be sent. -/
  | thrown
deriving DecidableEq

structure Request where
  id : Option ℕ
  settlements : List Outcome
deriving DecidableEq

structure PendingRequest where
  id : ℕ
  request : ℕ
deriving DecidableEq

/-- What a response holds beside its id. -/
inductive ResponseBody where
  | result
  | error
  | neither
deriving DecidableEq

structure JSONRPCClient where
  maxReconnectAttempts : ℕ
  sockets : List RpcSocket
  ws : Option ℕ
  url : Option JsString
  requestTracker : JsMap JsString PendingRequest
  /-- The timeouts of requests that are pending. -/
  timeouts : List PendingRequest
  requestIdCounter : ℕ
  connectionState : ConnectionState
  reconnectAttempts : ℕ
  timers : List ℕ
  timersMade : ℕ
  reconnectTimer : Option ℕ
  requests : List Request
  final : Bool
  strayed : Bool
deriving DecidableEq

inductive RpcEvent where
  | connect (url : JsString) (constructs : Bool)
  | disconnect
  | request (throws : Bool)
  | opens (i : ℕ)
  | errors (i : ℕ)
  | startsClosing (i : ℕ)
  | closes (i : ℕ)
  | response (i : ℕ) (id : JsString) (body : ResponseBody)
  | timeout (id : ℕ)
  | reconnectTimer (t : ℕ) (constructs : Bool)
deriving DecidableEq

namespace JSONRPCClient

def createJSONRPCClient (maxReconnectAttempts : ℕ) : JSONRPCClient :=
  { maxReconnectAttempts := maxReconnectAttempts, sockets := [], ws := none, url := none, requestTracker := .empty, timeouts := []
    requestIdCounter := 0, connectionState := .disconnected, reconnectAttempts := 0, timers := [], timersMade := 0
    reconnectTimer := none, requests := [], final := false, strayed := false }

def readyState (s : JSONRPCClient) (i : ℕ) : Option ReadyState := s.sockets[i]?.map RpcSocket.readyState

def isConnected (s : JSONRPCClient) : Bool := s.ws.bind s.readyState = some .opened

def onSocket (s : JSONRPCClient) (i : ℕ) (f : RpcSocket → RpcSocket) : JSONRPCClient := { s with sockets := s.sockets.modify i f }

/-- A call of `resolve` or `reject`. -/
def settle (requests : List Request) (k : ℕ) (o : Outcome) : List Request :=
  requests.modify k fun r => { r with settlements := r.settlements ++ [o] }

def rejectAllPending (s : JSONRPCClient) : JSONRPCClient :=
  { s with
    requests := s.requestTracker.values.foldl (fun requests w => settle requests w.request .connectionError) s.requests
    timeouts := s.timeouts.filter (· ∉ s.requestTracker.values)
    requestTracker := .empty }

def attemptReconnect (s : JSONRPCClient) : JSONRPCClient :=
  if s.maxReconnectAttempts ≤ s.reconnectAttempts then { s with connectionState := .disconnected }
  else
    { s with
      reconnectAttempts := s.reconnectAttempts + 1
      connectionState := .connecting
      timers := s.timers ++ [s.timersMade]
      timersMade := s.timersMade + 1
      reconnectTimer := some s.timersMade }

/-- The reconnect timer's `connect` was rejected. -/
def reconnectFailed (s : JSONRPCClient) : JSONRPCClient :=
  if s.reconnectAttempts < s.maxReconnectAttempts then s.attemptReconnect else { s with connectionState := .disconnected }

def startClosing (k : RpcSocket) : RpcSocket := if k.readyState.live then { k with readyState := .closing } else k

def closeSocket (s : JSONRPCClient) : JSONRPCClient :=
  match s.ws with
  | some i => s.onSocket i startClosing
  | none => s

def disconnect (s : JSONRPCClient) : JSONRPCClient :=
  if s.connectionState = .disconnected ∨ s.connectionState = .disconnecting then s
  else
    let s := { s with timers := s.timers.filter fun t => some t ≠ s.reconnectTimer, reconnectTimer := none }.rejectAllPending
    { s.closeSocket with ws := none, connectionState := .disconnected }

/-- `connect` past its guard. -/
def establish (s : JSONRPCClient) (url : JsString) (constructs reconnect : Bool) : JSONRPCClient :=
  if constructs then
    { s with
      url := some url
      connectionState := .connecting
      sockets := s.sockets ++ [⟨.connecting, false, true, true, reconnect⟩]
      ws := some s.sockets.length
      strayed := s.strayed || s.final }
  else { s with url := some url, connectionState := .disconnected }

def connect (s : JSONRPCClient) (url : JsString) (constructs : Bool) : JSONRPCClient :=
  if s.connectionState = .connected ∨ s.connectionState = .connecting then
    if s.url = some url then s else s.disconnect.establish url constructs false
  else s.establish url constructs false

/-- The listeners are taken off the socket the client has now. -/
def cleanup (s : JSONRPCClient) (i : ℕ) : JSONRPCClient :=
  if s.ws = some i then s.onSocket i fun k => { k with handshake := false } else s

/-- The promise of a `connect` is rejected. -/
def rejectConnect (s : JSONRPCClient) (i : ℕ) (k : RpcSocket) : JSONRPCClient :=
  if k.awaited then
    let s := s.onSocket i fun k => { k with awaited := false }
    if k.reconnect then s.reconnectFailed else s
  else s

def onOpen (s : JSONRPCClient) (i : ℕ) : JSONRPCClient :=
  { (s.cleanup i).onSocket i fun k => { k with awaited := false } with connectionState := .connected, reconnectAttempts := 0 }

def handleClose (s : JSONRPCClient) : JSONRPCClient :=
  let s := s.rejectAllPending
  if (truthy s.url).isSome ∧ s.connectionState ≠ .disconnecting then s.attemptReconnect
  else { s with connectionState := .disconnected }

def request (s : JSONRPCClient) (throws : Bool) : JSONRPCClient :=
  if s.isConnected = false then { s with requests := s.requests ++ [⟨none, [.connectionError]⟩] }
  else
    let id := s.requestIdCounter + 1
    let pending : PendingRequest := ⟨id, s.requests.length⟩
    { s with
      requestIdCounter := id
      timeouts := s.timeouts ++ [pending]
      requestTracker := s.requestTracker.set (JsNumber.natText id) pending
      requests := s.requests ++ [⟨some id, if throws then [.thrown] else []⟩] }

def handleResponse (s : JSONRPCClient) (id : JsString) (body : ResponseBody) : JSONRPCClient :=
  match s.requestTracker.get id with
  | none => s
  | some pending =>
    { s with
      timeouts := s.timeouts.filter (· ≠ pending)
      requestTracker := s.requestTracker.delete id
      requests := match body with
        | .result => settle s.requests pending.request (.result id)
        | .error => settle s.requests pending.request (.error id)
        -- reading the error of a response that has none throws
        | .neither => s.requests }

def timedOut (s : JSONRPCClient) (pending : PendingRequest) : JSONRPCClient :=
  { s with
    timeouts := s.timeouts.filter (· ≠ pending)
    requestTracker := s.requestTracker.delete (JsNumber.natText pending.id)
    requests := settle s.requests pending.request .timeout }

def reconnects (s : JSONRPCClient) (t : ℕ) (constructs : Bool) : JSONRPCClient :=
  let s := { s with timers := s.timers.filter (· ≠ t) }
  match truthy s.url with
  | none => s
  | some url =>
    let s := { s with ws := none, connectionState := .disconnected }.establish url constructs true
    if constructs then s else s.reconnectFailed

def step (s : JSONRPCClient) : RpcEvent → JSONRPCClient
  | .connect url constructs => { s with final := false }.connect url constructs
  | .disconnect => { s.disconnect with final := true }
  | .request throws => s.request throws
  | .opens i =>
    match s.sockets[i]? with
    | some k =>
      if k.readyState = .connecting then
        let s := s.onSocket i fun k => { k with readyState := .opened }
        if k.handshake then s.onOpen i else s
      else s
    | none => s
  | .errors i =>
    match s.sockets[i]? with
    | some k =>
      if k.readyState ≠ .closed then
        let s := s.onSocket i fun k => { k with readyState := .closed }
        if k.handshake then (s.cleanup i).rejectConnect i k else s
      else s
    | none => s
  | .startsClosing i => s.onSocket i startClosing
  | .closes i =>
    match s.sockets[i]? with
    | some k =>
      if k.closeFired = false then
        let s := s.onSocket i fun k => { k with readyState := .closed, closeFired := true }
        (if k.handshake then (s.cleanup i).rejectConnect i k else s).handleClose
      else s
    | none => s
  | .response i id body => if s.readyState i = some .opened then s.handleResponse id body else s
  | .timeout id =>
    match s.timeouts.find? (·.id = id) with
    | some pending => s.timedOut pending
    | none => s
  | .reconnectTimer t constructs => if t ∈ s.timers then s.reconnects t constructs else s

end JSONRPCClient

end PiWebUi.Client
