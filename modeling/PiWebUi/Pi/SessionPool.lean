/-
  PiWebUi.Pi.SessionPool — `SessionPool`: one `AgentSession` for each client, replaced by
  `createClientSession` and `switchClientSession`, dropped by `removeClient` and by
  `cleanupInactive`.

  A call runs until it awaits and then stands in `calls` under its number, with what it waits
  for: the teardown of the session it drops, `createSession`, or the header of the session
  file. `tornDown` is the end of a teardown (the shutdown event is bounded and never rejects),
  where the session is disposed; the calls that wait for it go on one by one (`resumed`).
  Every session `createSession` returns is new: it is known by its place in `sessions`, which
  holds its client and is read by nothing. Nor are `disposed` and `gone`: the `dispose` calls
  in their order, and the clients `removeClient` was called for since their last create or
  switch was issued. Which entry the loop of `cleanupInactive` comes to next is the
  environment's (`visit`).
-/

import PiWebUi.Lib.JsMap
import PiWebUi.Lib.JsString

namespace PiWebUi.Pi

open PiWebUi.Lib

/-- Times are in milliseconds. -/
structure ClientSession where
  clientId : JsString
  sessionId : ℕ
  cwd : JsString
  createdAt : ℤ
  lastActivity : ℤ
deriving DecidableEq

inductive SessionShutdown where
  | new
  | resume (targetSessionFile : JsString)
  | quit
deriving DecidableEq

/-- What a call that replaces a session was asked for; `existing` is the entry it found. -/
inductive Request where
  | create (cwd : Option JsString)
  | switch (sessionPath : JsString)
deriving DecidableEq

def Request.shutdown : Request → SessionShutdown
  | .create _ => .new
  | .switch sessionPath => .resume sessionPath

inductive Waiting where
  /-- For the teardown of the session that is being replaced. -/
  | replacing (clientId : JsString) (request : Request) (existing : ClientSession)
  /-- For `createSession`. -/
  | creating (clientId : JsString) (request : Request) (existing : Option ClientSession)
  /-- For the cwd in the session file's header; the new session is not stored yet. -/
  | readingCwd (clientId : JsString) (existing : Option ClientSession) (session : ℕ)
  /-- For the teardown of a removed session; `loop` is the `cleanupInactive` that removes it. -/
  | removing (session : ℕ) (loop : Option (ℤ × ℤ × ℕ))
  /-- In the loop of `cleanupInactive`: its clock reading, its timeout, how many it cleaned. -/
  | cleaning (now : ℤ) (timeoutMs : ℤ) (cleaned : ℕ)
deriving DecidableEq

/-- A string that is not empty: what `||` takes. -/
def truthy (s : Option JsString) : Option JsString := s.filter fun s => !s.isEmpty

structure SessionPool where
  processCwd : JsString
  clientSessions : JsMap JsString ClientSession
  poolTeardowns : JsMap ℕ SessionShutdown
  calls : JsMap ℕ Waiting
  nextCall : ℕ
  sessions : List JsString
  disposed : List ℕ
  gone : JsMap JsString Unit

inductive PoolEvent where
  | createClientSession (clientId : JsString) (cwd : Option JsString)
  | switchClientSession (clientId : JsString) (sessionPath : JsString)
  | removeClient (clientId : JsString)
  | cleanupInactive (now timeoutMs : ℤ)
  | updateActivity (clientId : JsString) (now : ℤ)
  | tornDown (session : ℕ)
  /-- Call `k` goes on after the teardown it waited for. -/
  | resumed (k : ℕ)
  | sessionCreated (k : ℕ) (now : ℤ)
  | sessionRejected (k : ℕ)
  /-- `readSessionCwd` answers call `k`; `none` where it finds nothing or throws. -/
  | cwdRead (k : ℕ) (cwd : Option JsString) (now : ℤ)
  /-- The loop of call `k` comes to the entry of a client. -/
  | visit (k : ℕ) (clientId : JsString)
  | loopEnded (k : ℕ)

namespace SessionPool

def new (processCwd : JsString) : SessionPool := ⟨processCwd, .empty, .empty, .empty, 0, [], [], .empty⟩

/-- A call begins to wait. -/
def await (s : SessionPool) (w : Waiting) : SessionPool := { s with calls := s.calls.set s.nextCall w, nextCall := s.nextCall + 1 }

/-- `teardownPoolSession`: one teardown of a session at a time. -/
def teardownPoolSession (s : SessionPool) (existing : ClientSession) (shutdown : SessionShutdown) : SessionPool :=
  if s.poolTeardowns.has existing.sessionId then s
  else { s with poolTeardowns := s.poolTeardowns.set existing.sessionId shutdown }

/-- A replacement is issued for a client. -/
def issued (s : SessionPool) (clientId : JsString) : SessionPool := { s with gone := s.gone.delete clientId }

/-- `createClientSession` and `switchClientSession` up to their first await. -/
def replace (s : SessionPool) (clientId : JsString) (request : Request) : SessionPool :=
  let s := s.issued clientId
  match s.clientSessions.get clientId with
  | some existing =>
    let s := { s with clientSessions := s.clientSessions.delete clientId }
    (s.teardownPoolSession existing request.shutdown).await (.replacing clientId request existing)
  | none => s.await (.creating clientId request none)

def createClientSession (s : SessionPool) (clientId : JsString) (cwd : Option JsString) : SessionPool :=
  s.replace clientId (.create cwd)

def switchClientSession (s : SessionPool) (clientId : JsString) (sessionPath : JsString) : SessionPool :=
  s.replace clientId (.switch sessionPath)

/-- `removeClient` of an entry, up to its await; `none` where it does not await. -/
def drop (s : SessionPool) (clientId : JsString) (clientSession : ClientSession) : SessionPool × Option ℕ :=
  let s := { s with clientSessions := s.clientSessions.delete clientId }
  let shared := s.clientSessions.values.any fun other => other.sessionId = clientSession.sessionId
  if shared then (s, none) else (s.teardownPoolSession clientSession .quit, some clientSession.sessionId)

def removeClient (s : SessionPool) (clientId : JsString) : SessionPool :=
  let s := { s with gone := s.gone.set clientId () }
  match s.clientSessions.get clientId with
  | none => s
  | some clientSession =>
    match s.drop clientId clientSession with
    | (s, none) => s
    | (s, some session) => s.await (.removing session none)

def cleanupInactive (s : SessionPool) (now timeoutMs : ℤ) : SessionPool := s.await (.cleaning now timeoutMs 0)

def updateActivity (s : SessionPool) (clientId : JsString) (now : ℤ) : SessionPool :=
  match s.clientSessions.get clientId with
  | none => s
  | some clientSession => { s with clientSessions := s.clientSessions.set clientId { clientSession with lastActivity := now } }

/-- A teardown ends: the session is disposed and its promise settles. -/
def tornDown (s : SessionPool) (session : ℕ) : SessionPool :=
  if s.poolTeardowns.has session then
    { s with poolTeardowns := s.poolTeardowns.delete session, disposed := s.disposed ++ [session] }
  else s

def setCall (s : SessionPool) (k : ℕ) (w : Waiting) : SessionPool := { s with calls := s.calls.set k w }

def settle (s : SessionPool) (k : ℕ) : SessionPool := { s with calls := s.calls.delete k }

def resumed (s : SessionPool) (k : ℕ) : SessionPool :=
  match s.calls.get k with
  | some (.replacing clientId request existing) =>
    if s.poolTeardowns.has existing.sessionId then s else s.setCall k (.creating clientId request (some existing))
  | some (.removing session loop) =>
    if s.poolTeardowns.has session then s
    else match loop with
      | none => s.settle k
      | some (now, timeoutMs, cleaned) => s.setCall k (.cleaning now timeoutMs (cleaned + 1))
  | _ => s

/-- `this.clientSessions.set(clientId, clientSession)`. -/
def store (s : SessionPool) (clientSession : ClientSession) : SessionPool :=
  { s with clientSessions := s.clientSessions.set clientSession.clientId clientSession }

/-- A session is new, and no one else's. -/
def fresh (s : SessionPool) (clientId : JsString) : SessionPool := { s with sessions := s.sessions ++ [clientId] }

def sessionCreated (s : SessionPool) (k : ℕ) (now : ℤ) : SessionPool :=
  match s.calls.get k with
  | some (.creating clientId (.create cwd) _) =>
    ((s.fresh clientId).store ⟨clientId, s.sessions.length, (truthy cwd).getD s.processCwd, now, now⟩).settle k
  | some (.creating clientId (.switch _) existing) =>
    (s.fresh clientId).setCall k (.readingCwd clientId existing s.sessions.length)
  | _ => s

def sessionRejected (s : SessionPool) (k : ℕ) : SessionPool :=
  match s.calls.get k with
  | some (.creating _ _ _) => s.settle k
  | _ => s

def cwdRead (s : SessionPool) (k : ℕ) (cwd : Option JsString) (now : ℤ) : SessionPool :=
  match s.calls.get k with
  | some (.readingCwd clientId existing session) =>
    let cwd := (truthy cwd).getD ((truthy (existing.map (·.cwd))).getD s.processCwd)
    (s.store ⟨clientId, session, cwd, (existing.map (·.createdAt)).getD now, now⟩).settle k
  | _ => s

def visit (s : SessionPool) (k : ℕ) (clientId : JsString) : SessionPool :=
  match s.calls.get k, s.clientSessions.get clientId with
  | some (.cleaning now timeoutMs cleaned), some clientSession =>
    if now - clientSession.lastActivity > timeoutMs then
      match s.drop clientId clientSession with
      | (s, none) => s.setCall k (.cleaning now timeoutMs (cleaned + 1))
      | (s, some session) => s.setCall k (.removing session (some (now, timeoutMs, cleaned)))
    else s
  | _, _ => s

def loopEnded (s : SessionPool) (k : ℕ) : SessionPool :=
  match s.calls.get k with
  | some (.cleaning _ _ _) => s.settle k
  | _ => s

def step (s : SessionPool) : PoolEvent → SessionPool
  | .createClientSession clientId cwd => s.createClientSession clientId cwd
  | .switchClientSession clientId sessionPath => s.switchClientSession clientId sessionPath
  | .removeClient clientId => s.removeClient clientId
  | .cleanupInactive now timeoutMs => s.cleanupInactive now timeoutMs
  | .updateActivity clientId now => s.updateActivity clientId now
  | .tornDown session => s.tornDown session
  | .resumed k => s.resumed k
  | .sessionCreated k now => s.sessionCreated k now
  | .sessionRejected k => s.sessionRejected k
  | .cwdRead k cwd now => s.cwdRead k cwd now
  | .visit k clientId => s.visit k clientId
  | .loopEnded k => s.loopEnded k

/-! ## Sessions that no one holds -/

/-- The session is the one registered for its client. -/
def registers (s : SessionPool) (session : ℕ) : Bool :=
  s.sessions[session]?.any fun clientId => (s.clientSessions.get clientId).any (·.sessionId = session)

/-- Once every call has settled, a session is registered for its client or has been disposed,
    once; and a client that was removed after its last replacement was issued has none. -/
def NoOrphans (s : SessionPool) : Prop :=
  s.calls.entries = [] →
    (∀ session < s.sessions.length, s.disposed.count session = if s.registers session then 0 else 1) ∧
    ∀ clientId, s.gone.has clientId = true → s.clientSessions.get clientId = none

/-- The client has no entry, and was not removed since the replacement was issued. -/
def canStore (s : SessionPool) (clientId : JsString) : Bool :=
  (s.clientSessions.get clientId).isNone && !s.gone.has clientId

/-- The steps that store an entry find none and no removal they would undo. -/
def StoresAlone (s : SessionPool) : PoolEvent → Prop
  | .sessionCreated k _ =>
    ∀ clientId cwd existing, s.calls.get k = some (.creating clientId (.create cwd) existing) → s.canStore clientId = true
  | .cwdRead k _ _ =>
    ∀ clientId existing session, s.calls.get k = some (.readingCwd clientId existing session) → s.canStore clientId = true
  | _ => True

end SessionPool

end PiWebUi.Pi
