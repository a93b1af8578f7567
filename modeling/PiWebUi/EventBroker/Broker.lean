/-
  PiWebUi.EventBroker.Broker — the per-session event broker (event-broker.ts).

  `publish` sends an event to every subscriber of its session and keeps it for replay.
  `message_update`s above the session's token bucket coalesce into one pending update,
  which goes out before the next event that is not held back. Replay buffers are bounded
  by count and bytes per session, by bytes across sessions (cold sessions, those without
  subscribers, go first) and by the number of cold sessions; each eviction pass makes at
  most 10,000 evictions.
-/

import PiWebUi.EventBroker.PayloadBudget
import PiWebUi.Lib.JsMap

namespace PiWebUi.EventBroker

open Lib

abbrev SessionId := JsString

abbrev SubscriberId := ℕ

structure BufferedEvent where
  event : NormalizedEvent
  bytes : ℕ

structure RateState where
  tokens : JsNumber
  lastMs : JsNumber
  deriving DecidableEq

structure PendingUpdate where
  event : NormalizedEvent
  coalesced : ℕ

structure Options where
  replayBufferSize : JsNumber := num 50
  replayBufferMaxBytes : JsNumber := num (8 * 1024 * 1024)
  replayBudgetMaxBytes : JsNumber := num (32 * 1024 * 1024)
  coldKeyLimit : JsNumber := num 1000
  eventPayloadMaxBytes : JsNumber := num (256 * 1024)
  eventRateLimitPerSec : JsNumber := num 200
  /-- `none` when the enricher throws. -/
  eventEnricher : Option (SessionId → NormalizedEvent → Option NormalizedEvent) := none

/-- What the constructor keeps of its options. -/
structure Config where
  replayBufferSize : JsNumber
  replayBufferMaxBytes : JsNumber
  replayBudgetMaxBytes : JsNumber
  coldKeyLimit : JsNumber
  eventPayloadMaxBytes : JsNumber
  eventRateLimitPerSec : JsNumber
  eventRateBurst : JsNumber
  eventEnricher : Option (SessionId → NormalizedEvent → Option NormalizedEvent)

def config (options : Options) : Config :=
  let eventRateLimitPerSec := (num 1).max options.eventRateLimitPerSec
  { replayBufferSize := (num 0).max options.replayBufferSize
    replayBufferMaxBytes := (num 0).max options.replayBufferMaxBytes
    replayBudgetMaxBytes := (num 0).max options.replayBudgetMaxBytes
    coldKeyLimit := (num 1).max options.coldKeyLimit
    eventPayloadMaxBytes := (num 0).max options.eventPayloadMaxBytes
    eventRateLimitPerSec
    eventRateBurst := eventRateLimitPerSec.mul (num 2)
    eventEnricher := options.eventEnricher }

/-- The sets of subscribers are maps to the unit. -/
structure Broker where
  subscribers : JsMap SessionId (JsMap SubscriberId Unit)
  replayBuffers : JsMap SessionId (List BufferedEvent)
  replayBufferBytes : JsMap SessionId ℕ
  rateStates : JsMap SessionId RateState
  pendingUpdates : JsMap SessionId PendingUpdate
  retainedBytesTotal : ℕ
  evictedEventsBySession : JsMap SessionId ℕ

def init : Broker := ⟨.empty, .empty, .empty, .empty, .empty, 0, .empty⟩

structure Env where
  now : JsNumber
  shedding : Bool
  disposed : Bool

/-- A callback invoked with an event of a session. -/
structure Invocation where
  session : SessionId
  subscriber : SubscriberId
  event : NormalizedEvent

variable (c : Config)

/-! ## Eviction -/

/-- Drop the oldest markers above the bound. -/
def boundMarkers : ℕ → JsMap SessionId ℕ → JsMap SessionId ℕ
  | 0, m => m
  | n + 1, m =>
    if (c.coldKeyLimit.max (num 1000)).lt (num m.size) then
      match m.keys with
      | oldest :: _ => boundMarkers n (m.delete oldest)
      | [] => m
    else m

def markEvicted (k : SessionId) (events : ℕ) (b : Broker) : Broker :=
  let marked := b.evictedEventsBySession.set k ((b.evictedEventsBySession.get k).getD 0 + events)
  { b with evictedEventsBySession := boundMarkers c marked.size marked }

/-- Drop every bookkeeping entry of a session. -/
def dropSessionState (k : SessionId) (evictedEvents : ℕ) (b : Broker) : Broker :=
  let bytes := (b.replayBufferBytes.get k).getD 0
  let count := if evictedEvents > 0 then evictedEvents else ((b.replayBuffers.get k).getD []).length
  let dropped :=
    { b with
      replayBuffers := b.replayBuffers.delete k
      replayBufferBytes := b.replayBufferBytes.delete k
      rateStates := b.rateStates.delete k
      pendingUpdates := b.pendingUpdates.delete k
      retainedBytesTotal := b.retainedBytesTotal - bytes }
  if count > 0 then markEvicted c k count dropped else dropped

/-- The first session that holds a buffer and has no subscriber. -/
def coldKey (b : Broker) : Option SessionId := b.replayBuffers.keys.find? fun k => !b.subscribers.has k

/-- `debugColdKeyCount`. -/
def coldKeyCount (b : Broker) : ℕ := b.replayBuffers.keys.countP fun k => !b.subscribers.has k

/-- Trim the oldest event of a session. -/
def evictOldest (k : SessionId) (old : BufferedEvent) (buffer : List BufferedEvent) (b : Broker) : Broker :=
  markEvicted c k 1
    { b with
      replayBuffers := b.replayBuffers.set k buffer
      replayBufferBytes := b.replayBufferBytes.set k ((b.replayBufferBytes.get k).getD 0 - old.bytes)
      retainedBytesTotal := b.retainedBytesTotal - old.bytes }

/-- One eviction for the byte budget: the first cold session whole, else the oldest
    event of the first session. -/
def evictOnce (b : Broker) : Broker :=
  match coldKey b with
  | some k => dropSessionState c k 0 b
  | none =>
    match b.replayBuffers.entries with
    | [] => b
    | (k, []) :: _ => { b with replayBuffers := b.replayBuffers.delete k }
    | (k, old :: buffer) :: _ => evictOldest c k old buffer b

def overBudget (b : Broker) : Bool :=
  c.replayBudgetMaxBytes.lt (num b.retainedBytesTotal) && 0 < b.replayBuffers.size

def evictBudget : ℕ → Broker → Broker
  | 0, b => b
  | n + 1, b => if overBudget c b then evictBudget n (evictOnce c b) else b

def overColdKeys (b : Broker) : Bool := c.coldKeyLimit.lt (num (coldKeyCount b))

def evictColdKeys : ℕ → Broker → Broker
  | 0, b => b
  | n + 1, b =>
    if overColdKeys c b then
      match coldKey b with
      | some k => evictColdKeys n (dropSessionState c k 0 b)
      | none => b
    else b

/-- The iteration guard of both eviction passes. -/
def GUARD : ℕ := 10000

def enforceGlobalBounds (b : Broker) : Broker := evictColdKeys c GUARD (evictBudget c GUARD b)

/-! ## Delivery -/

/-- Trim the oldest events above the count; the second value is the session's bytes. -/
def trimCount : List BufferedEvent → ℕ → Broker → List BufferedEvent × ℕ × Broker
  | [], bytes, b => ([], bytes, b)
  | old :: buffer, bytes, b =>
    if c.replayBufferSize.lt (num (buffer.length + 1)) then
      trimCount buffer (bytes - old.bytes) { b with retainedBytesTotal := b.retainedBytesTotal - old.bytes }
    else (old :: buffer, bytes, b)

/-- Trim the oldest events above the session's bytes. -/
def trimBytes (k : SessionId) : List BufferedEvent → ℕ → Broker → List BufferedEvent × ℕ × Broker
  | [], bytes, b => ([], bytes, b)
  | old :: buffer, bytes, b =>
    if c.replayBufferMaxBytes.lt (num bytes) then
      trimBytes k buffer (bytes - old.bytes)
        (markEvicted c k 1 { b with retainedBytesTotal := b.retainedBytesTotal - old.bytes })
    else (old :: buffer, bytes, b)

/-- The session's buffer, bytes and broker once a measured event was pushed and the
    buffer trimmed by count, then by bytes. -/
def pushed (k : SessionId) (m : MeasuredEvent) (b : Broker) : List BufferedEvent × ℕ × Broker :=
  trimCount c ((b.replayBuffers.get k).getD [] ++ [⟨m.event, m.bytes⟩]) ((b.replayBufferBytes.get k).getD 0 + m.bytes)
    { b with retainedBytesTotal := b.retainedBytesTotal + m.bytes }

def trimmed (k : SessionId) (m : MeasuredEvent) (b : Broker) : List BufferedEvent × ℕ × Broker :=
  trimBytes c k (pushed c k m b).1 (pushed c k m b).2.1 (pushed c k m b).2.2

/-- Keep a measured event for replay, within the session's own bounds. -/
def retain (k : SessionId) (m : MeasuredEvent) (b : Broker) : Broker :=
  let (buffer, bytes, b) := trimmed c k m b
  { b with
    replayBuffers := b.replayBuffers.set k buffer
    replayBufferBytes := b.replayBufferBytes.set k bytes }

def deliver (k : SessionId) (e : NormalizedEvent) (b : Broker) : Broker × List Invocation :=
  let measured := measureAndSlim e c.eventPayloadMaxBytes
  let kept :=
    if (num 0).lt c.replayBufferSize || (num 0).lt c.replayBufferMaxBytes then
      enforceGlobalBounds c (retain c k measured b)
    else b
  (kept, ((kept.subscribers.get k).getD .empty).keys.map fun s => ⟨k, s, measured.event⟩)

/-! ## Publishing -/

def isUpdate (e : NormalizedEvent) : Bool := e.type = NormalizedEvent.message_update

/-- `{ ...data }`: the own enumerable properties of a value. -/
def spread : Option Json → List (JsString × Json)
  | some (.obj fs) => fs
  | some (.arr xs) => xs.zipIdx.map fun x => (JsNumber.natText x.2, x.1)
  | some (.str s) => s.zipIdx.map fun x => (JsNumber.natText x.2, .str [x.1])
  | _ => []

def shedMessageUpdate (e : NormalizedEvent) : NormalizedEvent :=
  let id := member (member e.data (js "message")) (js "id")
  { e with data := some (.obj [(js "message", .obj (id.map fun v => (js "id", v)).toList)]) }

/-- The event that goes on the stream for a published one: enriched, then shed. -/
def admitted (k : SessionId) (e : NormalizedEvent) (env : Env) : NormalizedEvent :=
  let e := match c.eventEnricher with
    | some f => (f k e).getD e
    | none => e
  if isUpdate e && env.shedding then shedMessageUpdate e else e

def refill (k : SessionId) (now : JsNumber) (b : Broker) : Broker :=
  let state := (b.rateStates.get k).getD ⟨c.eventRateBurst, now⟩
  let tokens := c.eventRateBurst.min
    (state.tokens.add (((now.sub state.lastMs).mul c.eventRateLimitPerSec).divNat 1000))
  { b with rateStates := b.rateStates.set k ⟨tokens, now⟩ }

def availableTokens (k : SessionId) (b : Broker) : JsNumber :=
  ((b.rateStates.get k).map (·.tokens)).getD c.eventRateBurst

/-- Replace the session's tokens, when it has a rate state. -/
def spend (k : SessionId) (f : JsNumber → JsNumber) (b : Broker) : Broker :=
  match b.rateStates.get k with
  | some state => { b with rateStates := b.rateStates.set k { state with tokens := f state.tokens } }
  | none => b

/-- The event a pending update goes out as. -/
def stamped (p : PendingUpdate) : NormalizedEvent :=
  let data := spread p.event.data
  { p.event with
    data := some (.obj
      (if p.coalesced > 0 then Json.setField data (js "coalescedDeltas") (.num (num p.coalesced)) else data)) }

def flushPending (k : SessionId) (b : Broker) : Broker × List Invocation :=
  match b.pendingUpdates.get k with
  | none => (b, [])
  | some p =>
    let b := { b with pendingUpdates := b.pendingUpdates.delete k }
    deliver c k (stamped p) (spend k (fun tokens => (num 0).max (tokens.sub (num 1))) b)

/-- Hold an update back; it absorbs the one already pending. -/
def hold (k : SessionId) (e : NormalizedEvent) (b : Broker) : Broker :=
  let coalesced := match b.pendingUpdates.get k with
    | some p => p.coalesced + 1
    | none => 0
  { b with pendingUpdates := b.pendingUpdates.set k ⟨e, coalesced⟩ }

def publishUpdate (k : SessionId) (e : NormalizedEvent) (now : JsNumber) (b : Broker) : Broker × List Invocation :=
  let b := refill c k now b
  let flushed :=
    if b.pendingUpdates.has k && (num 1).lt (availableTokens c k b) then flushPending c k b else (b, [])
  if (availableTokens c k flushed.1).le (num 1) then (hold k e flushed.1, flushed.2)
  else
    let sent := deliver c k e (spend k (fun tokens => tokens.sub (num 1)) flushed.1)
    (sent.1, flushed.2 ++ sent.2)

def publish (k : SessionId) (e : NormalizedEvent) (env : Env) (b : Broker) : Broker × List Invocation :=
  if env.disposed then (b, [])
  else
    let e := admitted c k e env
    if isUpdate e then publishUpdate c k e env.now b
    else
      let flushed := flushPending c k b
      let sent := deliver c k e flushed.1
      (sent.1, flushed.2 ++ sent.2)

/-! ## Subscribers -/

def subscribe (k : SessionId) (s : SubscriberId) (replay disposed : Bool) (b : Broker) : Broker × List Invocation :=
  if disposed then (b, [])
  else
    let set := (b.subscribers.get k).getD .empty
    let b := { b with subscribers := b.subscribers.set k (set.set s ()) }
    (b, if replay then ((b.replayBuffers.get k).getD []).map fun entry => ⟨k, s, entry.event⟩ else [])

def unsubscribe (k : SessionId) (s : SubscriberId) (b : Broker) : Broker :=
  match b.subscribers.get k with
  | none => b
  | some set =>
    let set := set.delete s
    if set.size = 0 then { b with subscribers := b.subscribers.delete k }
    else { b with subscribers := b.subscribers.set k set }

def clear (k : SessionId) (b : Broker) : Broker :=
  let b := dropSessionState c k 0 { b with subscribers := b.subscribers.delete k }
  { b with evictedEventsBySession := b.evictedEventsBySession.delete k }

def clearAll (b : Broker) : Broker :=
  { b with
    subscribers := .empty
    replayBuffers := .empty
    replayBufferBytes := .empty
    rateStates := .empty
    pendingUpdates := .empty
    retainedBytesTotal := 0 }

inductive Op where
  | subscribe (k : SessionId) (s : SubscriberId) (replay disposed : Bool)
  | unsubscribe (k : SessionId) (s : SubscriberId)
  | publish (k : SessionId) (e : NormalizedEvent) (env : Env)
  | clear (k : SessionId)
  | clearAll

def step (b : Broker) : Op → Broker × List Invocation
  | .subscribe k s replay disposed => subscribe k s replay disposed b
  | .unsubscribe k s => (unsubscribe k s b, [])
  | .publish k e env => publish c k e env b
  | .clear k => (clear c k b, [])
  | .clearAll => (clearAll b, [])

end PiWebUi.EventBroker
