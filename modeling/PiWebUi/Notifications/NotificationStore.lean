/-
  PiWebUi.Notifications.NotificationStore — the outbox and the delivery log: what is queued
  is in the outbox until it is delivered or given up, and then in the log, newest first and
  up to a cap.

  Each list has its file and the writes of it. The methods change the lists at once and
  wait for a write; `settle` is the write's promise, with what the method does after it.
  An event is a call, a step of the write that runs, or a crash and the `init` after it.
  Objects are told apart by `ref`. A write that is swallowed settles well with no rename.
  An index past the end of a list is its end. `created`, `dropped`, `evicted`, `logged`,
  `resolved` and `recorded` are read by nothing.
-/

import PiWebUi.Lib.JsString
import PiWebUi.Lib.JsMap
import PiWebUi.Lib.Run
import PiWebUi.Lib.WriteChain

namespace PiWebUi.Notifications

open PiWebUi.Lib

structure Notification where
  id : ℕ
  actions : List JsString
  actionHandler : Option JsString
  actionRef : Option JsString
deriving DecidableEq

inductive DeliveryStatus where
  | pending
  | sent
  | failed
deriving DecidableEq

structure DeliveryRecord where
  status : DeliveryStatus
  attempts : ℕ
  lastError : Option JsString
  deliveredAt : Option JsString
deriving DecidableEq

structure NotificationIngressIdentity where
  keyHash : JsString
  fingerprint : JsString
deriving DecidableEq

structure NotificationActionTaken where
  action : JsString
  time : JsString
  result : JsString
deriving DecidableEq

structure QueuedNotification where
  /-- The object. -/
  ref : ℕ
  notification : Notification
  delivery : DeliveryRecord
  ingress : Option NotificationIngressIdentity
  actionTaken : Option NotificationActionTaken
deriving DecidableEq

def QueuedNotification.id (x : QueuedNotification) : ℕ := x.notification.id

def QueuedNotification.keyHash (x : QueuedNotification) : Option JsString := x.ingress.map (·.keyHash)

def ids (l : List QueuedNotification) : List ℕ := l.map (·.id)

/-- Who waits for a write. -/
inductive StoreOp where
  | enqueue (item : QueuedNotification)
  /-- `markSent`, or a `recordFailure` that is terminal, waits for the log. -/
  | terminal (idx : ℕ) (item logEntry : QueuedNotification) (priorLog : List QueuedNotification)
  /-- It waits for the outbox. -/
  | cleanUp (id : ℕ)
  | retry (id : ℕ)
  | action (idx : ℕ) (previous updated : QueuedNotification)
deriving DecidableEq

inductive Ledger where
  | outbox
  | log
deriving DecidableEq

abbrev LedgerFile := WriteChain (List QueuedNotification) StoreOp

structure NotificationStore where
  maxRecords : ℕ
  outbox : List QueuedNotification
  log : List QueuedNotification
  ingressReservations : JsMap JsString QueuedNotification
  outboxFile : LedgerFile
  logFile : LedgerFile
  nextRef : ℕ
  /-- The notifications that were queued, by id. -/
  created : List (Notification × Option NotificationIngressIdentity)
  /-- Log entries the cap took and nothing put back. -/
  dropped : List QueuedNotification
  /-- Notifications the cap took. -/
  evicted : List ℕ
  /-- Notifications that were in the log's file. -/
  logged : List ℕ
  /-- Notifications whose `enqueue` resolved. -/
  resolved : List ℕ
  /-- The calls of `recordAction` that returned true. -/
  recorded : List (ℕ × NotificationActionTaken)
deriving DecidableEq

/-- The actions of a notification. -/
structure ActionSpec where
  actions : List JsString
  actionHandler : Option JsString
  actionRef : Option JsString
deriving DecidableEq

inductive StoreEvent where
  | enqueue (spec : ActionSpec)
  | enqueueIdempotent (spec : ActionSpec) (ingress : NotificationIngressIdentity)
  | markSent (id : ℕ) (deliveredAt : JsString)
  | recordFailure (id : ℕ) (lastError : JsString) (terminal : Bool)
  | recordAction (id : ℕ) (taken : NotificationActionTaken)
  | stringify (f : Ledger)
  | rename (f : Ledger)
  | settle (f : Ledger) (ok : Bool)
  | init (outboxRead logRead persisted : Bool)
deriving DecidableEq

namespace NotificationStore

def new (maxRecords : ℕ) : NotificationStore := ⟨maxRecords, [], [], .empty, .new [], .new [], 0, [], [], [], [], [], []⟩

/-- `findIndex` by id, with what is there. -/
def lookup (l : List QueuedNotification) (id : ℕ) : Option (ℕ × QueuedNotification) :=
  (l.findIdx? (·.id = id)).bind fun idx => l[idx]?.map (idx, ·)

def getById (s : NotificationStore) (id : ℕ) : Option QueuedNotification :=
  (s.outbox.find? (·.id = id)).or (s.log.find? (·.id = id))

def getByIngressKeyHash (s : NotificationStore) (keyHash : JsString) : Option QueuedNotification :=
  (s.outbox.find? (·.keyHash = some keyHash)).or (s.log.find? (·.keyHash = some keyHash))

/-! ## The calls -/

/-- `enqueue` of an item that was built for it. -/
def enqueue (s : NotificationStore) (spec : ActionSpec) (ingress : Option NotificationIngressIdentity) : NotificationStore :=
  let notification : Notification := ⟨s.created.length, spec.actions, spec.actionHandler, spec.actionRef⟩
  let item : QueuedNotification := ⟨s.nextRef, notification, ⟨.pending, 0, none, none⟩, ingress, none⟩
  { s with
    outbox := s.outbox ++ [item]
    ingressReservations := match ingress with
      | some i => s.ingressReservations.set i.keyHash item
      | none => s.ingressReservations
    outboxFile := s.outboxFile.persist (.enqueue item)
    nextRef := s.nextRef + 1
    created := s.created ++ [(notification, ingress)] }

/-- A reserved key is waited for; one that is retained is answered with what has it. -/
def enqueueIdempotent (s : NotificationStore) (spec : ActionSpec) (ingress : NotificationIngressIdentity) : NotificationStore :=
  if (s.ingressReservations.get ingress.keyHash).isSome ∨ (s.getByIngressKeyHash ingress.keyHash).isSome then s
  else s.enqueue spec (some ingress)

/-- The item leaves the outbox and a new entry is pushed to the log. -/
def finish (s : NotificationStore) (idx : ℕ) (item : QueuedNotification) (delivery : DeliveryRecord) : NotificationStore :=
  let logEntry : QueuedNotification := ⟨s.nextRef, item.notification, delivery, item.ingress, none⟩
  { s with
    outbox := s.outbox.eraseIdx idx
    log := (logEntry :: s.log).take s.maxRecords
    logFile := s.logFile.persist (.terminal idx item logEntry s.log)
    nextRef := s.nextRef + 1
    dropped := s.dropped ++ (logEntry :: s.log).drop s.maxRecords
    evicted := s.evicted ++ ids ((logEntry :: s.log).drop s.maxRecords) }

def markSent (s : NotificationStore) (id : ℕ) (deliveredAt : JsString) : NotificationStore :=
  match lookup s.outbox id with
  | none => s
  | some (idx, item) => s.finish idx item { item.delivery with status := .sent, deliveredAt := some deliveredAt }

def recordFailure (s : NotificationStore) (id : ℕ) (lastError : JsString) (terminal : Bool) : NotificationStore :=
  match lookup s.outbox id with
  | none => s
  | some (idx, item) =>
    let attempts := item.delivery.attempts + 1
    if terminal then
      s.finish idx item { item.delivery with status := .failed, attempts := attempts, lastError := some lastError }
    else
      { s with
        outbox := s.outbox.set idx
          ⟨s.nextRef, item.notification, { item.delivery with status := .pending, attempts := attempts, lastError := some lastError },
            item.ingress, none⟩
        outboxFile := s.outboxFile.persist (.retry id)
        nextRef := s.nextRef + 1 }

/-- Pending items first, then log entries; the first action is kept. -/
def recordAction (s : NotificationStore) (id : ℕ) (taken : NotificationActionTaken) : NotificationStore :=
  match lookup s.outbox id with
  | some (idx, existing) =>
    if existing.actionTaken.isSome then s
    else
      let updated := { existing with ref := s.nextRef, actionTaken := some taken }
      { s with
        outbox := s.outbox.set idx updated
        outboxFile := s.outboxFile.persist (.action idx existing updated)
        nextRef := s.nextRef + 1 }
  | none =>
    match lookup s.log id with
    | some (idx, existing) =>
      if existing.actionTaken.isSome then s
      else
        let updated := { existing with ref := s.nextRef, actionTaken := some taken }
        { s with
          log := s.log.set idx updated
          logFile := s.logFile.persist (.action idx existing updated)
          nextRef := s.nextRef + 1 }
    | none => s

/-! ## The writes -/

def stringify (s : NotificationStore) : Ledger → NotificationStore
  | .outbox => { s with outboxFile := s.outboxFile.stringify s.outbox }
  | .log => { s with logFile := s.logFile.stringify s.log }

def rename (s : NotificationStore) : Ledger → NotificationStore
  | .outbox => { s with outboxFile := s.outboxFile.rename }
  | .log => { s with logFile := s.logFile.rename, logged := s.logged ++ ids s.logFile.rename.file }

/-- `splice(idx, 0, item)`. -/
def insertAt (l : List QueuedNotification) (idx : ℕ) (item : QueuedNotification) : List QueuedNotification :=
  l.take idx ++ item :: l.drop idx

/-- `l[idx] = item`. -/
def assignAt (l : List QueuedNotification) (idx : ℕ) (item : QueuedNotification) : List QueuedNotification :=
  l.take idx ++ item :: l.drop (idx + 1)

/-- The loop of `restoreLogAfterFailedPush`. -/
def refill (maxRecords : ℕ) : List QueuedNotification → List QueuedNotification → List QueuedNotification
  | log, [] => log
  | log, entry :: priorLog =>
    let log := if entry ∈ log then log else log ++ [entry]
    if maxRecords ≤ log.length then log else refill maxRecords log priorLog

def restoreLogAfterFailedPush (s : NotificationStore) (failedEntry : QueuedNotification) (priorLog : List QueuedNotification) :
    NotificationStore :=
  let log := refill s.maxRecords (s.log.erase failedEntry) priorLog
  { s with log := log, dropped := s.dropped.filter (· ∉ log) }

/-- The reservation of an item that is durable, or is not queued. -/
def release (s : NotificationStore) (item : QueuedNotification) : NotificationStore :=
  match item.keyHash with
  | some k => if s.ingressReservations.get k = some item then { s with ingressReservations := s.ingressReservations.delete k } else s
  | none => s

/-- What waited for a write of the outbox goes on. -/
def outboxSettled (s : NotificationStore) (op : StoreOp) (ok : Bool) : NotificationStore :=
  match op with
  | .enqueue item =>
    if ok then { s.release item with resolved := s.resolved ++ [item.id] }
    else { s.release item with outbox := s.outbox.erase item }
  | .action idx previous updated =>
    if ok then { s with recorded := s.recorded ++ (updated.actionTaken.map (updated.id, ·)).toList }
    else { s with outbox := assignAt s.outbox idx previous }
  | .terminal .. | .cleanUp _ | .retry _ => s

/-- What waited for a write of the log goes on. -/
def logSettled (s : NotificationStore) (op : StoreOp) (ok : Bool) : NotificationStore :=
  match op with
  | .terminal idx item logEntry priorLog =>
    if ok then { s with outboxFile := s.outboxFile.persist (.cleanUp item.id) }
    else { s with outbox := insertAt s.outbox idx item }.restoreLogAfterFailedPush logEntry priorLog
  | .action idx previous updated =>
    if ok then { s with recorded := s.recorded ++ (updated.actionTaken.map (updated.id, ·)).toList }
    else { s with log := assignAt s.log idx previous }
  | .enqueue _ | .cleanUp _ | .retry _ => s

def settle (s : NotificationStore) (f : Ledger) (ok : Bool) : NotificationStore :=
  match f with
  | .outbox =>
    match s.outboxFile.waiting with
    | [] => s
    | op :: _ => { s with outboxFile := s.outboxFile.settle }.outboxSettled op ok
  | .log =>
    match s.logFile.waiting with
    | [] => s
    | op :: _ => { s with logFile := s.logFile.settle }.logSettled op ok

/-- A crash, and what the next process reads; a file that cannot be read is taken for empty. -/
def init (s : NotificationStore) (outboxRead logRead persisted : Bool) : NotificationStore :=
  let outbox := if outboxRead then s.outboxFile.file else []
  let log := (if logRead then s.logFile.file else []).take s.maxRecords
  let reconciled := outbox.filter (·.id ∉ ids log)
  { s with
    outbox := reconciled
    log := log
    ingressReservations := .empty
    outboxFile := .new (if persisted ∧ reconciled.length ≠ outbox.length then reconciled else s.outboxFile.file)
    logFile := .new s.logFile.file
    dropped := [] }

def step (s : NotificationStore) : StoreEvent → NotificationStore
  | .enqueue spec => s.enqueue spec none
  | .enqueueIdempotent spec ingress => s.enqueueIdempotent spec ingress
  | .markSent id deliveredAt => s.markSent id deliveredAt
  | .recordFailure id lastError terminal => s.recordFailure id lastError terminal
  | .recordAction id taken => s.recordAction id taken
  | .stringify f => s.stringify f
  | .rename f => s.rename f
  | .settle f ok => s.settle f ok
  | .init outboxRead logRead persisted => s.init outboxRead logRead persisted

end NotificationStore

end PiWebUi.Notifications
