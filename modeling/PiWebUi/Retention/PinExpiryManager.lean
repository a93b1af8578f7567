/-
  PiWebUi.Retention.PinExpiryManager — the retention leases of the internal API
  (server/src/internal-api/pin-expiry-manager.ts, pin-expiry-store.ts).

  A lease is a record of the store, and where it is a resident one also a claim that the
  runtime holds. A call goes from one await to the next; what it awaits (a request to the
  runtime, a write or a deletion of the store) takes effect by a step of its own, the call
  goes on by another. Operations on one lease take turns (`withLeaseOperation`); the
  acquisition of a lease and the pins of `reapplyForSession` do not.
-/

import PiWebUi.Lib.JsMap
import PiWebUi.Lib.JsString
import Mathlib.Data.Rat.Floor
import Mathlib.Logic.Function.Basic

namespace PiWebUi.Retention

open PiWebUi.Lib

abbrev SessionId := ℕ

/-- Ids are given in order; those of `randomUUID` never repeat either. -/
abbrev LeaseId := ℕ

inductive RetentionMode where
  | durable
  | resident
  deriving DecidableEq

structure PersistedApiPin where
  leaseId : LeaseId
  sessionId : SessionId
  mode : Option RetentionMode
  ownerId : Option JsString
  pinnedUntil : ℕ
  deriving DecidableEq

/-- `(record.mode ?? 'resident') === 'resident'` -/
def PersistedApiPin.isResident (r : PersistedApiPin) : Bool := r.mode.getD .resident = .resident

def legacyOwner : JsString := js "legacy-internal-api"

def PersistedApiPin.isLegacy (r : PersistedApiPin) : Bool := r.ownerId = some legacyOwner

structure Config where
  defaultTtlMs : ℕ := 24 * 60 * 60 * 1000
  maxTtlMs : ℕ := 7 * 24 * 60 * 60 * 1000

/-- `none`: no number, or not a finite one. -/
def Config.resolveTtlMs (c : Config) (ttlSeconds : Option ℚ) : ℕ :=
  min (match ttlSeconds with
    | none => c.defaultTtlMs
    | some t => ⌊t * 1000⌋.toNat) c.maxTtlMs

structure ApplyPinOptions where
  ttlSeconds : Option ℚ := none
  mode : Option RetentionMode := none
  ownerId : Option JsString := none

/-! ## What a call awaits -/

inductive Failure where
  | claimNotFound
  | ownerMismatch
  | store
  deriving DecidableEq

inductive Outcome where
  /-- The fields of an `ApplyPinResult`. -/
  | applied (pinned : Bool) (pinnedUntil : ℕ) (leaseId : LeaseId) (mode : RetentionMode)
  /-- `PIN_LIMIT_REACHED` -/
  | limitReached
  | released
  /-- What an operation of a sweep answers: the lease was removed. -/
  | removed (removed : Bool)
  | expired (sessions : List SessionId)
  | reapplied
  | threw (error : Failure)
  deriving DecidableEq

inductive Await where
  | pin (leaseId : LeaseId)
  | unpin (leaseId : LeaseId)
  | save (record : PersistedApiPin)
  | delete (leaseId : LeaseId)
  deriving DecidableEq

/-- What a call does when its operation on a lease is over: it answers, releases the other
    leases of a session, or goes on with a sweep that has removed those of `expired`. -/
inductive After where
  | answer
  | clear (sessionId : SessionId) (rest : List PersistedApiPin)
  | sweep (now : ℕ) (rest : List PersistedApiPin) (expired : List SessionId)
  deriving DecidableEq

/-- An operation that waits for its turn; a release is one of its own, or one of `clear` that
    has the others to come. -/
inductive Operation where
  | renew (sessionId : SessionId) (ttlSeconds : Option ℚ)
  | release (sessionId : SessionId) (ownerId : Option JsString) (rest : Option (List PersistedApiPin))
  | expire (now : ℕ) (rest : List PersistedApiPin) (expired : List SessionId)
  deriving DecidableEq

def Operation.after : Operation → After
  | renew .. | release _ _ none => .answer
  | release sessionId _ (some rest) => .clear sessionId rest
  | expire now rest expired => .sweep now rest expired

inductive AcquireStage where
  | pin
  | save
  | unpin
  | drop
  deriving DecidableEq

inductive RenewStage where
  | pin
  | save
  deriving DecidableEq

inductive RemoveStage where
  | unpin
  | delete
  | restore
  deriving DecidableEq

/-- Where a call awaits: the acquisition of a record, the renewal to a record, the removal of
    one, or the pin of one that is applied again, with those to come. -/
inductive Point where
  | acquire (stage : AcquireStage) (record : PersistedApiPin)
  | renew (stage : RenewStage) (updated : PersistedApiPin)
  | remove (stage : RemoveStage) (record : PersistedApiPin) (after : After)
  | reapply (record : PersistedApiPin) (rest : List PersistedApiPin)
  deriving DecidableEq

namespace Point

def record : Point → PersistedApiPin
  | acquire _ r | renew _ r | remove _ r _ | reapply r _ => r

def leaseId (p : Point) : LeaseId := p.record.leaseId

def await : Point → Await
  | acquire .pin r | renew .pin r | remove .restore r _ | reapply r _ => .pin r.leaseId
  | acquire .unpin r | remove .unpin r _ => .unpin r.leaseId
  | acquire .save r | renew .save r => .save r
  | acquire .drop r | remove .delete r _ => .delete r.leaseId

end Point

inductive Phase where
  | queued (leaseId : LeaseId) (operation : Operation)
  /-- `answer`: what it awaits has taken effect and succeeded or not. -/
  | waits (point : Point) (answer : Option Bool)
  | done (outcome : Outcome)
  deriving DecidableEq

/-! ## The manager -/

/-- The last thing asked of the runtime for a lease was its claim; the runtime holds it; its
    acquisition was refused. -/
structure Claim where
  asked : Bool := false
  held : Bool := false
  refused : Bool := false
  deriving DecidableEq

inductive Verdict where
  | removed
  | renewed
  | failed
  deriving DecidableEq

/-- A sweep, by its call, and the leases that are expired at its start; what its operation
    on one of them came to. -/
inductive Swept where
  | due (call : ℕ) (leaseId : LeaseId)
  | came (call : ℕ) (leaseId : LeaseId) (verdict : Verdict)
  deriving DecidableEq

structure State where
  now : ℕ
  cache : JsMap LeaseId PersistedApiPin
  nextLease : LeaseId
  calls : List Phase
  /-- `leaseOperations`: the operations on a lease with their calls, the one whose turn it is
      first. -/
  turns : List (LeaseId × ℕ)
  claims : LeaseId → Claim
  log : List Swept

namespace State

def listForSession (s : State) (sessionId : SessionId) : List PersistedApiPin :=
  s.cache.values.filter (·.sessionId = sessionId)

def findLegacy (s : State) (sessionId : SessionId) : Option PersistedApiPin :=
  (s.listForSession sessionId).find? (·.isLegacy)

def goto (s : State) (i : ℕ) (phase : Phase) : State := { s with calls := s.calls.set i phase }

def setClaim (s : State) (l : LeaseId) (f : Claim → Claim) : State :=
  { s with claims := Function.update s.claims l (f (s.claims l)) }

/-- What the call asks for is asked when the await begins. -/
def ask (s : State) : Await → State
  | .pin l => s.setClaim l fun c => { c with asked := true }
  | .unpin l => s.setClaim l fun c => { c with asked := false }
  | .save _ | .delete _ => s

def waitAt (s : State) (i : ℕ) (p : Point) : State := (s.ask p.await).goto i (.waits p none)

/-- What is awaited takes effect. A pin or a write may fail. -/
def settle (s : State) (ok : Bool) : Await → State
  | .pin l => s.setClaim l fun c => { c with held := c.held || ok }
  | .unpin l => s.setClaim l fun c => { c with held := false }
  | .save r => if ok then { s with cache := s.cache.set r.leaseId r } else s
  | .delete l => if ok then { s with cache := s.cache.delete l } else s

def enqueue (s : State) (i : ℕ) (l : LeaseId) (op : Operation) : State :=
  { s.goto i (.queued l op) with turns := s.turns ++ [(l, i)] }

/-- The next lease of `clear`. -/
def clearNext (s : State) (i : ℕ) (sessionId : SessionId) : List PersistedApiPin → State
  | [] => s.goto i (.done .released)
  | r :: rest => s.enqueue i r.leaseId (.release sessionId none (some rest))

/-- The next lease of a sweep. -/
def sweepNext (s : State) (i : ℕ) (now : ℕ) (expired : List SessionId) : List PersistedApiPin → State
  | [] => s.goto i (.done (.expired expired))
  | r :: rest => s.enqueue i r.leaseId (.expire now rest expired)

/-- `pinnedUntil > Date.now()`, and resident. -/
def isApplied (s : State) (r : PersistedApiPin) : Bool := s.now < r.pinnedUntil && r.isResident

/-- The next lease that is applied again. -/
def reapplyNext (s : State) (i : ℕ) (rest : List PersistedApiPin) : State :=
  match rest.dropWhile (!s.isApplied ·) with
  | [] => s.goto i (.done .reapplied)
  | r :: rest => s.waitAt i (.reapply r rest)

/-- What a sweep's operation came to, by what it answers. -/
def verdict (s : State) (l : LeaseId) : Outcome → Verdict
  | .threw _ => .failed
  | _ => if s.cache.get l = none then .removed else .renewed

/-- The operation is over; the next one on the lease has its turn. -/
def finish (s : State) (i : ℕ) (l : LeaseId) (sessionId : SessionId) (after : After) (outcome : Outcome) : State :=
  let s := { s with turns := s.turns.erase (l, i) }
  match after with
  | .answer => s.goto i (.done outcome)
  | .clear session rest =>
    match outcome with
    | .threw error => s.goto i (.done (.threw error))
    | _ => s.clearNext i session rest
  | .sweep now rest expired =>
    let s := { s with log := s.log ++ [Swept.came i l (s.verdict l outcome)] }
    match outcome with
    | .threw error => s.goto i (.done (.threw error))
    | .removed true => s.sweepNext i now (expired ++ [sessionId]) rest
    | _ => s.sweepNext i now expired rest

/-- `removeLease` -/
def remove (s : State) (i : ℕ) (r : PersistedApiPin) (after : After) : State :=
  if r.isResident then s.waitAt i (.remove .unpin r after) else s.waitAt i (.remove .delete r after)

end State

section

variable (c : Config)

/-! ### Turns -/

/-- What an operation does at its turn, up to its first await. -/
def State.operate (s : State) (i : ℕ) (l : LeaseId) (op : Operation) : State :=
  match op, s.cache.get l with
  | .renew sessionId ttlSeconds, some r =>
    let updated := { r with pinnedUntil := s.now + c.resolveTtlMs ttlSeconds }
    if r.sessionId ≠ sessionId then s.finish i l sessionId op.after (.threw .claimNotFound)
    else if r.isResident then s.waitAt i (.renew .pin updated)
    else s.waitAt i (.renew .save updated)
  | .renew sessionId _, none => s.finish i l sessionId op.after (.threw .claimNotFound)
  | .release sessionId ownerId _, some r =>
    if r.sessionId ≠ sessionId then s.finish i l sessionId op.after (.threw .claimNotFound)
    else if ownerId.isSome && r.ownerId ≠ ownerId then s.finish i l sessionId op.after (.threw .ownerMismatch)
    else s.remove i r op.after
  | .release sessionId _ _, none => s.finish i l sessionId op.after (.threw .claimNotFound)
  | .expire now _ _, some r =>
    if now < r.pinnedUntil then s.finish i l r.sessionId op.after (.removed false) else s.remove i r op.after
  | .expire .., none => s.finish i l 0 op.after (.removed false)

/-! ### Going on -/

def applied (r : PersistedApiPin) : Outcome := .applied r.isResident r.pinnedUntil r.leaseId (r.mode.getD .resident)

/-- What a removal answers: a release nothing, an operation of a sweep that it removed. -/
def After.removed : After → Outcome
  | .sweep .. => .removed true
  | _ => .released

/-- What the call does with the answer, up to its next await. -/
def State.resume (s : State) (i : ℕ) (ok : Bool) : Point → State
  | .acquire .pin r =>
    if ok then s.waitAt i (.acquire .save r)
    else (s.setClaim r.leaseId fun c => { c with refused := true }).goto i (.done .limitReached)
  | .acquire .save r =>
    if ok then s.goto i (.done (applied r))
    else if r.isResident then s.waitAt i (.acquire .unpin r)
    else s.waitAt i (.acquire .drop r)
  | .acquire .unpin r => s.waitAt i (.acquire .drop r)
  | .acquire .drop _ => s.goto i (.done (.threw .store))
  | .renew .pin r => if ok then s.waitAt i (.renew .save r) else s.finish i r.leaseId r.sessionId .answer .limitReached
  | .renew .save r => s.finish i r.leaseId r.sessionId .answer (if ok then applied r else .threw .store)
  | .remove .unpin r after => s.waitAt i (.remove .delete r after)
  | .remove .delete r after =>
    if ok then s.finish i r.leaseId r.sessionId after after.removed
    else if r.isResident then s.waitAt i (.remove .restore r after)
    else s.finish i r.leaseId r.sessionId after (.threw .store)
  | .remove .restore r after => s.finish i r.leaseId r.sessionId after (.threw .store)
  | .reapply _ rest => s.reapplyNext i rest

/-! ### Calls -/

inductive Call where
  | applyPin (sessionId : SessionId) (options : ApplyPinOptions)
  | acquireLease (sessionId : SessionId) (options : ApplyPinOptions)
  | renewLease (sessionId : SessionId) (leaseId : LeaseId) (ttlSeconds : Option ℚ)
  | releaseLease (sessionId : SessionId) (leaseId : LeaseId) (ownerId : Option JsString)
  | releaseLegacyLease (sessionId : SessionId)
  | clear (sessionId : SessionId)
  | expireNow
  | reapplyForSession (sessionId : SessionId)

namespace State

/-- The record that `acquireLease` makes. -/
def newRecord (s : State) (sessionId : SessionId) (options : ApplyPinOptions) : PersistedApiPin where
  leaseId := s.nextLease
  sessionId
  mode := some (options.mode.getD .resident)
  ownerId := options.ownerId
  pinnedUntil := s.now + c.resolveTtlMs options.ttlSeconds

def acquireLease (s : State) (i : ℕ) (sessionId : SessionId) (options : ApplyPinOptions) : State :=
  let record := s.newRecord c sessionId options
  let s := { s with nextLease := s.nextLease + 1 }
  if record.isResident then s.waitAt i (.acquire .pin record) else s.waitAt i (.acquire .save record)

/-- `applyPin` of a session without a legacy lease. -/
def legacyOptions (options : ApplyPinOptions) : ApplyPinOptions :=
  { options with mode := some .resident, ownerId := some legacyOwner }

/-- The leases that are expired. -/
def due (s : State) : List PersistedApiPin := s.cache.values.filter (·.pinnedUntil ≤ s.now)

/-- A call, up to its first await. -/
def call (s : State) (i : ℕ) : Call → State
  | .applyPin sessionId options =>
    match s.findLegacy sessionId with
    | some existing => s.enqueue i existing.leaseId (.renew sessionId options.ttlSeconds)
    | none => s.acquireLease c i sessionId (legacyOptions options)
  | .acquireLease sessionId options => s.acquireLease c i sessionId options
  | .renewLease sessionId leaseId ttlSeconds => s.enqueue i leaseId (.renew sessionId ttlSeconds)
  | .releaseLease sessionId leaseId ownerId => s.enqueue i leaseId (.release sessionId ownerId none)
  | .releaseLegacyLease sessionId =>
    match s.findLegacy sessionId with
    | some record => s.enqueue i record.leaseId (.release sessionId (some legacyOwner) none)
    | none => s.goto i (.done .released)
  | .clear sessionId => s.clearNext i sessionId (s.listForSession sessionId)
  | .expireNow =>
    let started : State := { s with log := s.log ++ s.due.map fun r => Swept.due i r.leaseId }
    started.sweepNext i s.now [] s.due
  | .reapplyForSession sessionId => s.reapplyNext i (s.listForSession sessionId)

end State

inductive Step where
  | call (call : Call)
  /-- The call at the front of its lease's operations has its turn. -/
  | turn (i : ℕ)
  | settle (i : ℕ) (ok : Bool)
  | resume (i : ℕ)
  | clock (now : ℕ)
  /-- The runtime loses a session, and the claim with it. -/
  | dispose (leaseId : LeaseId)

def State.hasTurn (s : State) (l : LeaseId) (i : ℕ) : Bool := s.turns.find? (·.1 = l) = some (l, i)

def step (s : State) : Step → State
  | .call k => { s with calls := s.calls ++ [Phase.done .released] }.call c s.calls.length k
  | .turn i =>
    match s.calls[i]? with
    | some (.queued l op) => if s.hasTurn l i then s.operate c i l op else s
    | _ => s
  | .settle i ok =>
    match s.calls[i]? with
    | some (.waits p none) => (s.settle ok p.await).goto i (.waits p (some ok))
    | _ => s
  | .resume i =>
    match s.calls[i]? with
    | some (.waits p (some ok)) => s.resume i ok p
    | _ => s
  | .clock now => { s with now }
  | .dispose l => s.setClaim l fun c => { c with held := false }

end

end PiWebUi.Retention
