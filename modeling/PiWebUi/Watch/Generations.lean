/-
  PiWebUi.Watch.Generations — the watch generations of one session: `register`,
  `deleteWithPrecondition`, the release of a completed watch, and the store they share
  (watch/watch-manager.ts, watch/watch-store.ts).

  Mutations run one at a time on the session's mutation chain. A running one stops at each
  `await`: for the answer of a `pinSession` or `unpinSession` call, for its own save, for the
  writes queued before an unlink. Between any two of these, events and timers change the live
  ledger in place (`change`), complete it (`complete`) and queue saves of it (`persist`), and
  the oldest queued write ends, well or not (`write`).
-/

import PiWebUi.Watch.Manager

namespace PiWebUi.Watch.Generations

open Lib

structure Ledger where
  generation : ℕ
  watch : PersistedWatch
  deriving DecidableEq

structure CacheEntry where
  ledger : Ledger
  clone : Bool
  deriving DecidableEq

structure Write where
  ledger : Ledger
  expectedGeneration : Option ℕ
  deriving DecidableEq

/-- The claims held: on the subject as `watch:<watchId>`, on targets as
    `watch-target:<watchId>`. -/
structure Claims where
  subject : Bool := false
  targets : List JsString := []
  deriving DecidableEq

inductive ClaimCall where
  | pinSubject
  | unpinSubject
  | pinTarget (target : JsString)
  | unpinTarget (target : JsString)
  deriving DecidableEq

/-- `expectedGeneration`: absent, `null`, or a generation. `onFire`: what
    `validateOnFireAction` makes of the request's action. -/
structure RegisterWatchRequest where
  conditions : List WatchConditionSpec
  onFire : Except JsString (Option WatchOnFireAction) := .ok none
  pin : Bool := true
  expectedGeneration : Option (Option ℕ) := none

inductive Mutation where
  | register (request : RegisterWatchRequest)
  | delete (expectedGeneration : Option ℕ)
  /-- The release that `completeWatch` queues for the live watch. -/
  | release (generation : ℕ)

def Mutation.expected : Mutation → Option (Option ℕ)
  | .register request => request.expectedGeneration
  | .delete expectedGeneration => expectedGeneration.map some
  | .release _ => none

inductive WatchError where
  | validation (message : JsString)
  | generationMismatch (expectedGeneration currentGeneration : Option ℕ)
  | persistence
  deriving DecidableEq

inductive Result where
  | registered (generation : ℕ)
  | deleted (generation : ℕ)
  | absent
  | released
  | failed (error : WatchError)
  deriving DecidableEq

structure Snapshot where
  live : Option Ledger
  claims : Claims

/-- A mutation whose turn has come, with the generation it found and the state before it.
    `refused`: one of its `unpinSession` calls was. -/
structure Turn where
  mutation : Mutation
  found : Option ℕ
  before : Snapshot
  refused : Bool := false

structure Outcome where
  turn : Turn
  after : Snapshot
  result : Result

/-- The local variables of `registerLocked`. -/
structure Candidate (ρ : Type) where
  resolved : List (ResolvedCondition ρ)
  onFire : Option WatchOnFireAction
  previous : Option Ledger
  reuseSubjectClaim : Bool
  pinned : Bool
  newSubjectClaim : Bool := false
  reuseTargetClaim : Bool
  targetPinned : Bool
  newTargetClaim : Bool := false

/-- What follows the last of a mutation's claim calls. -/
inductive Next (ρ : Type) where
  | save (c : Candidate ρ)
  | throw
  | commit (generation : ℕ)
  | release
  | delete (generation : ℕ)

inductive Phase (ρ : Type) where
  /-- Waiting for the answer of the first of `calls`. -/
  | calling (calls : List ClaimCall) (next : Next ρ)
  | saving (c : Candidate ρ) (ledger : Ledger)
  | saved (c : Candidate ρ) (ledger : Ledger)
  | saveFailed (c : Candidate ρ)
  /-- `WatchStore.delete`, which took `previous` out of the cache. -/
  | waiting (generation : ℕ) (previous : Option CacheEntry)
  | unlinking (generation : ℕ) (previous : Option CacheEntry)

structure State (ρ : Type) where
  live : Option Ledger
  cache : Option CacheEntry
  durable : Option Ledger
  disk : Option Ledger
  writes : List Write := []
  claims : Claims
  mutationChain : List Mutation := []
  running : Option (Turn × Phase ρ) := none
  /-- The next `randomUUID()`. -/
  nextGeneration : ℕ
  outcomes : List Outcome := []

/-! ## Ledgers that only events change -/

/-- Events keep the claims' flags, the action and the conditions' ids, types and specs. -/
structure Evolves (r r' : PersistedWatch) : Prop where
  pinned_eq : r'.pinned = r.pinned
  targetPinned_eq : r'.targetPinned = r.targetPinned
  onFire_eq : r'.onFire = r.onFire
  conditions_eq : r'.conditions.map (fun c => (c.id, c.type, c.spec)) = r.conditions.map fun c => (c.id, c.type, c.spec)

instance (r r' : PersistedWatch) : Decidable (Evolves r r') :=
  decidable_of_iff (r'.pinned = r.pinned ∧ r'.targetPinned = r.targetPinned ∧ r'.onFire = r.onFire ∧
      r'.conditions.map (fun c => (c.id, c.type, c.spec)) = r.conditions.map fun c => (c.id, c.type, c.spec))
    ⟨fun h => ⟨h.1, h.2.1, h.2.2.1, h.2.2.2⟩, fun h => ⟨h.1, h.2, h.3, h.4⟩⟩

/-! ## The store -/

variable {ρ : Type}

/-- `active.get(sessionId)?.record ?? store.get(sessionId)`. -/
def current (s : State ρ) : Option Ledger := s.live.or (s.cache.map (·.ledger))

def save (s : State ρ) (ledger : Ledger) (expectedGeneration : Option ℕ) : State ρ :=
  { s with cache := some ⟨ledger, false⟩, writes := s.writes ++ [⟨ledger, expectedGeneration⟩] }

def persistLive (s : State ρ) : State ρ :=
  match s.live with
  | none => s
  | some ledger => save s ledger (some ledger.generation)

/-- `cache.get(sessionId) === record`, for the record of this generation. -/
def isCached (s : State ρ) (generation : ℕ) : Bool := s.cache.any fun e => !e.clone && e.ledger.generation = generation

/-- Put the last ledger confirmed on disk back into the cache. -/
def restoreCache (s : State ρ) : State ρ := { s with cache := s.durable.map fun d => ⟨d, true⟩ }

/-- The registration that waits for this write learns of its end. -/
def saveEnded (s : State ρ) (p : Write) (ok : Bool) : State ρ :=
  match s.running with
  | some (turn, .saving c ledger) =>
    if p.expectedGeneration.isNone ∧ p.ledger.generation = ledger.generation then
      { s with running := some (turn, if ok then .saved c ledger else .saveFailed c) }
    else s
  | _ => s

/-- A newer generation became durable after the save was queued. -/
def stale (s : State ρ) (p : Write) : Bool :=
  p.expectedGeneration.any fun g => s.durable.map (·.generation) ≠ some g

/-- The oldest queued write ends. -/
def endWrite (s : State ρ) (ok : Bool) : State ρ :=
  match s.writes with
  | [] => s
  | p :: rest =>
    let s := { s with writes := rest }
    if stale s p then
      if isCached s p.ledger.generation && s.durable.isSome then restoreCache s else s
    else if ok then saveEnded { s with disk := some p.ledger, durable := some p.ledger } p true
    else saveEnded (if rest.isEmpty && isCached s p.ledger.generation then restoreCache s else s) p false

/-! ## Claims -/

def Claims.answered (claims : Claims) : ClaimCall → Bool → Claims
  | _, false => claims
  | .pinSubject, true => { claims with subject := true }
  | .unpinSubject, true => { claims with subject := false }
  | .pinTarget t, true => { claims with targets := t :: claims.targets }
  | .unpinTarget t, true => { claims with targets := claims.targets.filter (· ≠ t) }

def isUnpin : ClaimCall → Bool
  | .unpinSubject | .unpinTarget _ => true
  | .pinSubject | .pinTarget _ => false

/-- `previous.targetPinned && previous.onFire ? previous.onFire.targetSessionId : undefined`. -/
def claimedTarget (r : PersistedWatch) : Option JsString :=
  if r.targetPinned then r.onFire.map (·.targetSessionId) else none

/-- The calls that give a watch's own claims up. -/
def ownCalls (r : PersistedWatch) : List ClaimCall :=
  (if r.pinned then [.unpinSubject] else []) ++ ((claimedTarget r).map .unpinTarget).toList

/-! ## Register -/

/-- What a registration checks before it looks at the current generation. -/
def validated (R : RegExps ρ) (request : RegisterWatchRequest) :
    Except JsString (List (ResolvedCondition ρ) × Option WatchOnFireAction) :=
  if request.conditions.isEmpty then .error (js "At least one condition is required")
  else
    match resolveConditions R request.conditions with
    | .error message => .error message
    | .ok resolved => request.onFire.map fun onFire => (resolved, onFire)

def expectationMet (expected : Option (Option ℕ)) (found : Option ℕ) : Bool := expected.all (· = found)

namespace Candidate

def desiredTargetId (onFire : Option WatchOnFireAction) : Option JsString :=
  onFire.bind fun action => if action.pinTarget then some action.targetSessionId else none

def new (request : RegisterWatchRequest) (resolved : List (ResolvedCondition ρ)) (onFire : Option WatchOnFireAction)
    (previous : Option Ledger) : Candidate ρ :=
  let reuseSubjectClaim := request.pin && previous.any (·.watch.pinned)
  let reuseTargetClaim := (desiredTargetId onFire).isSome &&
    desiredTargetId onFire = previous.bind fun p => claimedTarget p.watch
  { resolved, onFire, previous, reuseSubjectClaim, pinned := reuseSubjectClaim
    reuseTargetClaim, targetPinned := reuseTargetClaim }

/-- The claims the previous generation does not already own. -/
def prepareCalls (request : RegisterWatchRequest) (c : Candidate ρ) : List ClaimCall :=
  (if request.pin && !c.reuseSubjectClaim then [.pinSubject] else []) ++
    (if c.reuseTargetClaim then [] else ((desiredTargetId c.onFire).map .pinTarget).toList)

def answered (c : Candidate ρ) : ClaimCall → Bool → Candidate ρ
  | .pinSubject, ok => { c with pinned := ok, newSubjectClaim := ok }
  | .pinTarget _, ok => { c with targetPinned := ok, newTargetClaim := ok }
  | _, _ => c

/-- The claims a rejected candidate gives back. -/
def dropCalls (c : Candidate ρ) : List ClaimCall :=
  (if c.newSubjectClaim then [.unpinSubject] else []) ++
    (if c.newTargetClaim then ((desiredTargetId c.onFire).map .unpinTarget).toList else [])

/-- The rotation of the previous generation's claims after the commit. -/
def rotateCalls (c : Candidate ρ) : List ClaimCall :=
  (if c.previous.any (·.watch.pinned) then
    .unpinSubject :: (if c.reuseSubjectClaim then [.pinSubject] else []) else []) ++
  match c.previous.bind fun p => claimedTarget p.watch with
  | none => []
  | some t => .unpinTarget t :: (if c.reuseTargetClaim then ((desiredTargetId c.onFire).map .pinTarget).toList else [])

def watch (c : Candidate ρ) (now : ℕ) : PersistedWatch :=
  { pinned := c.pinned, targetPinned := c.targetPinned, updatedAt := now
    conditions := c.resolved.map (ActiveWatch.conditionState now), onFire := c.onFire }

end Candidate

/-! ## Turns -/

def finish (s : State ρ) (turn : Turn) (result : Result) : State ρ :=
  { s with running := none, outcomes := s.outcomes ++ [⟨turn, ⟨s.live, s.claims⟩, result⟩] }

def proceed (s : State ρ) (turn : Turn) (now : ℕ) : Next ρ → State ρ
  | .save c =>
    let ledger : Ledger := ⟨s.nextGeneration, c.watch now⟩
    { save s ledger none with running := some (turn, .saving c ledger), nextGeneration := s.nextGeneration + 1 }
  | .throw => finish s turn (.failed .persistence)
  | .commit generation => finish s turn (.registered generation)
  | .release => finish (persistLive s) turn .released
  | .delete generation => { s with cache := none, running := some (turn, .waiting generation s.cache) }

def enter (s : State ρ) (turn : Turn) (now : ℕ) (calls : List ClaimCall) (next : Next ρ) : State ρ :=
  if calls.isEmpty then proceed s turn now next else { s with running := some (turn, .calling calls next) }

def start (R : RegExps ρ) (s : State ρ) (now : ℕ) (m : Mutation) : State ρ :=
  let found := (current s).map (·.generation)
  let turn : Turn := { mutation := m, found, before := ⟨s.live, s.claims⟩ }
  match m with
  | .register request =>
    match validated R request with
    | .error message => finish s turn (.failed (.validation message))
    | .ok (resolved, onFire) =>
      if !expectationMet request.expectedGeneration found then
        finish s turn (.failed (.generationMismatch (request.expectedGeneration.bind id) found))
      else
        let c := Candidate.new request resolved onFire (current s)
        enter s turn now (c.prepareCalls request) (.save c)
  | .delete expectedGeneration =>
    if !expectationMet (expectedGeneration.map some) found then
      finish s turn (.failed (.generationMismatch expectedGeneration found))
    else
      match current s with
      | none => finish s turn .absent
      | some ledger => enter { s with live := none } turn now (ownCalls ledger.watch) (.delete ledger.generation)
  | .release generation =>
    match s.live with
    | none => finish s turn .released
    | some ledger =>
      if ledger.generation ≠ generation then finish s turn .released
      else enter s turn now (ownCalls ledger.watch) .release

/-- The flags of the live ledger after the answer of a rotation or a release. -/
def answeredWatch (next : Next ρ) (call : ClaimCall) (ok : Bool) (r : PersistedWatch) : PersistedWatch :=
  match next, call with
  | .commit _, .pinSubject => { r with pinned := ok }
  | .commit _, .pinTarget _ => { r with targetPinned := ok }
  | .release, .unpinSubject => if ok then { r with pinned := false } else r
  | .release, .unpinTarget _ => if ok then { r with targetPinned := false } else r
  | _, _ => r

def Next.answered (next : Next ρ) (call : ClaimCall) (ok : Bool) : Next ρ :=
  match next with
  | .save c => .save (c.answered call ok)
  | _ => next

/-- The answer to the running mutation's claim call. -/
def answer (s : State ρ) (ok : Bool) (now : ℕ) : State ρ :=
  match s.running with
  | some (turn, .calling (call :: calls) next) =>
    let s := { s with
      live := s.live.map fun l => { l with watch := answeredWatch next call ok l.watch }
      claims := s.claims.answered call ok }
    enter s { turn with refused := turn.refused || (isUnpin call && !ok) } now calls (next.answered call ok)
  | _ => s

/-- The running mutation goes on after its own save, or after the writes before an unlink. -/
def resume (s : State ρ) (now : ℕ) : State ρ :=
  match s.running with
  | some (turn, .saved c ledger) => enter { s with live := some ledger } turn now c.rotateCalls (.commit ledger.generation)
  | some (turn, .saveFailed c) => enter s turn now c.dropCalls .throw
  | some (turn, .waiting generation previous) =>
    if s.writes.isEmpty then { s with running := some (turn, .unlinking generation previous) } else s
  | _ => s

/-- The unlink ends; a file that is already gone counts as unlinked. -/
def unlink (s : State ρ) (ok : Bool) : State ρ :=
  match s.running with
  | some (turn, .unlinking generation previous) =>
    if ok then finish { s with disk := none, durable := none } turn (.deleted generation)
    else finish { s with cache := (s.durable.map fun d => (⟨d, true⟩ : CacheEntry)).or previous } turn (.failed .persistence)
  | _ => s

/-! ## Steps -/

inductive Step where
  | register (request : RegisterWatchRequest)
  | delete (expectedGeneration : Option ℕ)
  /-- The next mutation's turn. -/
  | turn (now : ℕ)
  | answer (ok : Bool) (now : ℕ)
  | resume (now : ℕ)
  | write (ok : Bool)
  | unlink (ok : Bool)
  | change (next : PersistedWatch)
  | complete
  | persist

/-- `completeWatch` on the live watch. -/
def complete (s : State ρ) : State ρ :=
  match s.live with
  | none => s
  | some l =>
    if l.watch.status = .done || !allOneShotConditionsFired l.watch || l.watch.wakeAttempts.any isPending then s
    else { s with
      live := some { l with watch := { l.watch with status := .done } }
      mutationChain := s.mutationChain ++ [.release l.generation] }

def change (s : State ρ) (next : PersistedWatch) : State ρ :=
  match s.live with
  | none => s
  | some l => if Evolves l.watch next then { s with live := some { l with watch := next } } else s

def nextTurn (R : RegExps ρ) (s : State ρ) (now : ℕ) : State ρ :=
  match s.running, s.mutationChain with
  | none, m :: rest => start R { s with mutationChain := rest } now m
  | _, _ => s

def step (R : RegExps ρ) (s : State ρ) : Step → State ρ
  | .register request => { s with mutationChain := s.mutationChain ++ [.register request] }
  | .delete expectedGeneration => { s with mutationChain := s.mutationChain ++ [.delete expectedGeneration] }
  | .turn now => nextTurn R s now
  | .answer ok now => answer s ok now
  | .resume now => resume s now
  | .write ok => endWrite s ok
  | .unlink ok => unlink s ok
  | .change next => change s next
  | .complete => complete s
  | .persist => persistLive s

def run (R : RegExps ρ) (s : State ρ) (ss : List Step) : State ρ := ss.foldl (step R) s

/-- After `init` over the ledger on disk; only an active watch is live. -/
def loaded (stored : Option Ledger) (claims : Claims) : State ρ :=
  { live := stored.filter fun l => l.watch.status = .active
    cache := stored.map fun l => ⟨l, false⟩, durable := stored, disk := stored, claims
    nextGeneration := stored.elim 0 (·.generation + 1) }

end PiWebUi.Watch.Generations
