/-
  PiWebUi.Notifications.NotificationManager — how a finished turn becomes a notification:
  the text of the session's last assistant message is taken at `agent_end`, held for the
  debounce time, and flushed to the outbox one tail after the other.

  An observed session keeps its place in `sessions` when it is detached: the flush that
  waits for a label or for the outbox still has it. Timers, labels and the outbox's
  answers are events; opting in and out is at the point where the observer is attached
  and detached. A notification is the tail it is formatted from.
  `overdue`, `ownText`, `turn`s and `turns` are read by nothing.
-/

import PiWebUi.Lib.JsString
import PiWebUi.Lib.JsMap
import PiWebUi.Lib.Run

namespace PiWebUi.Notifications

open PiWebUi.Lib

structure Tail where
  tail : JsString
  version : ℕ
  /-- The end of a turn it was taken at. -/
  turn : ℕ
deriving DecidableEq

/-- What a flush waits for. -/
inductive FlushPhase where
  | label
  | outbox
deriving DecidableEq

inductive TimerKind where
  | debounce
  | retry
deriving DecidableEq

structure ObservedSession where
  sessionId : JsString
  assistantTail : JsString
  tailVersion : ℕ
  pendingTails : List Tail
  debouncedTail : Option Tail
  flushPromise : Option FlushPhase
  debounceTimer : Option TimerKind
  /-- The debounce time of the debounced tail has passed. -/
  overdue : Bool
  /-- The text of the turn that runs. -/
  ownText : JsString
deriving DecidableEq

/-- A turn that ended while its session was observed. -/
structure Turn where
  sessionId : JsString
  text : JsString
  /-- Another one ended within the debounce time. -/
  superseded : Bool
  /-- Its session was opted out before it was announced. -/
  optedOut : Bool
deriving DecidableEq

structure Announcement where
  sessionId : JsString
  tail : JsString
  turn : ℕ
deriving DecidableEq

structure NotificationManager where
  sessions : List ObservedSession
  observed : JsMap JsString ℕ
  shutDown : Bool
  turns : List Turn
  /-- What the outbox accepted. -/
  enqueued : List Announcement
deriving DecidableEq

inductive ManagerEvent where
  | optIn (sessionId : JsString) (wired : Bool)
  | optOut (sessionId : JsString)
  | messageStart (sessionId : JsString) (assistant : Bool)
  | messageUpdate (sessionId : JsString) (delta : JsString)
  | agentEnd (sessionId : JsString)
  | timer (o : ℕ)
  /-- The debounce time passes while another timer stands for the debounce timer. -/
  | debounceElapses (o : ℕ)
  | labelled (o : ℕ)
  | stored (o : ℕ) (accepted : Bool)
  | shutdown
deriving DecidableEq

namespace ObservedSession

/-- The debounced tail is pending. -/
def takeDebounced (obs : ObservedSession) : ObservedSession :=
  { obs with pendingTails := obs.pendingTails ++ obs.debouncedTail.toList, debouncedTail := none, overdue := false }

/-- The flush goes on with the oldest tail, or is done. -/
def goOn (obs : ObservedSession) : ObservedSession :=
  { obs with flushPromise := if obs.pendingTails = [] then none else some .label }

/-- A flush that is in flight is joined. -/
def flush (obs : ObservedSession) : ObservedSession := if obs.flushPromise.isSome then obs else obs.takeDebounced.goOn

def messageStart (obs : ObservedSession) : ObservedSession :=
  { obs with assistantTail := [], tailVersion := obs.tailVersion + 1, ownText := [] }

def messageUpdate (obs : ObservedSession) (delta : JsString) : ObservedSession :=
  if delta = [] then obs
  else { obs with assistantTail := obs.assistantTail ++ delta, tailVersion := obs.tailVersion + 1, ownText := obs.ownText ++ delta }

/-- `scheduleFlush` at the end of the turn `turn`. -/
def agentEnd (obs : ObservedSession) (turn : ℕ) : ObservedSession :=
  { obs with
    debouncedTail := some ⟨obs.assistantTail, obs.tailVersion, turn⟩
    debounceTimer := some .debounce
    overdue := false
    ownText := [] }

def timerFires (obs : ObservedSession) : ObservedSession :=
  ({ obs with
    debounceTimer := none
    overdue := obs.overdue || (obs.debounceTimer = some .debounce && obs.debouncedTail.isSome) } : ObservedSession).flush

/-- The outbox took the oldest tail. -/
def accepted (obs : ObservedSession) (t : Tail) : ObservedSession :=
  { obs with
    pendingTails := obs.pendingTails.tail
    assistantTail := if obs.tailVersion = t.version then [] else obs.assistantTail }.takeDebounced.goOn

def pending (obs : ObservedSession) : Bool :=
  obs.debounceTimer.isSome || obs.flushPromise.isSome || obs.pendingTails ≠ [] || obs.debouncedTail.isSome

end ObservedSession

namespace NotificationManager

def createNotificationManager : NotificationManager := ⟨[], .empty, false, [], []⟩

def onSession (s : NotificationManager) (o : ℕ) (f : ObservedSession → ObservedSession) : NotificationManager :=
  { s with sessions := s.sessions.modify o f }

/-- What happens to the observed session of an id. -/
def onObserved (s : NotificationManager) (sessionId : JsString) (f : ObservedSession → ObservedSession) : NotificationManager :=
  match s.observed.get sessionId with
  | some o => s.onSession o f
  | none => s

def detach (s : NotificationManager) (sessionId : JsString) : NotificationManager :=
  { s.onObserved sessionId fun obs => { obs with debounceTimer := none } with observed := s.observed.delete sessionId }

def attach (s : NotificationManager) (sessionId : JsString) (wired : Bool) : NotificationManager :=
  let s := if s.observed.has sessionId then s.detach sessionId else s
  if wired then
    { s with
      sessions := s.sessions ++ [⟨sessionId, [], 0, [], none, none, none, false, []⟩]
      observed := s.observed.set sessionId s.sessions.length }
  else s

/-- The turn `k` was not announced. -/
def unannounced (s : NotificationManager) (k : ℕ) : Bool := s.enqueued.all (·.turn ≠ k)

def optOut (s : NotificationManager) (sessionId : JsString) : NotificationManager :=
  { s.detach sessionId with
    turns := s.turns.mapIdx fun k t => if t.sessionId = sessionId ∧ s.unannounced k = true then { t with optedOut := true } else t }

/-- A tail that is replaced within its debounce time gives way. -/
def supersede (turns : List Turn) (obs : ObservedSession) : List Turn :=
  match obs.debouncedTail with
  | some t => if obs.overdue then turns else turns.modify t.turn fun turn => { turn with superseded := true }
  | none => turns

def agentEnd (s : NotificationManager) (sessionId : JsString) : NotificationManager :=
  match s.observed.get sessionId with
  | none => s
  | some o =>
    match s.sessions[o]? with
    | none => s
    | some obs =>
      { s with
        sessions := s.sessions.set o (obs.agentEnd s.turns.length)
        turns := supersede s.turns obs ++ [⟨sessionId, obs.ownText, false, false⟩] }

/-- The outbox accepts or rejects the oldest tail; a flush that fails is tried again later. -/
def stored (s : NotificationManager) (o : ℕ) (accepted : Bool) : NotificationManager :=
  match s.sessions[o]? with
  | none => s
  | some obs =>
    if obs.flushPromise ≠ some .outbox then s
    else
      match obs.pendingTails with
      | [] => s
      | t :: _ =>
        if accepted then
          { s with sessions := s.sessions.set o (obs.accepted t), enqueued := s.enqueued ++ [⟨obs.sessionId, t.tail, t.turn⟩] }
        else if s.shutDown = false ∧ s.observed.get obs.sessionId = some o then
          { s with sessions := s.sessions.set o { obs with flushPromise := none, debounceTimer := some .retry } }
        else { s with sessions := s.sessions.set o { obs with flushPromise := none } }

/-- What is pending is flushed once more, and every observer is detached. -/
def shutdown (s : NotificationManager) : NotificationManager :=
  if s.shutDown then s
  else
    { s with
      shutDown := true
      sessions := s.sessions.mapIdx fun o obs =>
        if s.observed.values.contains o then
          { (if obs.pending then { obs with debounceTimer := none }.flush else obs) with debounceTimer := none }
        else obs
      observed := .empty }

def step (s : NotificationManager) : ManagerEvent → NotificationManager
  | .optIn sessionId wired => s.attach sessionId wired
  | .optOut sessionId => s.optOut sessionId
  | .messageStart sessionId assistant => if assistant then s.onObserved sessionId (·.messageStart) else s
  | .messageUpdate sessionId delta => s.onObserved sessionId (·.messageUpdate delta)
  | .agentEnd sessionId => s.agentEnd sessionId
  | .timer o => s.onSession o fun obs => if obs.debounceTimer.isSome then obs.timerFires else obs
  | .debounceElapses o => s.onSession o fun obs =>
    if obs.debounceTimer ≠ some .debounce then { obs with overdue := obs.debouncedTail.isSome } else obs
  | .labelled o => s.onSession o fun obs => if obs.flushPromise = some .label then { obs with flushPromise := some .outbox } else obs
  | .stored o accepted => s.stored o accepted
  | .shutdown => s.shutdown

end NotificationManager

end PiWebUi.Notifications
