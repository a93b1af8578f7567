/-
  PiWebUi.Client.Outbox — what is sent is neither lost, doubled nor reordered.

  Along a run without `disconnect` in which nothing is sent past a message that is still
  held, and no send on an open socket throws while no switch is waited for, what the
  sockets were given followed by the queue is what was accepted, in order, and an open
  socket leaves nothing in the queue that no acknowledgement is waited for with
  (`in_order_and_flushed`).
-/

import PiWebUi.Client.WebSocketClient
import PiWebUi.Lib.InFlight

namespace PiWebUi.Client

open PiWebUi.Lib List

namespace WebSocketClient

/-! ## What is claimed of a state -/

/-- The application's messages among frames. -/
def userMessages (frames : List Frame) : List Json := (frames.filter fun f => !f.own).map Frame.message

def InOrder (s : WebSocketClient) : Prop := userMessages (s.handed ++ s.outboundQueue) = s.accepted

def Flushed (s : WebSocketClient) : Prop :=
  s.isOpen = true → s.switchAckPending = false → s.outboundQueue = [] ∨ s.switchAckTimer = true

/-! ## The condition -/

/-- A message is not given to the socket while an older one is held. -/
def Waits (s : WebSocketClient) (f : Frame) (throws : Bool) : Prop :=
  f.own = false → s.isOpen = true → throws = false → userMessages s.outboundQueue = []

/-- A send on an open socket does not throw, unless a switch is waited for. -/
def Holds (s : WebSocketClient) (f : Frame) (throws : Bool) : Prop :=
  s.isOpen = true → throws = true → s.switchAckPending = true ∨ isSwitch f.message = true

/-- No send of the flush throws. -/
def Flushes (s : WebSocketClient) (flushes : ℕ) : Prop := s.isOpen = true → s.outboundQueue.length ≤ flushes

/-- The state a socket's `onopen` is in when it has greeted the server. -/
def greeted (s : WebSocketClient) (i : ℕ) (calls : List (Json × Bool)) (authThrows subscribeThrows : Bool) : WebSocketClient :=
  (s.setReadyState i .opened).greet calls authThrows subscribeThrows

def Steady (s : WebSocketClient) : SocketEvent → Prop
  | .send message throws => s.Waits ⟨message, false⟩ throws ∧ s.Holds ⟨message, false⟩ throws
  | .ping throws => s.Holds pingFrame throws
  | .opens i calls authThrows subscribeThrows flushes =>
    s.sockets[i]? = some .connecting → s.ws = some i →
      Run.Along statusCall (fun t call => t.Waits ⟨call.1, isSwitch call.1⟩ call.2) (s.setReadyState i .opened) calls ∧
        ((s.greeted i calls authThrows subscribeThrows).switchAckPending = false →
          (s.greeted i calls authThrows subscribeThrows).Flushes flushes)
  | .message i message flushes => s.ws = some i → acknowledges message = true → s.Flushes flushes
  | .ackFallback flushes => s.switchAckTimer = true → s.Flushes flushes
  | _ => True

/-! ## What keeps what is held -/

@[simp] theorem userMessages_append (fs gs : List Frame) : userMessages (fs ++ gs) = userMessages fs ++ userMessages gs := by
  simp [userMessages]

theorem userMessages_singleton (f : Frame) : userMessages [f] = if f.own = false then [f.message] else [] := by
  cases hf : f.own <;> simp [userMessages, hf]

/-- Nothing that is sent or waited for is different, and no socket was opened. -/
structure Alike (s s' : WebSocketClient) : Prop where
  handed : s'.handed = s.handed
  outboundQueue : s'.outboundQueue = s.outboundQueue
  accepted : s'.accepted = s.accepted
  switchAckPending : s'.switchAckPending = s.switchAckPending
  switchAckTimer : s'.switchAckTimer = s.switchAckTimer
  intentionalDisconnect : s'.intentionalDisconnect = s.intentionalDisconnect
  isOpen : s'.isOpen = true → s.isOpen = true

/-- What is held whatever is waited for. -/
structure Ordered (s : WebSocketClient) : Prop where
  undisturbed : s.intentionalDisconnect = false
  order : s.InOrder
  armed : s.switchAckTimer = true → s.switchAckPending = true

structure Kept (s : WebSocketClient) : Prop extends s.Ordered where
  flushed : s.isOpen = true → s.switchAckPending = false → s.outboundQueue = []

variable {s : WebSocketClient} {calls : List (Json × Bool)}

theorem Ordered.alike {s' : WebSocketClient} (h : s.Ordered) (a : s.Alike s') : s'.Ordered where
  undisturbed := a.intentionalDisconnect.trans h.undisturbed
  order := by
    rw [InOrder, a.handed, a.outboundQueue, a.accepted]
    exact h.order
  armed ht := by
    rw [a.switchAckPending]
    exact h.armed (a.switchAckTimer ▸ ht)

theorem Kept.alike {s' : WebSocketClient} (h : s.Kept) (a : s.Alike s') : s'.Kept where
  toOrdered := h.toOrdered.alike a
  flushed ho hp := by
    rw [a.outboundQueue]
    exact h.flushed (a.isOpen ho) (a.switchAckPending ▸ hp)

theorem alike_attemptReconnect (s : WebSocketClient) : s.Alike s.attemptReconnect := by
  unfold attemptReconnect
  split <;> exact ⟨rfl, rfl, rfl, rfl, rfl, rfl, id⟩

theorem alike_handleResume (s : WebSocketClient) : s.Alike s.handleResume := by
  unfold handleResume
  split
  · exact ⟨rfl, rfl, rfl, rfl, rfl, rfl, id⟩
  · split <;> exact ⟨rfl, rfl, rfl, rfl, rfl, rfl, id⟩

theorem isOpen_handleResume (s : WebSocketClient) : s.handleResume.isOpen = s.isOpen := by
  unfold handleResume
  split
  · rfl
  · split <;> rfl

theorem alike_connect (h : s.intentionalDisconnect = false) (target : Option JsString) (constructs : Bool) :
    s.Alike (s.connect target constructs) := by
  unfold connect
  split
  · exact ⟨rfl, rfl, rfl, rfl, rfl, rfl, id⟩
  · split
    · refine ⟨rfl, rfl, rfl, rfl, rfl, h.symm, fun ho => ?_⟩
      simp [isOpen, readyState] at ho
    · obtain ⟨h1, h2, h3, h4, h5, h6, h7⟩ := alike_attemptReconnect { s with
        intentionalDisconnect := false
        pendingSessionReconnect := (truthy target).or s.pendingSessionReconnect
        csrfToken := s.authToken }
      exact ⟨h1, h2, h3, h4, h5, h6.trans h.symm, h7⟩

theorem isOpen_iff : s.isOpen = true ↔ ∃ i, s.ws = some i ∧ s.sockets[i]? = some .opened := by
  rw [isOpen, decide_eq_true_eq, readyState, Option.bind_eq_some_iff]

theorem Kept.connect (h : s.Kept) (target : Option JsString) (constructs : Bool) : (s.connect target constructs).Kept :=
  h.alike (alike_connect h.undisturbed target constructs)

/-- A socket that does not open leaves none open that was not. -/
theorem alike_sockets {sockets : List ReadyState}
    (h : ∀ i : ℕ, sockets[i]? = some ReadyState.opened → s.sockets[i]? = some ReadyState.opened) : s.Alike { s with sockets := sockets } := by
  refine ⟨rfl, rfl, rfl, rfl, rfl, rfl, fun ho => ?_⟩
  obtain ⟨i, hi, ho⟩ := isOpen_iff.mp ho
  exact isOpen_iff.mpr ⟨i, hi, h i ho⟩

theorem alike_close (s : WebSocketClient) (i : ℕ) : s.Alike (s.close i) := by
  refine alike_sockets fun j hj => ?_
  rcases InFlight.get_modify hj with ⟨rfl, st, hst, hopen⟩ | ⟨-, hj⟩
  · split at hopen
    · cases hopen
    · rw [hopen]
      exact hst
  · exact hj

/-! ## Sends -/

theorem ordered_queued (h : s.Ordered) (f : Frame) : (record f (s.queueOutbound f)).Ordered := by
  unfold queueOutbound
  rw [if_neg (by simp [h.undisturbed])]
  split
  · unfold record
    rw [if_neg (by simp)]
    exact h
  · have hord : userMessages s.handed ++ userMessages s.outboundQueue = s.accepted := by
      rw [← userMessages_append]
      exact h.order
    have a := alike_handleResume { s with outboundQueue := s.outboundQueue ++ [f] }
    unfold record
    by_cases hf : f.own = false
    · rw [if_pos ⟨hf, by simp⟩]
      refine ⟨a.intentionalDisconnect.trans h.undisturbed, ?_, fun ht => a.switchAckPending.trans (h.armed (a.switchAckTimer ▸ ht))⟩
      show userMessages (_ ++ _) = _ ++ [f.message]
      rw [a.handed, a.outboundQueue, a.accepted, userMessages_append, userMessages_append, userMessages_singleton, if_pos hf,
        ← append_assoc, hord]
    · rw [if_neg fun hh => hf hh.1]
      refine ⟨a.intentionalDisconnect.trans h.undisturbed, ?_, fun ht => a.switchAckPending.trans (h.armed (a.switchAckTimer ▸ ht))⟩
      rw [InOrder, a.handed, a.outboundQueue, a.accepted, userMessages_append, userMessages_append, userMessages_singleton, if_neg hf,
        append_nil, hord]

/-- A switch that is sent is waited for. -/
theorem Ordered.switching (h : s.Ordered) (message : Json) :
    (if isSwitch message then { s with switchAckPending := true } else s).Ordered := by
  split
  · exact ⟨h.undisturbed, h.order, fun _ => rfl⟩
  · exact h

theorem ordered_send (h : s.Ordered) {f : Frame} {throws : Bool} (hw : s.Waits f throws) : (s.send f throws).Ordered := by
  unfold send
  by_cases ho : s.isOpen = true
  · rw [if_pos ho]
    have hs := h.switching f.message
    by_cases ht : throws = true
    · simp only [ht, if_true]
      exact ordered_queued hs f
    · have ht : throws = false := by simpa using ht
      simp only [ht, Bool.false_eq_true, if_false]
      have hq : (if isSwitch f.message then { s with switchAckPending := true } else s).outboundQueue = s.outboundQueue := by
        split <;> rfl
      generalize (if isSwitch f.message then { s with switchAckPending := true } else s) = t at hs hq
      have hord : userMessages t.handed ++ userMessages t.outboundQueue = t.accepted := by
        rw [← userMessages_append]
        exact hs.order
      unfold record
      by_cases hf : f.own = false
      · rw [if_pos ⟨hf, by simp⟩]
        refine ⟨hs.undisturbed, ?_, hs.armed⟩
        have hnil : userMessages t.outboundQueue = [] := hq ▸ hw hf ho ht
        show userMessages ((t.handed ++ [f]) ++ t.outboundQueue) = t.accepted ++ [f.message]
        rw [hnil, append_nil] at hord
        rw [userMessages_append, userMessages_append, hnil, append_nil, userMessages_singleton, if_pos hf, hord]
      · rw [if_neg fun hh => hf hh.1]
        refine ⟨hs.undisturbed, ?_, hs.armed⟩
        show userMessages ((t.handed ++ [f]) ++ t.outboundQueue) = t.accepted
        rw [userMessages_append, userMessages_append, userMessages_singleton, if_neg hf, append_nil, hord]
  · rw [if_neg ho]
    exact ordered_queued h f

theorem isOpen_record (f : Frame) (r : WebSocketClient × SendResult) : (record f r).isOpen = r.1.isOpen := by
  unfold record
  split <;> rfl

theorem isOpen_queueOutbound (s : WebSocketClient) (f : Frame) : (s.queueOutbound f).1.isOpen = s.isOpen := by
  unfold queueOutbound
  split
  · rfl
  · split
    · rfl
    · exact isOpen_handleResume _

theorem switchAckPending_queued (s : WebSocketClient) (f : Frame) :
    (record f (s.queueOutbound f)).switchAckPending = s.switchAckPending := by
  have h : (s.queueOutbound f).1.switchAckPending = s.switchAckPending := by
    unfold queueOutbound
    split
    · rfl
    · split
      · rfl
      · exact (alike_handleResume _).switchAckPending
  unfold record
  split <;> exact h

theorem kept_send (h : s.Kept) {f : Frame} {throws : Bool} (hw : s.Waits f throws) (hh : s.Holds f throws) :
    (s.send f throws).Kept := by
  refine ⟨ordered_send h.toOrdered hw, fun hopen hpending => ?_⟩
  unfold send at hopen hpending ⊢
  by_cases ho : s.isOpen = true
  · rw [if_pos ho] at hopen hpending ⊢
    by_cases ht : throws = true
    · -- what throws is held for the switch
      simp only [ht, if_true] at hpending
      rw [switchAckPending_queued] at hpending
      rcases hh ho ht with hp | hs
      · split at hpending
        · cases hpending
        · rw [hp] at hpending
          cases hpending
      · rw [if_pos hs] at hpending
        cases hpending
    · have ht : throws = false := by simpa using ht
      simp only [ht, Bool.false_eq_true, if_false] at hpending ⊢
      have hq : ∀ t : WebSocketClient, (record f ({ t with handed := t.handed ++ [f] }, .sent)).outboundQueue = t.outboundQueue ∧
          (record f ({ t with handed := t.handed ++ [f] }, .sent)).switchAckPending = t.switchAckPending := fun t => by
        unfold record
        split <;> exact ⟨rfl, rfl⟩
      rw [(hq _).2] at hpending
      rw [(hq _).1]
      split at hpending
      · cases hpending
      · next hs =>
        rw [if_neg hs]
        exact h.flushed ho hpending
  · rw [if_neg ho, isOpen_record, isOpen_queueOutbound] at hopen
    exact absurd hopen ho

/-! ## The queue is flushed -/

theorem ordered_flush (h : s.Ordered) (flushes : ℕ) : (s.flushOutboundQueue flushes).Ordered := by
  unfold flushOutboundQueue
  split
  · refine ⟨h.undisturbed, ?_, h.armed⟩
    show userMessages ((s.handed ++ s.outboundQueue.take flushes) ++ s.outboundQueue.drop flushes) = s.accepted
    rw [append_assoc, take_append_drop]
    exact h.order
  · exact h

theorem kept_flush (h : s.Ordered) {flushes : ℕ} (hf : s.Flushes flushes) : (s.flushOutboundQueue flushes).Kept := by
  refine ⟨ordered_flush h flushes, fun hopen _ => ?_⟩
  unfold flushOutboundQueue at hopen ⊢
  split
  · next ho => exact drop_eq_nil_of_le (hf ho)
  · next ho =>
    rw [if_neg ho] at hopen
    exact absurd hopen ho

theorem ordered_statusCalls (h : s.Ordered)
    (hc : Run.Along statusCall (fun t call => t.Waits ⟨call.1, isSwitch call.1⟩ call.2) s calls) : (calls.foldl statusCall s).Ordered :=
  Run.invariant (I := Ordered) (fun t call ht hw => ordered_send (s := t) (f := ⟨call.1, isSwitch call.1⟩) ht hw) h hc

theorem ordered_greet (h : s.Ordered) (authThrows subscribeThrows : Bool)
    (hc : Run.Along statusCall (fun t call => t.Waits ⟨call.1, isSwitch call.1⟩ call.2) s calls) :
    (s.greet calls authThrows subscribeThrows).Ordered := by
  have hown : ∀ (t : WebSocketClient) (f : Frame) (throws : Bool), t.Ordered → f.own = true → (t.send f throws).Ordered :=
    fun t f throws ht hf => ordered_send ht fun h0 => by rw [hf] at h0; cases h0
  have hcalls := ordered_statusCalls h hc
  have hstart : ({ calls.foldl statusCall s with reconnectAttempts := 0 } : WebSocketClient).Ordered :=
    ⟨hcalls.undisturbed, hcalls.order, hcalls.armed⟩
  have hsubscribed : ∀ (t : WebSocketClient) (path : JsString), t.Ordered →
      ({ t.send (subscribeFrame path) subscribeThrows with
        pendingSessionReconnect := none, switchAckPending := true } : WebSocketClient).Ordered := by
    intro t path ht
    have hs := hown t (subscribeFrame path) subscribeThrows ht rfl
    exact ⟨hs.undisturbed, hs.order, fun _ => rfl⟩
  cases htoken : truthy (calls.foldl statusCall s).csrfToken with
  | some token =>
    have hauth := hown _ (authFrame token) authThrows hstart rfl
    simp only [greet, htoken]
    split
    · exact hsubscribed _ _ hauth
    · exact hauth
  | none =>
    simp only [greet, htoken]
    split
    · exact hsubscribed _ _ hstart
    · exact hstart

/-! ## Every step -/

theorem kept_opens (h : s.Kept) {i : ℕ} {authThrows subscribeThrows : Bool}
    {flushes : ℕ} (hs : s.Steady (.opens i calls authThrows subscribeThrows flushes)) (hi : s.sockets[i]? = some .connecting) :
    ((s.setReadyState i .opened).onopen i calls authThrows subscribeThrows flushes).Kept := by
  have hother : ∀ j : ℕ, j ≠ i → (s.sockets.set i .opened)[j]? = s.sockets[j]? := fun j hj => getElem?_set_ne (Ne.symm hj)
  unfold onopen
  by_cases hws : s.ws = some i
  · have hguard : ¬ ((s.setReadyState i .opened).ws ≠ some i ∨ (s.setReadyState i .opened).intentionalDisconnect = true) := by
      rintro (hne | hd)
      · exact hne hws
      · have hd : s.intentionalDisconnect = true := hd
        rw [h.undisturbed] at hd
        cases hd
    rw [if_neg hguard]
    obtain ⟨hcalls, hflush⟩ := hs hi hws
    have hstart : (s.setReadyState i .opened).Ordered := ⟨h.undisturbed, h.order, h.armed⟩
    have hg := ordered_greet hstart authThrows subscribeThrows hcalls
    show WebSocketClient.Kept (if _ then _ else _)
    split
    · next hif =>
      -- the fallback is armed
      refine ⟨⟨hg.undisturbed, hg.order, fun _ => hif.2⟩, fun _ hp => ?_⟩
      rw [hif.2] at hp
      cases hp
    · next hif =>
      by_cases hp : (s.greeted i calls authThrows subscribeThrows).switchAckPending = true
      · have hq : (s.greeted i calls authThrows subscribeThrows).outboundQueue = [] := by
          by_contra hq
          exact hif ⟨hq, hp⟩
        exact kept_flush hg fun _ => by
          rw [show ((s.setReadyState i .opened).greet calls authThrows subscribeThrows).outboundQueue = [] from hq]
          exact Nat.zero_le _
      · exact kept_flush hg (hflush (by simpa using hp))
  · have hguard : (s.setReadyState i .opened).ws ≠ some i ∨ (s.setReadyState i .opened).intentionalDisconnect = true := .inl hws
    rw [if_pos hguard]
    -- another socket opens, and is closed
    have ha : s.Alike (s.setReadyState i .opened) := by
      refine ⟨rfl, rfl, rfl, rfl, rfl, rfl, fun ho => ?_⟩
      obtain ⟨j, hj, ho⟩ := isOpen_iff.mp ho
      have hji : j ≠ i := fun hji => hws (hji ▸ hj)
      exact isOpen_iff.mpr ⟨j, hj, (hother j hji) ▸ ho⟩
    exact (h.alike ha).alike (alike_close _ i)

theorem kept_closes (h : s.Kept) (i : ℕ) : ((s.setReadyState i .closed).onclose i).Kept := by
  have ha : s.Alike (s.setReadyState i .closed) := alike_sockets fun j hj => by
    rcases InFlight.get_set hj with ⟨-, hopen⟩ | ⟨-, hj⟩
    · cases hopen
    · exact hj
  have hk := h.alike ha
  unfold onclose
  split
  · exact hk
  · have hnone : ({ s.setReadyState i .closed with ws := none, switchAckTimer := false, switchAckPending := false } : WebSocketClient).Kept :=
      ⟨⟨hk.undisturbed, hk.order, nofun⟩, fun ho => by
        obtain ⟨j, hj, -⟩ := isOpen_iff.mp ho
        cases hj⟩
    show WebSocketClient.Kept (if _ then _ else _)
    split
    · exact hnone
    · exact hnone.alike (alike_attemptReconnect _)

theorem kept_released (h : s.Kept) {flushes : ℕ} (hf : s.Flushes flushes) :
    ({ s with switchAckPending := false, switchAckTimer := false }.flushOutboundQueue flushes).Kept :=
  have hreleased : ({ s with switchAckPending := false, switchAckTimer := false } : WebSocketClient).Ordered :=
    ⟨h.undisturbed, h.order, nofun⟩
  kept_flush hreleased hf

theorem kept_step (s : WebSocketClient) (e : SocketEvent) (h : s.Kept) (hs : s.Steady e ∧ e ≠ .disconnect) : (s.step e).Kept := by
  cases e with
  | connect target constructs =>
    have ha : s.Alike { s with final := false } := ⟨rfl, rfl, rfl, rfl, rfl, rfl, id⟩
    exact (h.alike ha).connect target constructs
  | disconnect => exact absurd rfl hs.2
  | handleResume => exact h.alike (alike_handleResume s)
  | send message throws => exact kept_send h hs.1.1 hs.1.2
  | ping throws => exact kept_send h nofun hs.1
  | opens i calls authThrows subscribeThrows flushes =>
    show WebSocketClient.Kept (if _ then _ else _)
    split
    · next hi => exact kept_opens h hs.1 hi
    · exact h
  | startsClosing i => exact h.alike (alike_close s i)
  | closes i =>
    show WebSocketClient.Kept (if _ then _ else _)
    split
    · exact h
    · exact kept_closes h i
  | message i message flushes =>
    show WebSocketClient.Kept (if _ then _ else _)
    split
    · unfold onmessage
      split
      · exact h
      · next hguard =>
        split
        · next hack =>
          rw [not_or, not_not] at hguard
          exact kept_released h (hs.1 hguard.1 hack)
        · exact h
    · exact h
  | ackFallback flushes =>
    show WebSocketClient.Kept (if _ then _ else _)
    split
    · next ht => exact kept_released h (hs.1 ht)
    · exact h
  | reconnectTimer t =>
    show WebSocketClient.Kept (if _ then _ else _)
    split
    · exact h.alike ⟨rfl, rfl, rfl, rfl, rfl, rfl, id⟩
    · exact h
  | refreshed token constructs =>
    show WebSocketClient.Kept (if _ then _ else _)
    split
    · exact h
    · have ha : s.Alike { s with refreshes := s.refreshes - 1, authToken := (truthy token).or s.authToken } :=
        ⟨rfl, rfl, rfl, rfl, rfl, rfl, id⟩
      exact (h.alike ha).connect none constructs
  | tokenChanged token => exact h.alike ⟨rfl, rfl, rfl, rfl, rfl, rfl, id⟩

instance decidableWaits (s : WebSocketClient) (f : Frame) (throws : Bool) : Decidable (s.Waits f throws) :=
  inferInstanceAs (Decidable (f.own = false → s.isOpen = true → throws = false → userMessages s.outboundQueue = []))

instance decidableHolds (s : WebSocketClient) (f : Frame) (throws : Bool) : Decidable (s.Holds f throws) :=
  inferInstanceAs (Decidable (s.isOpen = true → throws = true → s.switchAckPending = true ∨ isSwitch f.message = true))

instance decidableFlushes (s : WebSocketClient) (flushes : ℕ) : Decidable (s.Flushes flushes) :=
  inferInstanceAs (Decidable (s.isOpen = true → s.outboundQueue.length ≤ flushes))

instance decidableSteady (s : WebSocketClient) (e) : Decidable (s.Steady e) := by
  unfold Steady
  split <;> infer_instance

theorem in_order_and_flushed (maxReconnectAttempts maxQueuedMessages : ℕ) (token : Option JsString) (es : List SocketEvent)
    (hd : SocketEvent.disconnect ∉ es) (h : Run.Along step Steady (createWebSocketClient maxReconnectAttempts maxQueuedMessages token) es) :
    (es.foldl step (createWebSocketClient maxReconnectAttempts maxQueuedMessages token)).InOrder ∧
      (es.foldl step (createWebSocketClient maxReconnectAttempts maxQueuedMessages token)).Flushed := by
  have hstart : (createWebSocketClient maxReconnectAttempts maxQueuedMessages token).Kept :=
    ⟨⟨rfl, rfl, nofun⟩, fun ho => by
      obtain ⟨i, hi, -⟩ := isOpen_iff.mp ho
      cases hi⟩
  have hk := Run.invariant kept_step hstart (Run.along_and.mpr ⟨h, ?_⟩)
  · exact ⟨hk.order, fun ho hp => .inl (hk.flushed ho hp)⟩
  · clear h hstart
    generalize createWebSocketClient maxReconnectAttempts maxQueuedMessages token = s
    induction es generalizing s with
    | nil => trivial
    | cons e es ih =>
      rw [mem_cons, not_or] at hd
      exact ⟨Ne.symm hd.1, ih hd.2 _⟩

def prompt (text : JsString) : Json := .obj [(js "type", .str (js "prompt")), (js "message", .str text)]

/-- Two prompts are held while the socket is down, and go out when the switch is acknowledged. -/
def heldPrompts : List SocketEvent :=
  [.connect none true, .send (prompt (js "one")) false, .send (prompt (js "two")) false,
    .opens 0 [(.obj [(js "type", .str (js "switch_session"))], false)] false false 0,
    .message 0 (.obj [(js "type", .str (js "session_switched"))]) 2, .send (prompt (js "three")) false]

theorem in_order_and_flushed_held : (heldPrompts.foldl step (createWebSocketClient 5 50 (some (js "t")))).InOrder ∧
      (heldPrompts.foldl step (createWebSocketClient 5 50 (some (js "t")))).Flushed :=
  in_order_and_flushed 5 50 (some (js "t")) heldPrompts (by decide +kernel) (by decide +kernel)

/-- The queue is held for the switch, and the next prompt is not. -/
theorem a_send_overtakes_the_queue : ¬ ∀ es : List SocketEvent, SocketEvent.disconnect ∉ es →
      (es.foldl step (createWebSocketClient 5 50 none)).InOrder ∧ (es.foldl step (createWebSocketClient 5 50 none)).Flushed := by
  intro h
  have hrun := (h [.connect none true, .send (prompt (js "one")) false,
    .opens 0 [(.obj [(js "type", .str (js "switch_session"))], false)] false false 0, .send (prompt (js "two")) false]
    (by decide +kernel)).1
  revert hrun
  unfold InOrder
  decide +kernel

/-- A prompt whose send throws is queued, and the open socket flushes nothing. -/
theorem a_failed_send_is_stranded :
    ¬ ∀ es : List SocketEvent, SocketEvent.disconnect ∉ es → (es.foldl step (createWebSocketClient 5 50 none)).Flushed := by
  intro h
  have hrun := h [.connect none true, .opens 0 [] false false 0, .send (prompt (js "one")) true] (by decide +kernel)
  revert hrun
  unfold Flushed
  decide +kernel

end WebSocketClient

end PiWebUi.Client
