/-
  PiWebUi.Client.Reconnects — one connection, one reconnect timer, and none after a
  disconnect, of both clients.

  `WebSocketClient`: along a run in which no reconnect is scheduled while the timer of
  another is pending, and no CSRF refresh completes after a disconnect. `JSONRPCClient`:
  along one in which no close event is of a socket the client has given up, and no
  handshake of a reconnect fails while attempts remain. Then of all sockets at most one is
  connecting or open, at most one timer is pending, and no socket was created between a
  disconnect and the next `connect` (`single_connection`).
-/

import PiWebUi.Client.Outbox
import PiWebUi.Client.Requests

namespace PiWebUi.Client

open PiWebUi.Lib List Option

/-! ## Sockets of which one is live -/

/-- No socket but `ws` is connecting or open. -/
def OnlyLive (states : List ReadyState) (ws : Option ℕ) : Prop :=
  ∀ (i : ℕ) (st : ReadyState), states[i]? = some st → st.live = true → ws = some i

namespace OnlyLive

variable {states states' : List ReadyState} {ws ws' : Option ℕ}

/-- Two live sockets are one. -/
theorem single (h : OnlyLive states ws) {i j : ℕ} {a b : ReadyState} (hi : states[i]? = some a) (hj : states[j]? = some b)
    (ha : a.live = true) (hb : b.live = true) : i = j :=
  some.inj ((h i a hi ha).symm.trans (h j b hj hb))

/-- No socket becomes live. -/
theorem mono (h : OnlyLive states ws)
    (hm : ∀ (i : ℕ) (st : ReadyState), states'[i]? = some st → st.live = true → ∃ a, states[i]? = some a ∧ a.live = true) :
    OnlyLive states' ws := fun i st hi hl =>
  have ⟨a, ha, hal⟩ := hm i st hi hl
  h i a ha hal

/-- The client drops a socket that is not live. -/
theorem drop (h : OnlyLive states ws) (hd : ∀ (i : ℕ) (st : ReadyState), ws = some i → states[i]? = some st → st.live = false) :
    OnlyLive states ws' := fun i st hi hl => absurd hl (by rw [hd i st (h i st hi hl) hi]; nofun)

/-- A new socket, when none is live. -/
theorem append (h : OnlyLive states none) (st : ReadyState) : OnlyLive (states ++ [st]) (some states.length) := fun i a hi hl => by
  rcases InFlight.get_append hi with hi | ⟨rfl, -⟩
  · cases h i a hi hl
  · rfl

theorem modify (h : OnlyLive states ws) (i : ℕ) {f : ReadyState → ReadyState} (hf : ∀ st, (f st).live = true → st.live = true) :
    OnlyLive (states.modify i f) ws := by
  refine h.mono fun j st hj hl => ?_
  rcases InFlight.get_modify hj with ⟨rfl, a, ha, rfl⟩ | ⟨-, hj⟩
  · exact ⟨a, ha, hf a hl⟩
  · exact ⟨st, hj, hl⟩

/-- The client closes its socket and drops it. -/
theorem modify_drop {i : ℕ} (h : OnlyLive states (some i)) {f : ReadyState → ReadyState} (hf : ∀ st, (f st).live = false) :
    OnlyLive (states.modify i f) none := by
  have hm : OnlyLive (states.modify i f) (some i) := h.modify i fun st hst => by rw [hf] at hst; cases hst
  refine hm.drop fun j st hj hst => ?_
  cases hj
  rw [getElem?_modify_eq] at hst
  obtain ⟨a, -, rfl⟩ := map_eq_some_iff.mp hst
  exact hf a

end OnlyLive

/-- What is claimed of a client's sockets and timers. -/
structure SingleConnection (states : List ReadyState) (ws : Option ℕ) (timers : List ℕ) (strayed : Bool) : Prop where
  own : OnlyLive states ws
  single : ∀ (i j : ℕ) (a b : ReadyState), states[i]? = some a → states[j]? = some b → a.live = true → b.live = true → i = j
  timers : timers.length ≤ 1
  final : strayed = false

/-! ## `WebSocketClient` -/

namespace WebSocketClient

/-- A reconnect that is scheduled is the only one. -/
def Free (s : WebSocketClient) : Prop := s.timers = [] ∨ s.maxReconnectAttempts ≤ s.reconnectAttempts

def Patient (s : WebSocketClient) : SocketEvent → Prop
  | .connect _ constructs => s.connected = false → constructs = false → s.Free
  | .refreshed _ constructs => s.refreshes ≠ 0 → s.final = false ∧ (s.connected = false → constructs = false → s.Free)
  | .closes i => s.ws = some i → s.sockets[i]? ≠ some .closed → s.intentionalDisconnect = false → s.Free
  | _ => True

structure Lone (s : WebSocketClient) : Prop where
  live : OnlyLive s.sockets s.ws
  timers : s.timers.length ≤ 1
  final : s.strayed = false

/-- The sockets are as they were, and no timer was set. -/
structure SameSockets (s s' : WebSocketClient) : Prop where
  sockets : s'.sockets = s.sockets
  ws : s'.ws = s.ws
  strayed : s'.strayed = s.strayed
  timers : s'.timers.Sublist s.timers

theorem SameSockets.refl (s : WebSocketClient) : s.SameSockets s := ⟨rfl, rfl, rfl, List.Sublist.refl _⟩

variable {s : WebSocketClient}

theorem SameSockets.trans {t u : WebSocketClient} (h : s.SameSockets t) (k : t.SameSockets u) : s.SameSockets u :=
  ⟨k.sockets.trans h.sockets, k.ws.trans h.ws, k.strayed.trans h.strayed, k.timers.trans h.timers⟩

theorem Lone.same {s' : WebSocketClient} (h : s.Lone) (hs : s.SameSockets s') : s'.Lone where
  live := by
    rw [hs.sockets, hs.ws]
    exact h.live
  timers := hs.timers.length_le.trans h.timers
  final := hs.strayed.trans h.final

theorem same_handleResume (s : WebSocketClient) : s.SameSockets s.handleResume := by
  unfold handleResume
  split
  · exact .refl s
  · split
    · exact .refl s
    · exact ⟨rfl, rfl, rfl, filter_sublist⟩

theorem same_queueOutbound (s : WebSocketClient) (f : Frame) : s.SameSockets (s.queueOutbound f).1 := by
  unfold queueOutbound
  split
  · exact .refl s
  · split
    · exact .refl s
    · have h := same_handleResume { s with outboundQueue := s.outboundQueue ++ [f] }
      exact ⟨h.sockets, h.ws, h.strayed, h.timers⟩

theorem same_record {f : Frame} {r : WebSocketClient × SendResult} (h : s.SameSockets r.1) : s.SameSockets (record f r) := by
  unfold record
  split
  · exact ⟨h.sockets, h.ws, h.strayed, h.timers⟩
  · exact h

theorem same_send (s : WebSocketClient) (f : Frame) (throws : Bool) : s.SameSockets (s.send f throws) := by
  unfold send
  refine same_record ?_
  split
  · have hs : s.SameSockets (if isSwitch f.message then { s with switchAckPending := true } else s) := by
      split
      · exact ⟨rfl, rfl, rfl, List.Sublist.refl _⟩
      · exact .refl s
    show s.SameSockets (if _ then _ else _ : WebSocketClient × SendResult).1
    split
    · exact hs.trans (same_queueOutbound _ f)
    · exact ⟨hs.sockets, hs.ws, hs.strayed, hs.timers⟩
  · exact same_queueOutbound s f

theorem same_flushOutboundQueue (s : WebSocketClient) (flushes : ℕ) : s.SameSockets (s.flushOutboundQueue flushes) := by
  unfold flushOutboundQueue
  split
  · exact ⟨rfl, rfl, rfl, List.Sublist.refl _⟩
  · exact .refl s

theorem same_statusCalls (s : WebSocketClient) (calls : List (Json × Bool)) : s.SameSockets (calls.foldl statusCall s) := by
  induction calls generalizing s with
  | nil => exact .refl s
  | cons call calls ih => exact (same_send s ⟨call.1, isSwitch call.1⟩ call.2).trans (ih _)

theorem same_greet (s : WebSocketClient) (calls : List (Json × Bool)) (authThrows subscribeThrows : Bool) :
    s.SameSockets (s.greet calls authThrows subscribeThrows) := by
  have hstart : s.SameSockets { calls.foldl statusCall s with reconnectAttempts := 0 } :=
    have h := same_statusCalls s calls
    ⟨h.sockets, h.ws, h.strayed, h.timers⟩
  have hsubscribed : ∀ (t : WebSocketClient) (path : JsString), t.SameSockets
      { t.send (subscribeFrame path) subscribeThrows with pendingSessionReconnect := none, switchAckPending := true } := by
    intro t path
    have h := same_send t (subscribeFrame path) subscribeThrows
    exact ⟨h.sockets, h.ws, h.strayed, h.timers⟩
  refine hstart.trans ?_
  cases htoken : truthy (calls.foldl statusCall s).csrfToken with
  | some token =>
    have hauth := same_send { calls.foldl statusCall s with reconnectAttempts := 0 } (authFrame token) authThrows
    simp only [greet, htoken]
    split
    · exact hauth.trans (hsubscribed _ _)
    · exact hauth
  | none =>
    simp only [greet, htoken]
    split
    · exact hsubscribed _ _
    · exact .refl _

theorem lone_attemptReconnect (h : s.Lone) (hf : s.Free) : s.attemptReconnect.Lone := by
  unfold attemptReconnect
  split
  · exact h
  · next hmax =>
    refine ⟨h.live, ?_, h.final⟩
    rw [hf.resolve_right hmax]
    exact Nat.le_refl _

theorem lone_close (h : s.Lone) (i : ℕ) : (s.close i).Lone :=
  ⟨h.live.modify i fun st hst => by
    split at hst
    · cases hst
    · exact hst, h.timers, h.final⟩

theorem not_live_of_not_connected (h : s.connected = false) (i : ℕ) (st : ReadyState) (hi : s.ws = some i)
    (hst : s.sockets[i]? = some st) : st.live = false := by
  have hr : s.readyState = some st := by rw [readyState, hi]; exact hst
  simpa [connected, hr] using h

theorem lone_connect (h : s.Lone) (hfinal : s.final = false) (target : Option JsString) (constructs : Bool)
    (hf : s.connected = false → constructs = false → s.Free) : (s.connect target constructs).Lone := by
  unfold connect
  split
  · exact h
  · next hc =>
    have hc : s.connected = false := by simpa using hc
    have hnone : OnlyLive s.sockets none := h.live.drop (not_live_of_not_connected hc)
    split
    · refine ⟨hnone.append .connecting, h.timers, ?_⟩
      show (s.strayed || s.final) = false
      rw [h.final, hfinal]
      rfl
    · next hcon =>
      have hs : s.SameSockets { s with
          intentionalDisconnect := false
          pendingSessionReconnect := (truthy target).or s.pendingSessionReconnect
          csrfToken := s.authToken } := ⟨rfl, rfl, rfl, List.Sublist.refl _⟩
      exact lone_attemptReconnect (h.same hs) (hf hc (by simpa using hcon))

theorem lone_disconnect (h : s.Lone) : s.disconnect.Lone := by
  have hlive := h.live
  have htimers : (s.timers.filter fun t => some t ≠ s.reconnectTimer).length ≤ 1 := (length_filter_le _ _).trans h.timers
  unfold disconnect
  refine ⟨?_, ?_, ?_⟩
  · dsimp only
    split
    · next i hi =>
      have hi : s.ws = some i := hi
      rw [hi] at hlive
      refine hlive.modify_drop fun st => ?_
      split
      · rfl
      · next hl => simpa using hl
    · next hi =>
      have hi : s.ws = none := hi
      rw [hi] at hlive
      exact hlive
  · dsimp only
    split <;> exact htimers
  · dsimp only
    split <;> exact h.final

theorem lone_opens (h : s.Lone) {i : ℕ} (hi : s.sockets[i]? = some .connecting) (calls : List (Json × Bool))
    (authThrows subscribeThrows : Bool) (flushes : ℕ) :
    ((s.setReadyState i .opened).onopen i calls authThrows subscribeThrows flushes).Lone := by
  have hopen : (s.setReadyState i .opened).Lone := by
    refine ⟨h.live.mono fun j st hj hl => ?_, h.timers, h.final⟩
    rcases InFlight.get_set hj with ⟨rfl, -⟩ | ⟨-, hj⟩
    · exact ⟨_, hi, rfl⟩
    · exact ⟨st, hj, hl⟩
  unfold onopen
  split
  · exact lone_close hopen i
  · have hg := hopen.same (same_greet _ calls authThrows subscribeThrows)
    show Lone (if _ then _ else _)
    split
    · exact ⟨hg.live, hg.timers, hg.final⟩
    · exact hg.same (same_flushOutboundQueue _ flushes)

theorem lone_closes (h : s.Lone) {i : ℕ} (hf : s.ws = some i → s.intentionalDisconnect = false → s.Free) :
    ((s.setReadyState i .closed).onclose i).Lone := by
  have hclosed : (s.setReadyState i .closed).Lone := by
    refine ⟨h.live.mono fun j st hj hl => ?_, h.timers, h.final⟩
    rcases InFlight.get_set hj with ⟨-, rfl⟩ | ⟨-, hj⟩
    · cases hl
    · exact ⟨st, hj, hl⟩
  unfold onclose
  split
  · exact hclosed
  · next hws =>
    have hws : s.ws = some i := not_not.mp hws
    have hdrop : OnlyLive (s.sockets.set i .closed) none := by
      refine hclosed.live.drop fun j st hj hst => ?_
      have hj : s.ws = some j := hj
      obtain rfl : i = j := some.inj (hws.symm.trans hj)
      obtain ⟨-, rfl⟩ | ⟨hne, -⟩ := InFlight.get_set hst
      · rfl
      · exact absurd rfl hne
    have hdropped : ({ s.setReadyState i .closed with ws := none, switchAckTimer := false, switchAckPending := false } : WebSocketClient).Lone :=
      ⟨hdrop, h.timers, h.final⟩
    show Lone (if _ then _ else _)
    split
    · exact hdropped
    · next hd => exact lone_attemptReconnect hdropped (hf hws (Bool.eq_false_iff.mpr hd))

theorem lone_step (s : WebSocketClient) (e : SocketEvent) (h : s.Lone) (hp : s.Patient e) : (s.step e).Lone := by
  cases e with
  | connect target constructs =>
    have hs : ({ s with final := false } : WebSocketClient).Lone := ⟨h.live, h.timers, h.final⟩
    exact lone_connect hs rfl target constructs hp
  | disconnect => exact lone_disconnect h
  | handleResume => exact h.same (same_handleResume s)
  | send message throws | ping throws => exact h.same (same_send s _ throws)
  | opens i calls authThrows subscribeThrows flushes =>
    show Lone (if _ then _ else _)
    split
    · next hi => exact lone_opens h hi calls authThrows subscribeThrows flushes
    · exact h
  | startsClosing i => exact lone_close h i
  | closes i =>
    show Lone (if _ then _ else _)
    split
    · exact h
    · next hi => exact lone_closes h fun hws hd => hp hws (fun hc => hi (.inr hc)) hd
  | message i message flushes =>
    show Lone (if _ then _ else _)
    split
    · unfold onmessage
      split
      · exact h
      · split
        · have hs : ({ s with switchAckPending := false, switchAckTimer := false } : WebSocketClient).Lone := ⟨h.live, h.timers, h.final⟩
          exact hs.same (same_flushOutboundQueue _ flushes)
        · exact h
    · exact h
  | ackFallback flushes =>
    show Lone (if _ then _ else _)
    split
    · have hs : ({ s with switchAckTimer := false, switchAckPending := false } : WebSocketClient).Lone := ⟨h.live, h.timers, h.final⟩
      exact hs.same (same_flushOutboundQueue _ flushes)
    · exact h
  | reconnectTimer t =>
    show Lone (if _ then _ else _)
    split
    · exact ⟨h.live, (length_filter_le _ _).trans h.timers, h.final⟩
    · exact h
  | refreshed token constructs =>
    show Lone (if _ then _ else _)
    split
    · exact h
    · next hr =>
      obtain ⟨hfinal, hf⟩ := hp hr
      have hs : ({ s with refreshes := s.refreshes - 1, authToken := (truthy token).or s.authToken } : WebSocketClient).Lone :=
        ⟨h.live, h.timers, h.final⟩
      exact lone_connect hs hfinal none constructs hf
  | tokenChanged token => exact ⟨h.live, h.timers, h.final⟩

def Single (s : WebSocketClient) : Prop := SingleConnection s.sockets s.ws s.timers s.strayed

theorem Lone.single (h : s.Lone) : s.Single :=
  ⟨h.live, fun _ _ _ _ hi hj ha hb => h.live.single hi hj ha hb, h.timers, h.final⟩

theorem lone_createWebSocketClient (maxReconnectAttempts maxQueuedMessages : ℕ) (token : Option JsString) :
    (createWebSocketClient maxReconnectAttempts maxQueuedMessages token).Lone :=
  ⟨nofun, Nat.zero_le _, rfl⟩

instance decidableFree (s : WebSocketClient) : Decidable s.Free :=
  inferInstanceAs (Decidable (s.timers = [] ∨ s.maxReconnectAttempts ≤ s.reconnectAttempts))

instance decidablePatient (s : WebSocketClient) (e) : Decidable (s.Patient e) := by
  unfold Patient
  split <;> infer_instance

end WebSocketClient

/-! ## `JSONRPCClient` -/

namespace JSONRPCClient

def states (s : JSONRPCClient) : List ReadyState := s.sockets.map RpcSocket.readyState

/-- No attempt to reconnect is left. -/
def Exhausted (s : JSONRPCClient) : Prop := s.maxReconnectAttempts ≤ s.reconnectAttempts

def Orderly (s : JSONRPCClient) : RpcEvent → Prop
  | .errors i => ∀ k ∈ s.sockets[i]?, k.readyState ≠ .closed → k.handshake = true → k.awaited = true → k.reconnect = true →
    (s.ws = some i ∨ s.ws = none ∧ s.timers = []) ∧ s.Exhausted
  | .closes i => ∀ k ∈ s.sockets[i]?, k.closeFired = false →
    (s.ws = some i ∨ s.ws = none ∧ s.timers = [] ∧ s.Exhausted) ∧
      (k.handshake = true → k.awaited = true → k.reconnect = true → s.Exhausted)
  | _ => True

/-- The close event of the client's socket was fired. -/
def Lost (s : JSONRPCClient) : Prop := ∀ (i : ℕ) (k : RpcSocket), s.ws = some i → s.sockets[i]? = some k → k.closeFired = true

structure Sole (s : JSONRPCClient) : Prop where
  live : OnlyLive s.states s.ws
  fired : ∀ (i : ℕ) (k : RpcSocket), s.sockets[i]? = some k → k.closeFired = true → k.readyState = .closed
  timer : s.timers = [] ∨ (∃ t, s.timers = [t] ∧ s.reconnectTimer = some t) ∧ s.connectionState = .connecting ∧ s.Lost
  idle : s.connectionState = .disconnected → s.timers = [] ∧ ∀ (i : ℕ) (k : RpcSocket), s.ws = some i → s.sockets[i]? = some k →
    k.readyState = .closed ∧ (k.closeFired = true ∨ s.Exhausted)
  state : s.connectionState ≠ .disconnecting
  final : s.final = true → s.connectionState = .disconnected
  strayed : s.strayed = false

/-- The connection is as it was. -/
structure SameConnection (s s' : JSONRPCClient) : Prop where
  sockets : s'.sockets = s.sockets
  ws : s'.ws = s.ws
  timers : s'.timers = s.timers
  reconnectTimer : s'.reconnectTimer = s.reconnectTimer
  connectionState : s'.connectionState = s.connectionState
  attempts : s'.Exhausted ↔ s.Exhausted
  final : s'.final = s.final
  strayed : s'.strayed = s.strayed

variable {s : JSONRPCClient}

theorem Sole.same {s' : JSONRPCClient} (h : s.Sole) (hs : s.SameConnection s') : s'.Sole where
  live := by
    rw [states, hs.sockets, hs.ws]
    exact h.live
  fired := by
    rw [hs.sockets]
    exact h.fired
  timer := by
    rw [Lost, hs.timers, hs.reconnectTimer, hs.connectionState, hs.sockets, hs.ws]
    exact h.timer
  idle := by
    rw [hs.connectionState, hs.timers, hs.sockets, hs.ws, hs.attempts]
    exact h.idle
  state := hs.connectionState ▸ h.state
  final := by
    rw [hs.final, hs.connectionState]
    exact h.final
  strayed := hs.strayed.trans h.strayed

theorem same_rejectAllPending (s : JSONRPCClient) : s.SameConnection s.rejectAllPending := ⟨rfl, rfl, rfl, rfl, rfl, Iff.rfl, rfl, rfl⟩

/-- A socket changes, and neither becomes live nor is unclosed. -/
theorem sole_onSocket (h : s.Sole) (i : ℕ) {f : RpcSocket → RpcSocket}
    (hlive : ∀ k, s.sockets[i]? = some k → (f k).readyState.live = true → k.readyState.live = true)
    (hclosed : ∀ k, k.readyState = .closed → s.sockets[i]? = some k → (f k).readyState = .closed)
    (hfired : ∀ k, k.closeFired = true → (f k).closeFired = true)
    (hnew : ∀ k, (f k).closeFired = true → k.closeFired = true ∨ (f k).readyState = .closed) : (s.onSocket i f).Sole := by
  have hget : ∀ (j : ℕ) (k : RpcSocket), (s.sockets.modify i f)[j]? = some k →
      ∃ k₀, s.sockets[j]? = some k₀ ∧ (k = k₀ ∨ k = f k₀ ∧ i = j) := by
    intro j k hk
    rcases InFlight.get_modify hk with ⟨rfl, k₀, hk₀, rfl⟩ | ⟨-, hk⟩
    · exact ⟨k₀, hk₀, .inr ⟨rfl, rfl⟩⟩
    · exact ⟨k, hk, .inl rfl⟩
  have hlost : s.Lost → (s.onSocket i f).Lost := by
    intro hl j k hws hk
    obtain ⟨k₀, hk₀, rfl | ⟨rfl, rfl⟩⟩ := hget _ k hk
    · exact hl j k hws hk₀
    · exact hfired k₀ (hl _ k₀ hws hk₀)
  refine
    { live := ?_, fired := ?_, timer := h.timer.imp_right fun ⟨ht, hc, hl⟩ => ⟨ht, hc, hlost hl⟩, idle := ?_, state := h.state,
      final := h.final, strayed := h.strayed }
  · refine h.live.mono fun j st hj hl => ?_
    rw [states, getElem?_map] at hj
    obtain ⟨k, hk, rfl⟩ := map_eq_some_iff.mp hj
    obtain ⟨k₀, hk₀, rfl | ⟨rfl, rfl⟩⟩ := hget _ k hk
    · exact ⟨k.readyState, by rw [states, getElem?_map, hk₀]; rfl, hl⟩
    · exact ⟨k₀.readyState, by rw [states, getElem?_map, hk₀]; rfl, hlive k₀ hk₀ hl⟩
  · intro j k hk hkf
    obtain ⟨k₀, hk₀, rfl | ⟨rfl, rfl⟩⟩ := hget _ k hk
    · exact h.fired j k hk₀ hkf
    · rcases hnew k₀ hkf with h0 | h0
      · exact hclosed k₀ (h.fired _ k₀ hk₀ h0) hk₀
      · exact h0
  · intro hd
    obtain ⟨ht, hi⟩ := h.idle hd
    refine ⟨ht, fun j k hws hk => ?_⟩
    obtain ⟨k₀, hk₀, rfl | ⟨rfl, rfl⟩⟩ := hget _ k hk
    · exact hi j k hws hk₀
    · exact ⟨hclosed k₀ (hi _ k₀ hws hk₀).1 hk₀, (hi _ k₀ hws hk₀).2.imp_left (hfired k₀)⟩

theorem sole_cleanup (h : s.Sole) (i : ℕ) : (s.cleanup i).Sole := by
  unfold cleanup
  split
  · exact sole_onSocket h i (fun _ _ hl => hl) (fun _ hc _ => hc) (fun _ hc => hc) fun _ hc => .inl hc
  · exact h

/-! ### Reconnects -/

theorem sole_attemptReconnect (h : s.Sole) (ht : s.timers = []) (hl : s.Lost) (hf : s.final = true → s.Exhausted) :
    s.attemptReconnect.Sole := by
  unfold attemptReconnect
  split
  · exact
      { live := h.live, fired := h.fired, timer := .inl ht,
        idle := fun _ => ⟨ht, fun i k hws hk => ⟨h.fired i k hk (hl i k hws hk), .inl (hl i k hws hk)⟩⟩
        state := nofun, final := fun _ => rfl, strayed := h.strayed }
  · next hmax =>
    refine
      { live := h.live, fired := h.fired, timer := .inr ⟨⟨s.timersMade, ?_, rfl⟩, rfl, hl⟩, idle := nofun, state := nofun,
        final := fun hfin => absurd (hf hfin) hmax, strayed := h.strayed }
    rw [ht]
    rfl

/-- No attempt is left for what the client has lost. -/
theorem sole_disconnected (h : s.Sole) (ht : s.timers = [])
    (hw : ∀ (i : ℕ) (k : RpcSocket), s.ws = some i → s.sockets[i]? = some k → k.readyState = .closed ∧ (k.closeFired = true ∨ s.Exhausted)) :
    ({ s with connectionState := .disconnected } : JSONRPCClient).Sole where
  live := h.live
  fired := h.fired
  timer := .inl ht
  idle _ := ⟨ht, hw⟩
  state := nofun
  final _ := rfl
  strayed := h.strayed

theorem sole_establish (h : s.Sole) (hd : s.connectionState = .disconnected) (hf : s.final = false) (url : JsString)
    (constructs reconnect : Bool) : (s.establish url constructs reconnect).Sole := by
  obtain ⟨ht, hi⟩ := h.idle hd
  unfold establish
  split
  · have hnone : OnlyLive s.states none := h.live.drop fun i st hws hst => by
      rw [states, getElem?_map] at hst
      obtain ⟨k, hk, rfl⟩ := map_eq_some_iff.mp hst
      rw [(hi i k hws hk).1]
      rfl
    refine
      { live := ?_, fired := ?_, timer := .inl ht, idle := nofun, state := nofun, final := fun hfin => ?_, strayed := ?_ }
    · have := hnone.append .connecting
      rw [states, length_map] at this
      rw [states, map_append]
      exact this
    · intro i k hk hkf
      rcases InFlight.get_append hk with hk | ⟨-, rfl⟩
      · exact h.fired i k hk hkf
      · cases hkf
    · have hfin : s.final = true := hfin
      rw [hf] at hfin
      cases hfin
    · show (s.strayed || s.final) = false
      rw [h.strayed, hf]
      rfl
  · exact sole_disconnected (s := { s with url := some url }) (h.same ⟨rfl, rfl, rfl, rfl, rfl, Iff.rfl, rfl, rfl⟩) ht hi

theorem not_live_startClosing (k : RpcSocket) : (startClosing k).readyState.live = false := by
  unfold startClosing
  split
  · rfl
  · next hl => simpa using hl

theorem sole_startsClosing (h : s.Sole) (i : ℕ) : (s.onSocket i startClosing).Sole := by
  have hfired : ∀ k, (startClosing k).closeFired = k.closeFired := fun k => by
    unfold startClosing
    split <;> rfl
  refine sole_onSocket h i (fun k _ hl => ?_) (fun k hk _ => ?_) (fun k hk => (hfired k).trans hk) fun k hk => .inl ((hfired k).symm.trans hk)
  · rw [not_live_startClosing] at hl
    cases hl
  · rw [startClosing, hk]
    exact hk

theorem sole_closeSocket (h : s.Sole) : s.closeSocket.Sole ∧ OnlyLive s.closeSocket.states none := by
  unfold closeSocket
  split
  · next i hws =>
    have hs := sole_startsClosing h i
    refine ⟨hs, hs.live.drop fun j st hj hst => ?_⟩
    have hj : s.ws = some j := hj
    obtain rfl : i = j := some.inj (hws.symm.trans hj)
    rw [states, getElem?_map] at hst
    obtain ⟨k, hk, rfl⟩ := map_eq_some_iff.mp hst
    have hk : (s.sockets.modify i startClosing)[i]? = some k := hk
    rw [getElem?_modify_eq] at hk
    obtain ⟨k₀, -, rfl⟩ := map_eq_some_iff.mp hk
    exact not_live_startClosing k₀
  · next hws =>
    have hlive := h.live
    rw [hws] at hlive
    exact ⟨h, hlive⟩

theorem closeSocket_fields (s : JSONRPCClient) : s.closeSocket.timers = s.timers ∧ s.closeSocket.final = s.final := by
  unfold closeSocket
  split <;> exact ⟨rfl, rfl⟩

theorem sole_disconnect (h : s.Sole) : s.disconnect.Sole ∧ s.disconnect.connectionState = .disconnected ∧
    s.disconnect.final = s.final := by
  unfold disconnect
  split
  · next hd => exact ⟨h, hd.resolve_right h.state, rfl⟩
  · next hd =>
    have htimers : (s.timers.filter fun t => some t ≠ s.reconnectTimer) = [] := by
      rcases h.timer with ht | ⟨⟨t, ht, hr⟩, -⟩
      · rw [ht]
        rfl
      · rw [ht, hr]
        simp
    have hcleared : ({ s with timers := s.timers.filter fun t => some t ≠ s.reconnectTimer, reconnectTimer := none } : JSONRPCClient).Sole :=
      { live := h.live, fired := h.fired, timer := .inl htimers, idle := fun hs => absurd (.inl hs) hd, state := h.state, final := h.final,
        strayed := h.strayed }
    obtain ⟨hc, hnone⟩ := sole_closeSocket (hcleared.same (same_rejectAllPending _))
    obtain ⟨ht, hf⟩ := closeSocket_fields
      ({ s with timers := s.timers.filter fun t => some t ≠ s.reconnectTimer, reconnectTimer := none } : JSONRPCClient).rejectAllPending
    exact
      ⟨{ live := hnone, fired := hc.fired, timer := .inl (ht.trans htimers), idle := fun _ => ⟨ht.trans htimers, (fun _ _ h => by cases h)⟩, state := (fun h => by cases h)
         final := fun _ => rfl, strayed := hc.strayed }, rfl, hf⟩

theorem sole_connect (h : s.Sole) (hf : s.final = false) (url : JsString) (constructs : Bool) :
    (s.connect url constructs).Sole := by
  unfold connect
  split
  · split
    · exact h
    · obtain ⟨hs, hd, hfin⟩ := sole_disconnect h
      exact sole_establish hs hd (hfin.trans hf) url constructs false
  · next hc =>
    rw [not_or] at hc
    have hd : s.connectionState = .disconnected := by
      have := h.state
      cases hs : s.connectionState <;> simp_all
    exact sole_establish h hd hf url constructs false

theorem sole_reconnects (h : s.Sole) {t : ℕ} (ht : t ∈ s.timers) (constructs : Bool) : (s.reconnects t constructs).Sole := by
  obtain ⟨⟨t', hts, -⟩, hc, hl⟩ := h.timer.resolve_left fun hnil => by rw [hnil] at ht; cases ht
  have hfinal : s.final = false := by
    by_contra hf
    have := h.final (by simpa using hf)
    rw [hc] at this
    cases this
  have hnil : s.timers.filter (· ≠ t) = [] := by
    rw [hts] at ht ⊢
    rw [mem_singleton.mp ht]
    simp
  have hgone : OnlyLive s.states none := h.live.drop fun i st hws hst => by
    rw [states, getElem?_map] at hst
    obtain ⟨k, hk, rfl⟩ := map_eq_some_iff.mp hst
    rw [h.fired i k hk (hl i k hws hk)]
    rfl
  simp only [reconnects]
  split
  · exact
      { live := h.live, fired := h.fired, timer := .inl hnil, idle := fun hd => absurd (hc.symm.trans hd) (by decide), state := h.state,
        final := h.final, strayed := h.strayed }
  · next url _ =>
    have hbase : ({ s with timers := s.timers.filter (· ≠ t), ws := none, connectionState := .disconnected } : JSONRPCClient).Sole :=
      { live := hgone, fired := h.fired, timer := .inl hnil, idle := fun _ => ⟨hnil, fun _ _ h => by cases h⟩, state := (fun h => by cases h),
        final := fun _ => rfl, strayed := h.strayed }
    show Sole (if _ then _ else _)
    split
    · next hcon => exact sole_establish hbase rfl hfinal url constructs true
    · next hcon =>
      have hcon : constructs = false := by simpa using hcon
      subst hcon
      have he := sole_establish hbase rfl hfinal url false true
      unfold reconnectFailed
      split
      · exact sole_attemptReconnect he hnil (fun _ _ h => by cases h) fun hf => by
          have hf : s.final = true := hf
          rw [hfinal] at hf
          cases hf
      · exact sole_disconnected he hnil (fun _ _ h => by cases h)

/-! ### The events of a socket -/

theorem readyState_live_of {i : ℕ} {k : RpcSocket} (hk : s.sockets[i]? = some k) : s.states[i]? = some k.readyState := by
  rw [states, getElem?_map, hk]
  rfl

/-- A socket that opens is the client's, which waits for nothing else. -/
theorem sole_opens (h : s.Sole) {i : ℕ} {k : RpcSocket} (hk : s.sockets[i]? = some k) (hc : k.readyState = .connecting) :
    ((s.onSocket i fun k => { k with readyState := .opened }).Sole) ∧
      ((s.onSocket i fun k => { k with readyState := .opened }).onOpen i).Sole := by
  have hws : s.ws = some i := h.live i _ (readyState_live_of hk) (by rw [hc]; rfl)
  have hopen : (s.onSocket i fun k => { k with readyState := .opened }).Sole := by
    refine sole_onSocket h i (fun k' hk' _ => ?_) (fun k' hk' hk'i => ?_) (fun _ hf => hf) fun _ hf => .inl hf
    · rw [hk] at hk'
      cases hk'
      rw [hc]
      rfl
    · rw [hk] at hk'i
      cases hk'i
      rw [hc] at hk'
      cases hk'
  have ht : s.timers = [] := by
    rcases h.timer with ht | ⟨-, -, hl⟩
    · exact ht
    · have := h.fired i k hk (hl i k hws hk)
      rw [hc] at this
      cases this
  have hd : s.connectionState ≠ .disconnected := fun hd => by
    have := ((h.idle hd).2 i k hws hk).1
    rw [hc] at this
    cases this
  have hclean : ((s.onSocket i fun k => { k with readyState := .opened }).cleanup i).onSocket i (fun k => { k with awaited := false }) |>.Sole :=
    sole_onSocket (sole_cleanup hopen i) i (fun _ _ hl => hl) (fun _ hc _ => hc) (fun _ hf => hf) fun _ hf => .inl hf
  have hfields : ∀ t : JSONRPCClient, (t.cleanup i).timers = t.timers ∧ (t.cleanup i).final = t.final := fun t => by
    unfold cleanup
    split <;> exact ⟨rfl, rfl⟩
  refine ⟨hopen, ?_⟩
  exact
    { live := hclean.live, fired := hclean.fired, timer := .inl ((hfields _).1.trans ht), idle := nofun, state := nofun
      final := fun hf => absurd (h.final ((hfields (s.onSocket i _)).2.symm.trans hf)) hd, strayed := hclean.strayed }

/-- The timers and what is left to try are as they were, and what was lost is. -/
structure SameEnd (s s' : JSONRPCClient) : Prop where
  timers : s'.timers = s.timers
  final : s'.final = s.final
  attempts : s'.Exhausted ↔ s.Exhausted
  lost : s.Lost → s'.Lost
  ended : (∀ (i : ℕ) (k : RpcSocket), s.ws = some i → s.sockets[i]? = some k → k.readyState = .closed) →
    ∀ (i : ℕ) (k : RpcSocket), s'.ws = some i → s'.sockets[i]? = some k → k.readyState = .closed

theorem SameEnd.refl (s : JSONRPCClient) : s.SameEnd s := ⟨rfl, rfl, Iff.rfl, id, id⟩

theorem SameEnd.trans {t u : JSONRPCClient} (h : s.SameEnd t) (k : t.SameEnd u) : s.SameEnd u :=
  ⟨k.timers.trans h.timers, k.final.trans h.final, k.attempts.trans h.attempts, fun hl => k.lost (h.lost hl), fun ho => k.ended (h.ended ho)⟩

theorem end_onSocket (s : JSONRPCClient) (i : ℕ) {f : RpcSocket → RpcSocket} (hfired : ∀ k, (f k).closeFired = k.closeFired)
    (hstate : ∀ k, (f k).readyState = k.readyState) : s.SameEnd (s.onSocket i f) := by
  have hget : ∀ (j : ℕ) (k : RpcSocket), (s.sockets.modify i f)[j]? = some k →
      ∃ k₀, s.sockets[j]? = some k₀ ∧ k.closeFired = k₀.closeFired ∧ k.readyState = k₀.readyState := by
    intro j k hk
    rcases InFlight.get_modify hk with ⟨rfl, k₀, hk₀, rfl⟩ | ⟨-, hk⟩
    · exact ⟨k₀, hk₀, hfired k₀, hstate k₀⟩
    · exact ⟨k, hk, rfl, rfl⟩
  refine ⟨rfl, rfl, Iff.rfl, fun hl j k hws hk => ?_, fun ho j k hws hk => ?_⟩
  · obtain ⟨k₀, hk₀, hc, -⟩ := hget j k hk
    exact hc.trans (hl j k₀ hws hk₀)
  · obtain ⟨k₀, hk₀, -, hr⟩ := hget j k hk
    exact hr.trans (ho j k₀ hws hk₀)

theorem end_cleanup (s : JSONRPCClient) (i : ℕ) : s.SameEnd (s.cleanup i) := by
  unfold cleanup
  split
  · exact end_onSocket s i (fun _ => rfl) fun _ => rfl
  · exact .refl s

/-- A handshake fails; if it was a reconnect's, no attempt is left. -/
theorem sole_rejectConnect (h : s.Sole) (i : ℕ) (k : RpcSocket)
    (hx : k.awaited = true → k.reconnect = true → s.timers = [] ∧ s.Exhausted ∧
      ∀ (j : ℕ) (k' : RpcSocket), s.ws = some j → s.sockets[j]? = some k' → k'.readyState = .closed) :
    ((s.cleanup i).rejectConnect i k).Sole ∧ s.SameEnd ((s.cleanup i).rejectConnect i k) := by
  have hc := sole_cleanup h i
  have he := end_cleanup s i
  unfold rejectConnect
  split
  · next ha =>
    have hs : ((s.cleanup i).onSocket i fun k => { k with awaited := false }).Sole :=
      sole_onSocket hc i (fun _ _ hl => hl) (fun _ hc _ => hc) (fun _ hf => hf) fun _ hf => .inl hf
    have he := he.trans (end_onSocket (s.cleanup i) i (f := fun k => { k with awaited := false }) (fun _ => rfl) fun _ => rfl)
    show Sole (if _ then _ else _) ∧ SameEnd s (if _ then _ else _)
    split
    · next hr =>
      obtain ⟨ht, hmax, hw⟩ := hx ha hr
      have hmax' := he.attempts.mpr hmax
      unfold reconnectFailed
      rw [if_neg (by unfold Exhausted at hmax'; omega)]
      refine ⟨sole_disconnected hs (he.timers.trans ht) fun j k' hws hk' => ⟨he.ended hw j k' hws hk', .inr hmax'⟩, ?_⟩
      exact ⟨he.timers, he.final, he.attempts, he.lost, he.ended⟩
    · exact ⟨hs, he⟩
  · exact ⟨hc, he⟩

theorem sole_handleClose (h : s.Sole) (ht : s.timers = []) (hl : s.Lost) (hf : s.final = true → s.Exhausted) :
    s.handleClose.Sole := by
  have hr := h.same (same_rejectAllPending s)
  unfold handleClose
  show Sole (if _ then _ else _)
  split
  · exact sole_attemptReconnect hr ht hl hf
  · exact sole_disconnected hr ht fun i k hws hk => ⟨hr.fired i k hk (hl i k hws hk), .inl (hl i k hws hk)⟩

theorem sole_errors (h : s.Sole) {i : ℕ} (ho : s.Orderly (.errors i)) : (s.step (.errors i)).Sole := by
  simp only [step]
  split
  · next k hk =>
    split
    · next hopen =>
      have hs : (s.onSocket i fun k => { k with readyState := .closed }).Sole :=
        sole_onSocket h i (fun _ _ h => by cases h) (fun _ _ _ => rfl) (fun _ hf => hf) fun _ hf => .inl hf
      show Sole (if _ then _ else _)
      split
      · next hh =>
        refine (sole_rejectConnect hs i k fun ha hr => ?_).1
        obtain ⟨hown, hmax⟩ := ho k (by rw [hk]; rfl) hopen hh ha hr
        refine ⟨?_, hmax, ?_⟩
        · rcases hown with hws | ⟨-, ht⟩
          · rcases h.timer with ht | ⟨-, -, hl⟩
            · exact ht
            · exact absurd (h.fired i k hk (hl i k hws hk)) hopen
          · exact ht
        · intro j k' hws hk'
          have hws : s.ws = some j := hws
          rcases hown with hi | ⟨hn, -⟩
          · obtain rfl : i = j := some.inj (hi.symm.trans hws)
            have hk' : (s.sockets.modify i _)[i]? = some k' := hk'
            rw [getElem?_modify_eq, hk] at hk'
            cases hk'
            rfl
          · rw [hn] at hws
            cases hws
      · exact hs
    · exact h
  · exact h

theorem sole_closes (h : s.Sole) {i : ℕ} (ho : s.Orderly (.closes i)) : (s.step (.closes i)).Sole := by
  simp only [step]
  split
  · next k hk =>
    split
    · next hfresh =>
      obtain ⟨hown, hmax⟩ := ho k (by rw [hk]; rfl) hfresh
      have hs : (s.onSocket i fun k => { k with readyState := .closed, closeFired := true }).Sole :=
        sole_onSocket h i (fun _ _ h => by cases h) (fun _ _ _ => rfl) (fun _ _ => rfl) fun _ _ => .inr rfl
      have ht : s.timers = [] := by
        rcases hown with hws | ⟨-, ht, -⟩
        · rcases h.timer with ht | ⟨-, -, hl⟩
          · exact ht
          · have := hl i k hws hk
            rw [hfresh] at this
            cases this
        · exact ht
      have hlost : (s.onSocket i fun k => { k with readyState := .closed, closeFired := true }).Lost := by
        intro j k' hws hk'
        have hws : s.ws = some j := hws
        rcases hown with hi | ⟨hn, -, -⟩
        · obtain rfl : i = j := some.inj (hi.symm.trans hws)
          have hk' : (s.sockets.modify i _)[i]? = some k' := hk'
          rw [getElem?_modify_eq, hk] at hk'
          cases hk'
          rfl
        · rw [hn] at hws
          cases hws
      have hfinal : s.final = true → s.Exhausted := by
        intro hf
        rcases hown with hws | ⟨-, -, hx⟩
        · rcases ((h.idle (h.final hf)).2 i k hws hk).2 with hc | hx
          · rw [hfresh] at hc
            cases hc
          · exact hx
        · exact hx
      show Sole (if _ then _ else _ : JSONRPCClient).handleClose
      split
      · next hh =>
        obtain ⟨hr, he⟩ := sole_rejectConnect hs i k fun ha hr =>
          ⟨ht, hmax hh ha hr, fun j k' hws hk' => hs.fired j k' hk' (hlost j k' hws hk')⟩
        exact sole_handleClose hr (he.timers.trans ht) (he.lost hlost) fun hf => he.attempts.mpr (hfinal (he.final ▸ hf))
      · exact sole_handleClose hs ht hlost hfinal
    · exact h
  · exact h

theorem sole_step (s : JSONRPCClient) (e : RpcEvent) (h : s.Sole) (ho : s.Orderly e) : (s.step e).Sole := by
  cases e with
  | connect url constructs =>
    have hs : ({ s with final := false } : JSONRPCClient).Sole :=
      { live := h.live, fired := h.fired, timer := h.timer, idle := h.idle, state := h.state, final := nofun, strayed := h.strayed }
    exact sole_connect hs rfl url constructs
  | disconnect =>
    obtain ⟨hs, hd, -⟩ := sole_disconnect h
    exact
      { live := hs.live, fired := hs.fired, timer := hs.timer, idle := hs.idle, state := hs.state, final := fun _ => hd,
        strayed := hs.strayed }
  | request throws =>
    show (s.request throws).Sole
    unfold request
    split <;> exact h.same ⟨rfl, rfl, rfl, rfl, rfl, Iff.rfl, rfl, rfl⟩
  | opens i =>
    simp only [step]
    split
    · next k hk =>
      split
      · next hc =>
        obtain ⟨hs, hopen⟩ := sole_opens h hk hc
        show Sole (if _ then _ else _)
        split
        · exact hopen
        · exact hs
      · exact h
    · exact h
  | errors i => exact sole_errors h ho
  | startsClosing i => exact sole_startsClosing h i
  | closes i => exact sole_closes h ho
  | response i id body =>
    show Sole (if _ then _ else _)
    split
    · unfold handleResponse
      split
      · exact h
      · exact h.same ⟨rfl, rfl, rfl, rfl, rfl, Iff.rfl, rfl, rfl⟩
    · exact h
  | timeout id =>
    simp only [step]
    split
    · exact h.same ⟨rfl, rfl, rfl, rfl, rfl, Iff.rfl, rfl, rfl⟩
    · exact h
  | reconnectTimer t constructs =>
    show Sole (if _ then _ else _)
    split
    · next ht => exact sole_reconnects h ht constructs
    · exact h

def Single (s : JSONRPCClient) : Prop := SingleConnection s.states s.ws s.timers s.strayed

theorem Sole.single (h : s.Sole) : s.Single where
  own := h.live
  single _ _ _ _ hi hj ha hb := h.live.single hi hj ha hb
  timers := by
    rcases h.timer with ht | ⟨⟨t, ht, -⟩, -⟩
    · rw [ht]
      exact Nat.zero_le _
    · rw [ht]
      exact Nat.le_refl _
  final := h.strayed

theorem sole_createJSONRPCClient (maxReconnectAttempts : ℕ) : (createJSONRPCClient maxReconnectAttempts).Sole where
  live := (fun _ _ h => by cases h)
  fired := (fun _ _ h => by cases h)
  timer := .inl rfl
  idle _ := ⟨rfl, (fun _ _ h => by cases h)⟩
  state := (fun h => by cases h)
  final := (fun h => by cases h)
  strayed := rfl

instance decidableExhausted (s : JSONRPCClient) : Decidable s.Exhausted :=
  inferInstanceAs (Decidable (s.maxReconnectAttempts ≤ s.reconnectAttempts))

instance decidableOrderly (s : JSONRPCClient) (e) : Decidable (s.Orderly e) := by
  unfold Orderly
  split <;> infer_instance

instance decidableAnswerable (s : JSONRPCClient) (e) : Decidable (s.Answerable e) := by
  unfold Answerable
  split <;> infer_instance

end JSONRPCClient

/-! ## Both clients -/

theorem single_connection (maxReconnectAttempts maxQueuedMessages : ℕ) (token : Option JsString) (es : List SocketEvent) (rs : List RpcEvent)
    (hes : Run.Along WebSocketClient.step WebSocketClient.Patient
      (WebSocketClient.createWebSocketClient maxReconnectAttempts maxQueuedMessages token) es)
    (hrs : Run.Along JSONRPCClient.step (fun s e => s.Orderly e ∧ s.Answerable e) (JSONRPCClient.createJSONRPCClient maxReconnectAttempts) rs) :
    (es.foldl WebSocketClient.step (WebSocketClient.createWebSocketClient maxReconnectAttempts maxQueuedMessages token)).Single ∧
      (rs.foldl JSONRPCClient.step (JSONRPCClient.createJSONRPCClient maxReconnectAttempts)).Single ∧
      (rs.foldl JSONRPCClient.step (JSONRPCClient.createJSONRPCClient maxReconnectAttempts)).Answered := by
  have hlone := Run.invariant WebSocketClient.lone_step (WebSocketClient.lone_createWebSocketClient _ _ _) hes
  obtain ⟨horderly, hanswerable⟩ := Run.along_and.mp hrs
  have hsole := Run.invariant JSONRPCClient.sole_step (JSONRPCClient.sole_createJSONRPCClient maxReconnectAttempts) horderly
  have hbooked := Run.invariant (fun s _ hs he => JSONRPCClient.answered_step (s := s) hs he)
    (JSONRPCClient.booked_createJSONRPCClient maxReconnectAttempts) hanswerable
  exact ⟨hlone.single, hsole.single, hbooked.answered⟩

/-- Each client loses its connection, reconnects and is disconnected. -/
def lostAndFound : List SocketEvent :=
  [.connect none true, .opens 0 [] false false 0, .closes 0, .reconnectTimer 0, .refreshed none true, .opens 1 [] false false 0,
    .disconnect, .closes 1]

def lostAndAnswered : List RpcEvent :=
  [.connect (js "/ws") true, .opens 0, .request false, .response 0 (js "1") .result, .request false, .closes 0, .reconnectTimer 0 true,
    .opens 1, .request false, .disconnect]

theorem single_connection_lost :
    (lostAndFound.foldl WebSocketClient.step (WebSocketClient.createWebSocketClient 5 50 none)).Single ∧
      (lostAndAnswered.foldl JSONRPCClient.step (JSONRPCClient.createJSONRPCClient 5)).Single ∧
      (lostAndAnswered.foldl JSONRPCClient.step (JSONRPCClient.createJSONRPCClient 5)).Answered :=
  single_connection 5 50 none lostAndFound lostAndAnswered (by decide +kernel) (by decide +kernel)

/-- A timer that fired before `disconnect` has its connection after it. -/
theorem a_refresh_outlives_disconnect :
    ¬ ∀ es : List SocketEvent, (es.foldl WebSocketClient.step (WebSocketClient.createWebSocketClient 5 50 none)).Single := fun h =>
  absurd (h [.connect none true, .closes 0, .reconnectTimer 0, .disconnect, .refreshed none true]).final (by decide +kernel)

/-- `connect` leaves the timer that is pending, and the next loss sets another. -/
theorem connect_leaves_a_timer :
    ¬ ∀ es : List SocketEvent, (es.foldl WebSocketClient.step (WebSocketClient.createWebSocketClient 5 50 none)).Single := fun h =>
  absurd (h [.connect none true, .closes 0, .connect none true, .closes 1]).timers (by decide +kernel)

/-- The close event of the socket `disconnect` closed is taken for a lost connection. -/
theorem disconnect_reconnects :
    ¬ ∀ es : List RpcEvent, (es.foldl JSONRPCClient.step (JSONRPCClient.createJSONRPCClient 5)).Single := fun h =>
  absurd (h [.connect (js "/ws") true, .opens 0, .disconnect, .closes 0, .reconnectTimer 0 true]).final (by decide +kernel)

theorem a_failed_handshake_counts_twice :
    ¬ ∀ es : List RpcEvent, (es.foldl JSONRPCClient.step (JSONRPCClient.createJSONRPCClient 5)).Single := fun h =>
  absurd (h [.connect (js "/ws") true, .opens 0, .closes 0, .reconnectTimer 0 true, .errors 1, .closes 1]).timers (by decide +kernel)

/-- A response with neither a result nor an error takes the request's timeout away and throws. -/
theorem a_bare_response_settles_nothing :
    ¬ ∀ es : List RpcEvent, (es.foldl JSONRPCClient.step (JSONRPCClient.createJSONRPCClient 5)).Answered := by
  intro h
  have hrun := h [.connect (js "/ws") true, .opens 0, .request false, .response 0 (js "1") .neither] 0 ⟨some 1, []⟩ (by decide +kernel)
  rcases hrun with ⟨o, ho, -⟩ | ⟨-, id, hid⟩
  · cases ho
  · have hnone : (([.connect (js "/ws") true, .opens 0, .request false, .response 0 (js "1") .neither] : List RpcEvent).foldl
        JSONRPCClient.step (JSONRPCClient.createJSONRPCClient 5)).timeouts = [] := by decide +kernel
    have hkeep : ∀ s : JSONRPCClient, s.timeouts = [] → s.step (.timeout id) = s := fun s hs => by
      simp [JSONRPCClient.step, hs]
    rw [hkeep _ hnone] at hid
    revert hid
    decide +kernel

end PiWebUi.Client
