/-
  PiWebUi.Voice.OneProviderSession — a bridge has one provider session at a time.

  In every run whose steps are `Careful` at most one session is open, nothing is open and
  nothing but `stopped` is delivered after `close()`, a session is reopened with a handle
  and at most `maxReconnectAttempts` times, and what comes from a replaced session touches
  neither the state nor the session that replaced it (`one_session`).
-/

import PiWebUi.Lib.InFlight
import PiWebUi.Lib.Run
import PiWebUi.Voice.GeminiLiveBridge

namespace PiWebUi.Voice

open Lib List

/-- It is refused as a duplicate. -/
def ToolCall.repeated (recent : List JsString) (call : ToolCall) : Bool :=
  VOICE_FUNCTION_DECLARATIONS.any (· = call.name) && decide (call.refused = none) && recent.any (· = call.id)

/-- It delivers nothing once the bridge is closed. -/
def Action.quiet (recent : List JsString) : Action → Bool
  | .callback _ | .setState _ _ | .setup => false
  | .resumptionUpdate newHandle _ => newHandle = []
  | .toolCalls calls => calls.all (·.repeated recent)
  | .beginReconnect _ | .schedule | .acknowledge | .awaitTools => true

/-- It leaves the state and the session alone. -/
def Action.stateless : Action → Bool
  | .setState _ _ | .setup | .beginReconnect _ => false
  | .callback _ | .resumptionUpdate _ _ | .schedule | .toolCalls _ | .acknowledge | .awaitTools => true

def Action.isBeginReconnect : Action → Bool
  | .beginReconnect _ => true
  | _ => false

/-- Its config carries a resumption handle. -/
def ProviderSession.resumes (p : ProviderSession) : Bool := p.handle.any (· ≠ [])

namespace GeminiLiveBridge

variable (c : BridgeConfig) {s s' : GeminiLiveBridge} {action : Action}

def opens (s : GeminiLiveBridge) (i : ℕ) : Bool := s.sessions[i]?.any (·.isOpen)

/-- A call of the factory is on its way. -/
def pends (s : GeminiLiveBridge) : Bool := s.sessions.any (·.promise = .pending)

/-- Another session was asked for since. -/
def replaced (s : GeminiLiveBridge) (i : ℕ) : Bool := decide (i + 1 < s.sessions.length)

/-- The session that the step is an event of. -/
def sourceOf (s : GeminiLiveBridge) : BridgeEvent → Option ℕ
  | .go _ => if s.todo = [] then none else s.source
  | .socketError i _ | .socketClose i | .message i _ => some i
  | _ => none

/-- What is claimed of a state. -/
structure OneSession (s : GeminiLiveBridge) : Prop where
  one : ∀ i j, s.opens i = true → s.opens j = true → i = j
  afterClose : s.closing = true → (∀ i, s.opens i = false) ∧ s.sinceClose = [.onState .stopped none]
  reconnects : s.reconnects ≤ c.maxReconnectAttempts
  handle : ∀ (i j : ℕ) (p q : ProviderSession), i < j → s.sessions[i]? = some p → p.promise = .resolved → s.sessions[j]? = some q → q.resumes = true

/-- What is claimed of a step: from a replaced session it changes nothing. -/
def Undisturbed (s : GeminiLiveBridge) (e : BridgeEvent) : Prop :=
  ∀ i, s.sourceOf e = some i → s.replaced i = true →
    (s.step c e).state = s.state ∧ (s.step c e).session = s.session ∧ ∀ j, i < j → s.opens j = true → (s.step c e).opens j = true

def Sound (s : GeminiLiveBridge) (e : BridgeEvent) : Prop := OneSession c (s.step c e) ∧ Undisturbed c s e

def Careful (s : GeminiLiveBridge) : BridgeEvent → Prop
  | .connect =>
    s.closing = true ∨ s.session ≠ none ∨ s.pends = false ∧ s.reconnecting = false ∧
      (s.held = true ∨ ∀ p ∈ s.sessions, p.promise ≠ .resolved) ∧ ∀ action ∈ s.todo, action.stateless = true
  | .close => s.closing = true ∨ ∀ action ∈ s.todo, action.quiet s.recentToolCallIds = true
  | .go _ => ∀ action ∈ s.todo.head?, action.isBeginReconnect = true → (s.begins c && s.pends) = false
  | .reject _ _ => s.closing = false
  | .message i m => s.closing = true ∨ s.replaced i = false ∨ m.setupComplete = false ∧ (m.goAway = none ∨ s.reconnecting = true)
  | .socketClose i => s.closing = true ∨ s.reconnecting = true ∨ s.replaced i = false ∧ (s.begins c && s.pends) = false
  | .toolsSettled failed => failed = none ∨ s.closing = false
  | .resolve _ | .socketError _ _ | .timer | .send _ => True

instance Careful.decidable (s : GeminiLiveBridge) (e : BridgeEvent) : Decidable (Careful c s e) := by
  unfold Careful
  split <;> infer_instance

/-! ## The invariant -/

/-- An action of a replaced session. -/
def Harmless (s : GeminiLiveBridge) (action : Action) : Prop :=
  action.stateless = true ∨ action.isBeginReconnect = true ∧ (s.reconnecting = true ∨ s.closing = true)

structure Sessions (s : GeminiLiveBridge) : Prop where
  current : ∀ k, s.session = some k → k + 1 = s.sessions.length ∧ s.closing = false
  opened : ∀ k, s.opens k = true → s.session = some k
  pending : ∀ (k : ℕ) (p : ProviderSession), s.sessions[k]? = some p → p.promise = .pending → k + 1 = s.sessions.length ∧ s.session = none ∧ s.reconnecting = false
  reconnecting : s.reconnecting = true → s.closing = false ∧ s.session = none ∧ s.held = true ∧ s.reconnectAttempts < c.maxReconnectAttempts
  handle : ∀ (i j : ℕ) (p q : ProviderSession), i < j → s.sessions[i]? = some p → p.promise = .resolved → s.sessions[j]? = some q → q.resumes = true
  attempts : s.reconnects = s.reconnectAttempts ∧ s.reconnects ≤ c.maxReconnectAttempts

structure Handler (s : GeminiLiveBridge) : Prop where
  scheduled : s.pendingReconnect = true ∨ .schedule ∈ s.todo → s.closing = true ∨ s.reconnecting = true
  closed : s.closing = true → s.state = .stopped ∧ s.sinceClose = [.onState .stopped none] ∧
    ∀ action ∈ s.todo, action.quiet s.recentToolCallIds = true
  fresh : s.closing = false → s.sinceClose = []
  stale : ∀ i, s.source = some i → s.replaced i = true → ∀ action ∈ s.todo, s.Harmless action

theorem oneSession_of_sessions (h : Sessions c s) (hh : Handler s) : OneSession c s where
  one i j hi hj := Option.some.inj ((h.opened i hi).symm.trans (h.opened j hj))
  afterClose hc := by
    refine ⟨fun i => ?_, (hh.closed hc).2.1⟩
    by_contra ho
    have hcur := (h.current i (h.opened i (Bool.not_eq_false _ ▸ ho))).2
    rw [hc] at hcur
    cases hcur
  reconnects := h.attempts.2
  handle := h.handle

theorem sessions_new (handle : Option JsString) : Sessions c (new handle) where
  current _ hk := (by cases hk)
  opened _ hk := (by cases hk)
  pending _ _ hk := (by cases hk)
  reconnecting h := (by cases h)
  handle _ _ _ _ _ hi := (by cases hi)
  attempts := ⟨rfl, Nat.zero_le _⟩

theorem handler_new (handle : Option JsString) : Handler (new handle) where
  scheduled h := by
    rcases h with h | h <;> cases h
  closed h := (by cases h)
  fresh _ := rfl
  stale _ h := (by cases h)

/-- Nothing of the sessions moves. -/
theorem Sessions.congr (h : Sessions c s) (hsession : s'.session = s.session) (hsessions : s'.sessions = s.sessions)
    (hclosing : s'.closing = s.closing) (hreconnecting : s'.reconnecting = s.reconnecting)
    (hattempts : s'.reconnectAttempts = s.reconnectAttempts) (hreconnects : s'.reconnects = s.reconnects) (hheld : s.held = true → s'.held = true) :
    Sessions c s' := by
  refine ⟨?_, ?_, ?_, ?_, ?_, ?_⟩
  · rw [hsession, hsessions, hclosing]
    exact h.current
  · simp only [opens, hsession, hsessions]
    exact h.opened
  · rw [hsession, hsessions, hreconnecting]
    exact h.pending
  · rw [hclosing, hsession, hreconnecting, hattempts]
    exact fun hr => ⟨(h.reconnecting hr).1, (h.reconnecting hr).2.1, hheld (h.reconnecting hr).2.2.1, (h.reconnecting hr).2.2.2⟩
  · rw [hsessions]
    exact h.handle
  · rw [hattempts, hreconnects]
    exact h.attempts

/-! ### The sessions -/

theorem opens_iff {k : ℕ} : s.opens k = true ↔ ∃ p, s.sessions[k]? = some p ∧ p.isOpen = true := by
  rw [opens, Option.any_eq_true]

theorem promise_of_isOpen {p : ProviderSession} (h : p.isOpen = true) : p.promise = .resolved := by
  simp only [ProviderSession.isOpen, Bool.and_eq_true] at h
  exact of_decide_eq_true h.1.1

theorem not_pending_of_pends (h : s.pends = false) {k : ℕ} {p : ProviderSession} (hp : s.sessions[k]? = some p) :
    p.promise ≠ .pending := by
  intro hpending
  have hany : s.pends = true := any_eq_true.mpr ⟨p, mem_of_getElem? hp, decide_eq_true hpending⟩
  rw [h] at hany
  cases hany

/-- Each session becomes what `f` makes of it; only the last may come to be resolved. -/
theorem Sessions.map (h : Sessions c s) (f : ℕ → ProviderSession → ProviderSession)
    (hget : ∀ k, s'.sessions[k]? = s.sessions[k]?.map (f k)) (hlength : s'.sessions.length = s.sessions.length)
    (hhandle : ∀ k p, (f k p).handle = p.handle)
    (hresolved : ∀ k p, s.sessions[k]? = some p → (f k p).promise = .resolved → p.promise = .resolved ∨ k + 1 = s.sessions.length)
    (hpending : ∀ k p, s.sessions[k]? = some p → (f k p).promise = .pending → p.promise = .pending ∧ s'.session = none ∧ s'.reconnecting = false)
    (hcurrent : ∀ k, s'.session = some k → k + 1 = s.sessions.length ∧ s'.closing = false)
    (hopened : ∀ k p, s.sessions[k]? = some p → (f k p).isOpen = true → s'.session = some k)
    (hreconnecting : s'.reconnecting = true →
      s'.closing = false ∧ s'.session = none ∧ s'.held = true ∧ s'.reconnectAttempts < c.maxReconnectAttempts)
    (hattempts : s'.reconnects = s'.reconnectAttempts ∧ s'.reconnects ≤ c.maxReconnectAttempts) : Sessions c s' := by
  have hsome : ∀ {k q}, s'.sessions[k]? = some q → ∃ p, s.sessions[k]? = some p ∧ f k p = q := fun {k q} hk => by
    rw [hget k] at hk
    exact Option.map_eq_some_iff.mp hk
  refine ⟨fun k hk => hlength ▸ hcurrent k hk, fun k hk => ?_, fun k q hk hq => ?_, hreconnecting, fun i j p q hij hi hp hj => ?_, hattempts⟩
  · obtain ⟨q, hq, ho⟩ := opens_iff.mp hk
    obtain ⟨p, hp, rfl⟩ := hsome hq
    exact hopened k p hp ho
  · obtain ⟨p, hp, rfl⟩ := hsome hk
    obtain ⟨hpp, hrest⟩ := hpending k p hp hq
    exact ⟨hlength ▸ (h.pending k p hp hpp).1, hrest⟩
  · obtain ⟨p', hp', rfl⟩ := hsome hi
    obtain ⟨q', hq', rfl⟩ := hsome hj
    have hlt : j < s.sessions.length := (List.getElem?_eq_some_iff.mp hq').1
    rcases hresolved i p' hp' hp with hp | hlast
    · rw [ProviderSession.resumes, hhandle]
      exact h.handle i j p' q' hij hp' hp hq'
    · omega

theorem sessions_openSession (h : Sessions c s) (hsession : s.session = none) (hpends : s.pends = false)
    (hreconnecting : s.reconnecting = false) (hheld : s.held = true ∨ ∀ p ∈ s.sessions, p.promise ≠ .resolved) (reconnect : Bool) :
    Sessions c (s.openSession reconnect) := by
  have hsome : ∀ {k q}, (s.openSession reconnect).sessions[k]? = some q →
      s.sessions[k]? = some q ∨ k = s.sessions.length ∧ q = { handle := s.resumptionHandle, reconnect } := by
    intro k q hk
    exact InFlight.get_append hk
  have hlength : (s.openSession reconnect).sessions.length = s.sessions.length + 1 := length_append
  refine ⟨fun k hk => ?_, fun k hk => ?_, fun k p hk hp => ?_, fun hr => ?_, fun i j p q hij hi hp hj => ?_, h.attempts⟩
  · cases hsession.symm.trans hk
  · obtain ⟨q, hq, ho⟩ := opens_iff.mp hk
    rcases hsome hq with hq | ⟨-, rfl⟩
    · exact h.opened k (opens_iff.mpr ⟨q, hq, ho⟩)
    · cases promise_of_isOpen ho
  · rcases hsome hk with hk | ⟨rfl, -⟩
    · exact absurd hp (not_pending_of_pends hpends hk)
    · exact ⟨hlength.symm, hsession, hreconnecting⟩
  · cases hreconnecting.symm.trans hr
  · rcases hsome hj with hj | ⟨rfl, rfl⟩
    · rcases hsome hi with hi | ⟨rfl, -⟩
      · exact h.handle i j p q hij hi hp hj
      · have hlt := (List.getElem?_eq_some_iff.mp hj).1
        omega
    · rcases hsome hi with hi | ⟨rfl, -⟩
      · rcases hheld with hheld | hnone
        · exact hheld
        · exact absurd hp (hnone p (mem_of_getElem? hi))
      · omega

theorem getElem?_dropSession (s : GeminiLiveBridge) (k : ℕ) :
    s.dropSession.sessions[k]? = s.sessions[k]?.map fun p => if s.session = some k then { p with closed := true } else p := by
  cases hs : s.session with
  | none =>
    simp only [dropSession, hs, Option.elim_none, reduceCtorEq, if_false]
    exact (Option.map_id' ..).symm
  | some j =>
    simp only [dropSession, hs, Option.elim_some, getElem?_modify, Option.some.injEq]
    rfl

theorem length_dropSession (s : GeminiLiveBridge) : s.dropSession.sessions.length = s.sessions.length := by
  cases hs : s.session with
  | none => simp only [dropSession, hs, Option.elim_none]
  | some j => simp only [dropSession, hs, Option.elim_some, length_modify]

/-- No session is open once the current one is closed. -/
theorem sessions_dropSession (h : Sessions c s) (hsession : s'.session = none)
    (hsessions : s'.sessions = s.dropSession.sessions) (hpends : s'.reconnecting = false ∨ s.pends = false)
    (hreconnecting : s'.reconnecting = true → s'.closing = false ∧ s'.held = true ∧ s'.reconnectAttempts < c.maxReconnectAttempts)
    (hattempts : s'.reconnects = s'.reconnectAttempts ∧ s'.reconnects ≤ c.maxReconnectAttempts) : Sessions c s' := by
  refine h.map c (fun k p => if s.session = some k then { p with closed := true } else p) (fun k => ?_) ?_ (fun k p => ?_) (fun k p hk hp => ?_)
    (fun k p hk hp => ?_) (fun k hk => ?_) (fun k p hk ho => ?_) (fun hr => ?_) hattempts
  · rw [hsessions, getElem?_dropSession]
  · rw [hsessions]
    exact length_dropSession s
  · split <;> rfl
  · left
    split at hp <;> exact hp
  · have hp' : p.promise = .pending := by
      split at hp <;> exact hp
    refine ⟨hp', hsession, hpends.resolve_right fun hn => not_pending_of_pends hn hk hp'⟩
  · cases hsession.symm.trans hk
  · split at ho
    · simp [ProviderSession.isOpen] at ho
    · next hne => exact absurd (h.opened k (opens_iff.mpr ⟨p, hk, ho⟩)) hne
  · obtain ⟨hc, hh, ha⟩ := hreconnecting hr
    exact ⟨hc, hsession, hh, ha⟩

/-! ### The handler -/

theorem handler_deliver (h : Handler s) (hc : s.closing = false) (callback : Callback) : Handler (s.deliver callback) where
  scheduled := h.scheduled
  closed hclosing := (by cases hc.symm.trans hclosing)
  fresh _ := by
    simp only [deliver, hc, Bool.false_eq_true, if_false]
    exact h.fresh hc
  stale := h.stale

/-- What is put before the rest of the handler. -/
theorem handler_prepend (h : Handler s) {actions : List Action}
    (hschedule : .schedule ∈ actions → s.closing = true ∨ s.reconnecting = true)
    (hquiet : s.closing = true → ∀ action ∈ actions, action.quiet s.recentToolCallIds = true)
    (hstale : ∀ i, s.source = some i → s.replaced i = true → ∀ action ∈ actions, s.Harmless action) :
    Handler { s with todo := actions ++ s.todo } := by
  refine ⟨fun hs => ?_, fun hclosing => ?_, h.fresh, fun i hi hr action ha => ?_⟩
  · rcases hs with hs | hs
    · exact h.scheduled (.inl hs)
    · rcases mem_append.mp hs with hs | hs
      · exact hschedule hs
      · exact h.scheduled (.inr hs)
  · obtain ⟨hstate, hsince, hall⟩ := h.closed hclosing
    refine ⟨hstate, hsince, fun action ha => ?_⟩
    rcases mem_append.mp ha with ha | ha
    · exact hquiet hclosing action ha
    · exact hall action ha
  · rcases mem_append.mp ha with ha | ha
    · exact hstale i hi hr action ha
    · exact h.stale i hi hr action ha

theorem mem_emitError {code : VoiceErrorCode} {message : JsString} (h : action ∈ emitError code message false) :
    action = .callback (.onError code message false) := mem_singleton.mp h

theorem schedule_not_mem_emitError (code : VoiceErrorCode) (message : JsString) (fatal : Bool) : .schedule ∉ emitError code message fatal := by
  cases fatal <;> simp [emitError]

/-- Every call of the scan is a duplicate. -/
theorem scanToolCalls_repeated {calls : List ToolCall} {t : ToolScan} (h : ∀ call ∈ calls, call.repeated t.recentToolCallIds = true) :
    calls.foldl scanToolCall t = { t with duplicates := t.duplicates ++ calls } := by
  induction calls generalizing t with
  | nil => simp
  | cons call calls ih =>
    have hcall := h call mem_cons_self
    simp only [ToolCall.repeated, Bool.and_eq_true, decide_eq_true_eq] at hcall
    have hscan : scanToolCall t call = { t with duplicates := t.duplicates ++ [call] } := by
      unfold scanToolCall
      rw [hcall.1.1, hcall.1.2]
      simp only [Bool.not_true, Bool.false_eq_true, if_false]
      rw [if_pos hcall.2]
    rw [foldl_cons, hscan]
    refine (ih (t := { t with duplicates := t.duplicates ++ [call] }) fun call' hc => h call' (mem_cons_of_mem _ hc)).trans ?_
    rw [append_assoc]
    rfl

theorem mem_scan_actions {t : ToolScan} (h : action ∈ t.actions) : action.stateless = true ∧ action ≠ .schedule := by
  simp only [ToolScan.actions, mem_append, mem_map] at h
  rcases h with (⟨callback, _, rfl⟩ | h) | h
  · exact ⟨rfl, nofun⟩
  · split at h
    · cases mem_singleton.mp h
      exact ⟨rfl, nofun⟩
    · cases h
  · split at h
    · cases h
    · rcases mem_append.mp h with h | h
      · obtain ⟨call, _, rfl⟩ := mem_map.mp h
        exact ⟨rfl, nofun⟩
      · cases mem_singleton.mp h
        exact ⟨rfl, nofun⟩

/-! ### One action -/

/-- The next action of a handler. -/
structure Next (s : GeminiLiveBridge) (action : Action) : Prop where
  quiet : s.closing = true → action.quiet s.recentToolCallIds = true
  harmless : ∀ i, s.source = some i → s.replaced i = true → s.Harmless action
  schedule : action = .schedule → s.closing = true ∨ s.reconnecting = true
  begins : action.isBeginReconnect = true → (s.begins c && s.pends) = false

/-- An action that may still deliver is not of a closed bridge. -/
theorem Next.open_of_not_quiet (h : Next c s action) (hq : action.quiet s.recentToolCallIds = false) :
    s.closing = false := by
  by_contra hc
  rw [h.quiet (Bool.not_eq_false _ ▸ hc)] at hq
  cases hq

theorem inv_beginReconnect (hs : Sessions c s) (hh : Handler s) {reason : JsString} (hbegins : (s.begins c && s.pends) = false)
    (hsource : ∀ i, s.source = some i → s.replaced i = true → s.reconnecting = true ∨ s.closing = true) :
    Sessions c (s.beginReconnect c reason) ∧ Handler (s.beginReconnect c reason) := by
  unfold beginReconnect
  by_cases hbusy : (s.closing || s.reconnecting) = true
  · rw [if_pos hbusy]
    exact ⟨hs, hh⟩
  rw [if_neg hbusy]
  simp only [Bool.or_eq_true, not_or, Bool.not_eq_true] at hbusy
  obtain ⟨hclosing, hreconnecting⟩ := hbusy
  -- it is not the handler of a replaced session
  have hstale : ∀ i, s.source = some i → s.replaced i = true → False := by
    intro i hi hr
    rcases hsource i hi hr with h | h
    · cases hreconnecting.symm.trans h
    · cases hclosing.symm.trans h
  have hreport : ∀ code message, Sessions c { s with todo := emitError code message true ++ s.todo } ∧
      Handler { s with todo := emitError code message true ++ s.todo } := by
    intro code message
    refine ⟨hs.congr c rfl rfl rfl rfl rfl rfl id, handler_prepend hh ?_ ?_ ?_⟩
    · exact fun h => absurd h (schedule_not_mem_emitError _ _ _)
    · exact fun h => (by cases hclosing.symm.trans h)
    · exact fun i hi hr => (hstale i hi hr).elim
  dsimp only
  by_cases hheld : s.held = true
  · rw [hheld]
    simp only [Bool.not_true, Bool.false_eq_true, if_false]
    by_cases hattempts : c.maxReconnectAttempts ≤ s.reconnectAttempts
    · rw [if_pos hattempts]
      exact hreport ..
    · rw [if_neg hattempts]
      have hlt : s.reconnectAttempts < c.maxReconnectAttempts := by omega
      have hpends : s.pends = false := by
        simpa only [begins, hclosing, hreconnecting, hheld, hlt, decide_true, Bool.not_false, Bool.true_and] using hbegins
      constructor
      · exact sessions_dropSession c hs rfl rfl (.inr hpends) (fun _ => ⟨hclosing, hheld, hlt⟩) hs.attempts
      · refine ⟨fun _ => .inr rfl, fun h => (by cases hclosing.symm.trans h), fun _ => hh.fresh hclosing, fun i hi hr => ?_⟩
        refine (hstale i hi ?_).elim
        rw [← hr]
        simp only [replaced, length_dropSession]
  · rw [Bool.not_eq_true] at hheld
    rw [hheld]
    simp only [Bool.not_false, if_true]
    exact hreport ..

theorem inv_perform (hs : Sessions c s) (hh : Handler s) (hn : Next c s action)
    (ackFails : Option JsString) : Sessions c (s.perform c ackFails action) ∧ Handler (s.perform c ackFails action) := by
  cases action with
  | callback callback =>
    exact ⟨hs.congr c rfl rfl rfl rfl rfl rfl id, handler_deliver hh (hn.open_of_not_quiet c rfl) callback⟩
  | setState state detail =>
    have hc := hn.open_of_not_quiet c rfl
    have hstate : Handler { s with state } := ⟨hh.scheduled, fun h => (by cases hc.symm.trans h), hh.fresh, hh.stale⟩
    exact ⟨hs.congr c rfl rfl rfl rfl rfl rfl id, handler_deliver hstate hc _⟩
  | setup =>
    have hc := hn.open_of_not_quiet c rfl
    have hstale : ∀ i, s.source = some i → s.replaced i = true → False := by
      intro i hi hr
      rcases hn.harmless i hi hr with h | ⟨h, -⟩ <;> cases h
    refine ⟨hs.congr c rfl rfl rfl rfl rfl rfl id, fun hs => ?_, fun h => (by cases hc.symm.trans h), fun _ => ?_, fun i hi hr => (hstale i hi hr).elim⟩
    · rcases hs with hs | hs
      · exact hh.scheduled (.inl hs)
      · rcases mem_cons.mp hs with hs | hs
        · cases hs
        · rcases mem_append.mp hs with hs | hs
          · split at hs
            · cases mem_singleton.mp hs
            · cases hs
          · exact hh.scheduled (.inr hs)
    · exact (handler_deliver hh hc .onSetupComplete).fresh hc
  | resumptionUpdate newHandle resumable =>
    simp only [perform]
    by_cases hnew : newHandle = []
    · rw [if_pos hnew]
      exact ⟨hs, hh⟩
    · rw [if_neg hnew]
      have hc : s.closing = false := hn.open_of_not_quiet c (decide_eq_false hnew)
      have hhandle : Handler { s with resumptionHandle := some newHandle } := ⟨hh.scheduled, hh.closed, hh.fresh, hh.stale⟩
      exact ⟨hs.congr c rfl rfl rfl rfl rfl rfl fun _ => decide_eq_true hnew, handler_deliver hhandle hc _⟩
  | beginReconnect reason =>
    refine inv_beginReconnect c hs hh (hn.begins rfl) fun i hi hr => ?_
    rcases hn.harmless i hi hr with h | ⟨-, h⟩
    · cases h
    · exact h
  | schedule =>
    refine ⟨hs.congr c rfl rfl rfl rfl rfl rfl id, fun _ => hn.schedule rfl, hh.closed, hh.fresh, hh.stale⟩
  | toolCalls calls =>
    refine ⟨hs.congr c rfl rfl rfl rfl rfl rfl id, ?_⟩
    cases hc : s.closing with
    | true =>
      have hquiet : ∀ call ∈ calls, call.repeated s.recentToolCallIds = true := all_eq_true.mp (hn.quiet hc)
      have hscan : scanToolCalls s.recentToolCallIds calls = ⟨[], [], calls, s.recentToolCallIds⟩ := scanToolCalls_repeated hquiet
      simp only [perform, hscan]
      refine handler_prepend hh (fun h => absurd rfl (mem_scan_actions h).2) (fun _ action ha => ?_) fun i _ _ action ha => .inl (mem_scan_actions ha).1
      simp only [ToolScan.actions, map_nil, nil_append, if_true, append_nil] at ha
      split at ha
      · cases mem_singleton.mp ha
        rfl
      · cases ha
    | false =>
      have hrest : Handler { s with recentToolCallIds := (scanToolCalls s.recentToolCallIds calls).recentToolCallIds } :=
        ⟨hh.scheduled, fun h => (by cases hc.symm.trans h), hh.fresh, hh.stale⟩
      exact handler_prepend hrest (fun h => absurd rfl (mem_scan_actions h).2) (fun h => (by cases hc.symm.trans h))
        fun i _ _ action ha => .inl (mem_scan_actions ha).1
  | acknowledge =>
    simp only [perform, acknowledge]
    split
    · exact ⟨hs, hh⟩
    · next hbusy =>
      simp only [Bool.or_eq_true, not_or, Bool.not_eq_true] at hbusy
      split
      · refine ⟨hs.congr c rfl rfl rfl rfl rfl rfl id, handler_prepend hh ?_ ?_ ?_⟩
        · exact fun h => absurd h (schedule_not_mem_emitError _ _ _)
        · exact fun h => (by cases hbusy.2.symm.trans h)
        · intro i _ _ action ha
          rw [mem_emitError ha]
          exact .inl rfl
      · exact ⟨hs, hh⟩
  | awaitTools => exact ⟨hs.congr c rfl rfl rfl rfl rfl rfl id, hh.scheduled, hh.closed, hh.fresh, hh.stale⟩

/-! ### Every step -/

def Inv (s : GeminiLiveBridge) : Prop := Sessions c s ∧ Handler s

theorem inv_go (h : Inv c s) (ackFails : Option JsString) (hc : Careful c s (.go ackFails)) : Inv c (s.go c ackFails) := by
  unfold go
  split
  · exact h
  next action rest htodo =>
  obtain ⟨hs, hh⟩ := h
  have hmem : ∀ a ∈ rest, a ∈ s.todo := fun a ha => htodo ▸ mem_cons_of_mem _ ha
  have hhead : action ∈ s.todo := htodo ▸ mem_cons_self
  refine @inv_perform c { s with todo := rest } action (hs.congr c rfl rfl rfl rfl rfl rfl id)
    ⟨fun hsch => ?_, fun hcl => ?_, hh.fresh, fun i hi hr a ha => ?_⟩ ⟨fun hcl => ?_, fun i hi hr => ?_, fun ha => ?_, fun ha => ?_⟩ ackFails
  · exact hh.scheduled (hsch.imp_right (hmem _))
  · exact ⟨(hh.closed hcl).1, (hh.closed hcl).2.1, fun a ha => (hh.closed hcl).2.2 a (hmem a ha)⟩
  · exact hh.stale i hi hr a (hmem a ha)
  · exact (hh.closed hcl).2.2 action hhead
  · exact hh.stale i hi hr action hhead
  · exact hh.scheduled (.inr (ha ▸ hhead))
  · exact hc action (by rw [htodo]; rfl) ha

theorem inv_connect (h : Inv c s) (hc : Careful c s .connect) : Inv c s.connect := by
  unfold connect
  split
  · exact h
  next hclosing =>
  split
  · exact h
  next hsession =>
  have hnone : s.session = none := Option.not_isSome_iff_eq_none.mp hsession
  rcases hc with hc | hc | ⟨hpends, hreconnecting, hheld, htodo⟩
  · exact absurd hc hclosing
  · exact absurd hnone hc
  · refine ⟨sessions_openSession c h.1 hnone hpends hreconnecting hheld false, h.2.scheduled, h.2.closed, h.2.fresh, fun i _ _ action ha => ?_⟩
    exact .inl (htodo action ha)

theorem inv_close (h : Inv c s) (hc : Careful c s .close) : Inv c s.close := by
  unfold close
  split
  · exact h
  next hclosing =>
  have hquiet := hc.resolve_left hclosing
  have hfresh := h.2.fresh (Bool.eq_false_iff.mpr hclosing)
  refine ⟨?_, fun _ => .inl rfl, fun _ => ⟨rfl, ?_, hquiet⟩, nofun, fun i hi hr action ha => ?_⟩
  · exact sessions_dropSession c h.1 rfl rfl (.inl rfl) nofun h.1.attempts
  · show s.sinceClose ++ [_] = [_]
    rw [hfresh]
    rfl
  · have hr' : s.replaced i = true := by
      rw [← hr]
      show decide _ = decide (i + 1 < s.dropSession.sessions.length)
      rw [length_dropSession]
    exact (h.2.stale i hi hr' action ha).imp_right fun hb => ⟨hb.1, .inr rfl⟩

/-- A handler that starts when none runs. -/
theorem handler_start (h : Handler s) (hpending : s'.pendingReconnect = s.pendingReconnect)
    (hclosing : s'.closing = s.closing) (hreconnecting : s'.reconnecting = s.reconnecting) (hsince : s'.sinceClose = s.sinceClose)
    (hstate : s.closing = true → s'.state = .stopped ∧ ∀ action ∈ s'.todo, action.quiet s'.recentToolCallIds = true)
    (hschedule : .schedule ∉ s'.todo)
    (hstale : ∀ i, s'.source = some i → s'.replaced i = true → ∀ action ∈ s'.todo, s'.Harmless action) : Handler s' where
  scheduled hs := by
    rw [hclosing, hreconnecting]
    exact h.scheduled (.inl (hpending ▸ hs.resolve_right hschedule))
  closed hc := by
    rw [hclosing] at hc
    rw [hsince]
    exact ⟨(hstate hc).1, (h.closed hc).2.1, (hstate hc).2⟩
  fresh hc := hsince.trans (h.fresh (hclosing ▸ hc))
  stale := hstale

/-- The promise of the last call settles. -/
theorem sessions_settle (h : Sessions c s) {i : ℕ} {p : ProviderSession} (hp : s.sessions[i]? = some p)
    (hpending : p.promise = .pending) (g : ProviderSession → ProviderSession) (hsessions : s'.sessions = s.sessions.modify i g)
    (hhandle : ∀ q, (g q).handle = q.handle) (hsettled : ∀ q, (g q).promise ≠ .pending)
    (hsession : ∀ k, s'.session = some k → k = i ∧ s'.closing = false) (hopen : (g p).isOpen = true → s'.session = some i)
    (hreconnecting : s'.reconnecting = s.reconnecting) (hattempts : s'.reconnectAttempts = s.reconnectAttempts) (hreconnects : s'.reconnects = s.reconnects) :
    Sessions c s' := by
  obtain ⟨hlast, hnone, hidle⟩ := h.pending i p hp hpending
  refine h.map c (fun k q => if i = k then g q else q) (fun k => ?_) ?_ (fun k q => ?_) (fun k q hk hq => ?_) (fun k q hk hq => ?_) (fun k hk => ?_)
    (fun k q hk ho => ?_) (fun hr => ?_) ?_
  · rw [hsessions, getElem?_modify]
    rfl
  · rw [hsessions, length_modify]
  · split
    · exact hhandle q
    · rfl
  · by_cases hik : i = k
    · exact .inr (hik ▸ hlast)
    · rw [if_neg hik] at hq
      exact .inl hq
  · by_cases hik : i = k
    · rw [if_pos hik] at hq
      exact absurd hq (hsettled q)
    · rw [if_neg hik] at hq
      have hk' := (h.pending k q hk hq).1
      omega
  · obtain ⟨rfl, hc⟩ := hsession k hk
    exact ⟨hlast, hc⟩
  · by_cases hik : i = k
    · subst hik
      rw [if_pos rfl] at ho
      cases hp.symm.trans hk
      exact hopen ho
    · rw [if_neg hik] at ho
      cases hnone.symm.trans (h.opened k (opens_iff.mpr ⟨q, hk, ho⟩))
  · cases hidle.symm.trans (hreconnecting.symm.trans hr)
  · rw [hreconnects, hattempts]
    exact h.attempts

theorem harmless_of_nil (htodo : s.todo = []) (i : ℕ) (_ : s.source = some i) (_ : s.replaced i = true) :
    ∀ action ∈ s.todo, s.Harmless action := by
  simp [htodo]

theorem inv_resolve (h : Inv c s) (htodo : s.todo = []) (i : ℕ) : Inv c (s.resolve i) := by
  unfold resolve
  split
  swap
  · exact h
  next p hp =>
  split
  swap
  · exact h
  next hpending =>
  have hnone := (h.1.pending i p hp hpending).2.1
  split
  · next hclosing =>
    refine ⟨sessions_settle c h.1 hp hpending _ rfl (fun _ => rfl) (fun _ h => by cases h) (fun k hk => ?_) (fun ho => ?_) rfl rfl rfl,
      h.2.scheduled, h.2.closed, h.2.fresh, harmless_of_nil htodo⟩
    · cases hnone.symm.trans hk
    · simp [ProviderSession.isOpen] at ho
  · next hclosing =>
    refine ⟨sessions_settle c h.1 hp hpending _ rfl (fun _ => rfl) (fun _ h => by cases h) (fun k hk => ?_) (fun _ => rfl) rfl rfl rfl,
      h.2.scheduled, fun hc => absurd hc hclosing, h.2.fresh, harmless_of_nil htodo⟩
    cases hk
    exact ⟨rfl, Bool.eq_false_iff.mpr hclosing⟩

theorem inv_reject (h : Inv c s) (i : ℕ) (message : JsString) (hclosing : s.closing = false) :
    Inv c (s.reject i message) := by
  unfold reject
  split
  swap
  · exact h
  next p hp =>
  split
  swap
  · exact h
  next hpending =>
  have hnone := (h.1.pending i p hp hpending).2.1
  refine ⟨sessions_settle c h.1 hp hpending _ rfl (fun _ => rfl) (fun _ h => by cases h) (fun k hk => ?_) (fun ho => ?_) rfl rfl rfl,
    handler_start h.2 rfl rfl rfl rfl (fun hc => ?_) (schedule_not_mem_emitError _ _ _) (fun _ h => by cases h)⟩
  · cases hnone.symm.trans hk
  · simp [ProviderSession.isOpen] at ho
  · cases hclosing.symm.trans hc

theorem inv_handleSocketError (h : Inv c s) (i : ℕ) (message : JsString) :
    Inv c (s.handleSocketError i message) := by
  unfold handleSocketError
  split
  · exact h
  next hclosing =>
  refine ⟨h.1.congr c rfl rfl rfl rfl rfl rfl id, handler_start h.2 rfl rfl rfl rfl (fun hc => absurd hc hclosing)
    (schedule_not_mem_emitError _ _ _) fun _ _ _ action ha => ?_⟩
  rw [mem_emitError ha]
  exact .inl rfl

theorem any_ended (l : List ProviderSession) (i : ℕ) :
    (l.modify i fun p => { p with ended := true }).any (·.promise = .pending) = l.any (·.promise = .pending) := by
  induction l generalizing i with
  | nil => rw [modify_nil]
  | cons p l ih =>
    cases i with
    | zero => rfl
    | succ i => simp only [modify_succ_cons, any_cons, ih]

theorem inv_handleSocketClose (h : Inv c s) (htodo : s.todo = []) (i : ℕ) (hknows : s.knows i = true)
    (hc : Careful c s (.socketClose i)) : Inv c (s.handleSocketClose c i) := by
  have hget : ∀ k, (s.sessions.modify i fun p => { p with ended := true })[k]? =
      s.sessions[k]?.map fun p => if i = k then { p with ended := true } else p := fun k => by
    rw [getElem?_modify]
    rfl
  -- the socket is closed, and the session is `session`
  have hended : ∀ s' : GeminiLiveBridge, s'.sessions = (s.sessions.modify i fun p => { p with ended := true }) → s'.session = none →
      s'.closing = s.closing → s'.reconnecting = s.reconnecting → s'.held = s.held → s'.reconnectAttempts = s.reconnectAttempts →
      s'.reconnects = s.reconnects → (∀ k, s.session = some k → k = i) → Sessions c s' := by
    intro s' hsessions hsession hclosing hreconnecting hheld hattempts hreconnects hcurrent
    refine h.1.map c (fun k p => if i = k then { p with ended := true } else p) (fun k => hsessions ▸ hget k) (by rw [hsessions, length_modify])
      (fun k p => ?_) (fun k p _ hp => ?_) (fun k p hk hp => ?_) (fun k hk => ?_) (fun k p hk ho => ?_) (fun hr => ?_) ?_
    · split <;> rfl
    · left
      split at hp <;> exact hp
    · have hp' : p.promise = .pending := by split at hp <;> exact hp
      exact ⟨hp', hsession, hreconnecting.trans (h.1.pending k p hk hp').2.2⟩
    · cases hsession.symm.trans hk
    · by_cases hik : i = k
      · simp [hik, ProviderSession.isOpen] at ho
      · rw [if_neg hik] at ho
        exact absurd (hcurrent k (h.1.opened k (opens_iff.mpr ⟨p, hk, ho⟩))).symm hik
    · rw [hclosing, hheld, hattempts]
      have hr' := h.1.reconnecting (hreconnecting.symm.trans hr)
      exact ⟨hr'.1, hsession, hr'.2.2⟩
    · rw [hreconnects, hattempts]
      exact h.1.attempts
  unfold handleSocketClose
  dsimp only
  by_cases hclosing : s.closing = true
  · rw [if_pos hclosing]
    have hnone : s.session = none := by
      cases hs : s.session with
      | none => rfl
      | some k => cases hclosing.symm.trans (h.1.current k hs).2
    refine ⟨hended _ rfl hnone rfl rfl rfl rfl rfl (fun k hk => ?_), h.2.scheduled, fun hc => ⟨rfl, (h.2.closed hc).2⟩, h.2.fresh, harmless_of_nil htodo⟩
    cases hnone.symm.trans hk
  rw [if_neg hclosing]
  by_cases hreconnecting : s.reconnecting = true
  · rw [if_pos hreconnecting]
    have hnone := (h.1.reconnecting hreconnecting).2.1
    refine ⟨hended _ rfl rfl rfl rfl rfl rfl rfl (fun k hk => ?_), h.2.scheduled, fun hc => absurd hc hclosing, h.2.fresh, harmless_of_nil htodo⟩
    cases hnone.symm.trans hk
  rw [if_neg hreconnecting]
  obtain ⟨hlatest, hbegins⟩ := (hc.resolve_left hclosing).resolve_left hreconnecting
  have hlast : i + 1 = s.sessions.length := by
    have hlt := of_decide_eq_true hknows
    have hge := of_decide_eq_false hlatest
    omega
  have hcurrent : ∀ k, s.session = some k → k = i := by
    intro k hk
    have hk' := (h.1.current k hk).1
    omega
  have hnow : Sessions c { s with sessions := s.sessions.modify i fun p => { p with ended := true }, session := none, source := some i } :=
    hended _ rfl rfl rfl rfl rfl rfl rfl hcurrent
  refine inv_beginReconnect c hnow ⟨h.2.scheduled, fun hc => absurd hc hclosing, h.2.fresh, harmless_of_nil htodo⟩ ?_ fun j hj hr => ?_
  · rw [← hbegins]
    exact congrArg (s.begins c && ·) (any_ended s.sessions i)
  · cases hj
    exfalso
    simp only [replaced, length_modify] at hr hlatest
    rw [hlatest] at hr
    cases hr

theorem mem_handleMessage {m : LiveServerMessage} (h : action ∈ handleMessage m) :
    action ≠ .schedule ∧ (action.stateless = true ∨ m.setupComplete = true ∨ m.goAway ≠ none ∧ action.isBeginReconnect = true) := by
  have hcallback : ∀ {callback}, action = .callback callback → action ≠ .schedule ∧ action.stateless = true := by
    rintro callback rfl
    exact ⟨nofun, rfl⟩
  have hcontent : ∀ content, action ∈ handleServerContent content → action ≠ .schedule ∧ action.stateless = true := by
    intro content hc
    simp only [handleServerContent, mem_append, mem_map] at hc
    rcases hc with (((⟨part, _, hp⟩ | hc) | hc) | hc) | hc
    · exact hcallback hp.symm
    all_goals
      split at hc
      · exact hcallback (mem_singleton.mp hc)
      · cases hc
  simp only [handleMessage, mem_append] at h
  rcases h with (((h | h) | h) | h) | h
  · split at h
    · next hs =>
      cases mem_singleton.mp h
      exact ⟨nofun, .inr (.inl hs)⟩
    · cases h
  · cases mem_singleton.mp h
    exact ⟨nofun, .inl rfl⟩
  · split at h
    · next hg =>
      rcases mem_cons.mp h with rfl | h
      · exact ⟨nofun, .inl rfl⟩
      · cases mem_singleton.mp h
        exact ⟨nofun, .inr (.inr ⟨by rw [hg]; exact Option.some_ne_none _, rfl⟩)⟩
    · cases h
  · split at h
    · cases mem_singleton.mp h
      exact ⟨nofun, .inl rfl⟩
    · cases h
  · split at h
    · have hc := hcontent _ h
      exact ⟨hc.1, .inl hc.2⟩
    · cases h

theorem mem_answerTools {failed : Option JsString} (h : action ∈ answerTools c failed) :
    action ≠ .schedule ∧ (failed = none → action = .acknowledge) := by
  rcases mem_append.mp h with h | h
  · split at h
    · rw [mem_emitError h]
      exact ⟨(fun h => by cases h), (fun h => by cases h)⟩
    · cases h
  · split at h
    · cases mem_singleton.mp h
      exact ⟨(fun h => by cases h), fun _ => rfl⟩
    · cases h

theorem inv_timer (h : Inv c s) (htodo : s.todo = []) : Inv c s.timer := by
  unfold timer
  split
  swap
  · exact h
  next hpending =>
  have hnoschedule : .schedule ∉ s.todo := by
    rw [htodo]
    exact not_mem_nil
  dsimp only
  split
  · next hclosing =>
    refine ⟨⟨h.1.current, h.1.opened, fun k p hk hp => ?_, nofun, h.1.handle, h.1.attempts⟩, fun _ => .inl hclosing, h.2.closed, h.2.fresh,
      harmless_of_nil htodo⟩
    obtain ⟨hlast, hnone, -⟩ := h.1.pending k p hk hp
    exact ⟨hlast, hnone, rfl⟩
  · next hclosing =>
    have hreconnecting := (h.2.scheduled (.inl hpending)).resolve_left hclosing
    obtain ⟨-, hnone, hheld, hlt⟩ := h.1.reconnecting hreconnecting
    have hpends : s.pends = false := by
      by_contra hp
      obtain ⟨p, hp, hpp⟩ := any_eq_true.mp (Bool.not_eq_false _ ▸ hp)
      obtain ⟨k, hk⟩ := mem_iff_getElem?.mp hp
      cases hreconnecting.symm.trans (h.1.pending k p hk (of_decide_eq_true hpp)).2.2
    have hbase : Sessions c { s with
        pendingReconnect := false
        reconnecting := false
        reconnectAttempts := s.reconnectAttempts + 1
        reconnects := s.reconnects + 1
        resumingSession := true } := by
      refine ⟨h.1.current, h.1.opened, fun k p hk hp => ?_, nofun, h.1.handle, ?_⟩
      · exact absurd hp (not_pending_of_pends hpends hk)
      · have ha := h.1.attempts
        exact ⟨by show s.reconnects + 1 = s.reconnectAttempts + 1; omega, by show s.reconnects + 1 ≤ _; omega⟩
    refine ⟨sessions_openSession c hbase hnone hpends rfl (.inl hheld) true, fun hs => ?_, fun hc => absurd hc hclosing, h.2.fresh, harmless_of_nil htodo⟩
    rcases hs with hs | hs
    · cases hs
    · exact absurd hs hnoschedule

theorem inv_step (h : Inv c s) {e : BridgeEvent} (hc : Careful c s e) : Inv c (s.step c e) := by
  cases e with
  | connect => exact inv_connect c h hc
  | close => exact inv_close c h hc
  | go ackFails => exact inv_go c h ackFails hc
  | send fails =>
    simp only [step, send]
    split
    · split
      · next hlive =>
        simp only [isLive, Bool.and_eq_true, Bool.not_eq_true'] at hlive
        exact ⟨h.1.congr c rfl rfl rfl rfl rfl rfl id, handler_deliver h.2 hlive.2 _⟩
      · exact h
    · exact h
  | resolve i =>
    simp only [step]
    split
    · next htodo => exact inv_resolve c h htodo i
    · exact h
  | reject i message =>
    simp only [step]
    split
    · exact inv_reject c h i message hc
    · exact h
  | socketError i message =>
    simp only [step]
    split
    · exact inv_handleSocketError c h i message
    · exact h
  | socketClose i =>
    simp only [step]
    split
    · next hidle =>
      simp only [Bool.and_eq_true, decide_eq_true_eq] at hidle
      exact inv_handleSocketClose c h hidle.1 i hidle.2 hc
    · exact h
  | message i m =>
    simp only [step]
    split
    swap
    · exact h
    next hidle =>
    simp only [Bool.and_eq_true, Bool.not_eq_true', decide_eq_true_eq] at hidle
    obtain ⟨-, hclosing⟩ := hidle
    refine ⟨h.1.congr c rfl rfl rfl rfl rfl rfl id, handler_start h.2 rfl rfl rfl rfl (fun hc => (by cases hclosing.symm.trans hc))
      (fun hs => absurd rfl (mem_handleMessage hs).1) fun j hj hr action ha => ?_⟩
    cases hj
    rcases hc with hc | hc | ⟨hsetup, hgoAway⟩
    · cases hclosing.symm.trans hc
    · cases hc.symm.trans hr
    · rcases (mem_handleMessage ha).2 with hst | hst | ⟨hg, hb⟩
      · exact .inl hst
      · cases hsetup.symm.trans hst
      · exact .inr ⟨hb, .inl (hgoAway.resolve_left hg)⟩
  | timer =>
    simp only [step]
    split
    · next htodo => exact inv_timer c h htodo
    · exact h
  | toolsSettled failed =>
    simp only [step, toolsSettled]
    split
    swap
    · exact h
    split
    swap
    · exact h
    refine ⟨h.1.congr c rfl rfl rfl rfl rfl rfl id, handler_start h.2 rfl rfl rfl rfl (fun hclosing => ⟨(h.2.closed hclosing).1, fun action ha => ?_⟩)
      (fun hs => absurd rfl (mem_answerTools c hs).1) (fun _ h => by cases h)⟩
    have hnone := hc.resolve_right fun hopen => (by cases hopen.symm.trans hclosing)
    rw [(mem_answerTools c ha).2 hnone]
    rfl

/-! ### From a replaced session -/

theorem perform_stateless (s : GeminiLiveBridge) (ackFails : Option JsString) (h : action.stateless = true) :
    (s.perform c ackFails action).state = s.state ∧ (s.perform c ackFails action).session = s.session ∧
      (s.perform c ackFails action).sessions = s.sessions := by
  cases action with
  | callback callback | schedule | toolCalls calls | awaitTools => exact ⟨rfl, rfl, rfl⟩
  | resumptionUpdate newHandle resumable =>
    simp only [perform]
    split <;> exact ⟨rfl, rfl, rfl⟩
  | acknowledge =>
    simp only [perform, acknowledge]
    split
    · exact ⟨rfl, rfl, rfl⟩
    · split <;> exact ⟨rfl, rfl, rfl⟩
  | setState state detail | setup | beginReconnect reason => cases h

theorem undisturbed_step (h : Inv c s) {e : BridgeEvent} (hc : Careful c s e) : Undisturbed c s e := by
  intro i hsource hreplaced
  have hsame : ∀ s' : GeminiLiveBridge, s'.state = s.state ∧ s'.session = s.session ∧ s'.sessions = s.sessions →
      s'.state = s.state ∧ s'.session = s.session ∧ ∀ j, i < j → s.opens j = true → s'.opens j = true := by
    rintro s' ⟨hstate, hsession, hsessions⟩
    refine ⟨hstate, hsession, fun j _ hj => ?_⟩
    rw [opens, hsessions]
    exact hj
  cases e with
  | go ackFails =>
    simp only [sourceOf] at hsource
    split at hsource
    · cases hsource
    apply hsame
    simp only [step, go]
    split
    · exact ⟨rfl, rfl, rfl⟩
    next action rest htodo =>
    rcases h.2.stale i hsource hreplaced action (htodo ▸ mem_cons_self) with hst | ⟨hb, hbusy⟩
    · exact perform_stateless c { s with todo := rest } ackFails hst
    · cases action with
      | beginReconnect reason =>
        have hnoop : (s.closing || s.reconnecting) = true := by
          rcases hbusy with hr | hcl
          · rw [hr, Bool.or_true]
          · rw [hcl, Bool.true_or]
        simp only [perform, beginReconnect]
        rw [if_pos hnoop]
        exact ⟨rfl, rfl, rfl⟩
      | _ => cases hb
  | socketError j message =>
    apply hsame
    simp only [step, handleSocketError]
    split
    · split <;> exact ⟨rfl, rfl, rfl⟩
    · exact ⟨rfl, rfl, rfl⟩
  | message j m =>
    apply hsame
    simp only [step]
    split <;> exact ⟨rfl, rfl, rfl⟩
  | socketClose j =>
    cases hsource
    simp only [step]
    split
    swap
    · exact hsame s ⟨rfl, rfl, rfl⟩
    simp only [handleSocketClose]
    -- nothing is open while the bridge is closed or reconnects
    have hnone : s.session = none → ∀ k, s.opens k = true → False := fun hn k hk => (by cases hn.symm.trans (h.1.opened k hk))
    split
    · next hclosing =>
      have hs : s.session = none := by
        cases hs : s.session with
        | none => rfl
        | some k => cases hclosing.symm.trans (h.1.current k hs).2
      exact ⟨(h.2.closed hclosing).1.symm, rfl, fun k _ hk => (hnone hs k hk).elim⟩
    · next hclosing =>
      split
      · next hreconnecting =>
        have hs := (h.1.reconnecting hreconnecting).2.1
        exact ⟨rfl, hs.symm, fun k _ hk => (hnone hs k hk).elim⟩
      · next hreconnecting =>
        rcases hc with hc | hc | ⟨hc, -⟩
        · exact absurd hc hclosing
        · exact absurd hc hreconnecting
        · cases hc.symm.trans hreplaced
  | _ => cases hsource

theorem one_session (handle : Option JsString) {es : List BridgeEvent} (h : Run.Along (step c) (Careful c) (new handle) es) :
    Run.Along (step c) (Sound c) (new handle) es := by
  have hnew : Inv c (new handle) := ⟨sessions_new c handle, handler_new handle⟩
  refine Run.along_of_invariant (I := Inv c) (fun _ _ hi hc => inv_step c hi hc) (fun s e hi hc => ?_) hnew h
  have hnext := inv_step c hi hc
  exact ⟨oneSession_of_sessions c hnext.1 hnext.2, undisturbed_step c hi hc⟩

def oneReconnect : BridgeConfig := ⟨1, true⟩

/-- A session that is set up and given a handle, and told to go away. -/
def toldToGoAway : List BridgeEvent :=
  [.connect, .resolve 0, .message 0 { setupComplete := true, newHandle := js "handle-1" }, .go none, .go none, .go none,
    .message 0 { goAway := some none }, .go none, .go none, .go none, .go none, .go none]

/-- The old socket closes while the reconnect waits for its delay. -/
def reconnected : List BridgeEvent :=
  toldToGoAway ++ [.socketClose 0, .timer, .resolve 1, .message 1 { setupComplete := true }, .go none, .go none, .go none, .go none, .close]

theorem one_session_reconnected : Run.Along (step oneReconnect) (Sound oneReconnect) (new none) reconnected :=
  one_session oneReconnect none (by decide +kernel)

/-- The old socket closes when its successor is up. -/
theorem late_socket_close : ∃ (c : BridgeConfig) (handle : Option JsString) (es : List BridgeEvent),
    ¬ Run.Along (step c) (Sound c) (new handle) es := by
  refine ⟨oneReconnect, none, toldToGoAway ++ [.timer, .resolve 1] ++ [.socketClose 0], fun h => ?_⟩
  have hsession := ((Run.along_append.mp h).2.1.2 0 rfl (by decide +kernel)).2.1
  revert hsession
  decide +kernel

-- two sessions are open after two calls of `connect`
example : (([.connect, .connect, .resolve 0, .resolve 1].foldl (step oneReconnect) (new none)).sessions.map (·.isOpen)) = [true, true] := by
  decide +kernel

-- an opening that fails after `close()` is reported
example : ([.connect, .close, .reject 0 (js "refused"), .go none, .go none].foldl (step oneReconnect) (new none)).sinceClose.length = 3 := by
  decide +kernel

end GeminiLiveBridge

end PiWebUi.Voice
