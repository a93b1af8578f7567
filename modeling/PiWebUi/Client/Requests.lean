/-
  PiWebUi.Client.Requests — every request is settled once.

  Along a run in which no connected request fails to be sent and no response to one is
  without a result and an error, a request has been settled once, by a response with its
  id, its timeout or a connection error, or its timeout is pending (`answered_step` keeps
  it; `Booked.answered`).
-/

import PiWebUi.Client.JSONRPCClient
import PiWebUi.Lib.InFlight

namespace PiWebUi.Client

open PiWebUi.Lib List Option

namespace JSONRPCClient

/-! ## What is claimed of the requests -/

/-- A request may be settled so. -/
def Request.Right (r : Request) : Outcome → Prop
  | .result id | .error id => ∃ n, r.id = some n ∧ id = JsNumber.natText n
  | .timeout | .connectionError => True
  | .thrown => False

/-- Settled once and rightly; or not yet, and its timeout is pending. -/
def Answered (s : JSONRPCClient) : Prop :=
  ∀ (k : ℕ) (r : Request), s.requests[k]? = some r →
    (∃ o, r.settlements = [o] ∧ Request.Right r o) ∨
      r.settlements = [] ∧ ∃ id, (s.step (.timeout id)).requests[k]? = some ⟨r.id, [.timeout]⟩

/-! ## The books -/

structure Booked (s : JSONRPCClient) : Prop where
  tracked : ∀ key w, s.requestTracker.get key = some w → key = JsNumber.natText w.id ∧ w ∈ s.timeouts
  waiting : ∀ w ∈ s.timeouts, s.requestTracker.get (JsNumber.natText w.id) = some w ∧ w.id ≤ s.requestIdCounter ∧
    s.requests[w.request]? = some ⟨some w.id, []⟩
  settled : ∀ (k : ℕ) (r : Request), s.requests[k]? = some r →
    (∃ o, r.settlements = [o] ∧ Request.Right r o) ∨ r.settlements = [] ∧ ∃ w ∈ s.timeouts, w.request = k

/-- The requests are as they were. -/
structure SameRequests (s s' : JSONRPCClient) : Prop where
  requests : s'.requests = s.requests
  requestTracker : s'.requestTracker = s.requestTracker
  timeouts : s'.timeouts = s.timeouts
  requestIdCounter : s'.requestIdCounter = s.requestIdCounter

theorem SameRequests.refl (s : JSONRPCClient) : s.SameRequests s := ⟨rfl, rfl, rfl, rfl⟩

variable {s : JSONRPCClient} {w : PendingRequest}

theorem SameRequests.trans {t u : JSONRPCClient} (h : s.SameRequests t) (k : t.SameRequests u) : s.SameRequests u :=
  ⟨k.requests.trans h.requests, k.requestTracker.trans h.requestTracker, k.timeouts.trans h.timeouts,
    k.requestIdCounter.trans h.requestIdCounter⟩

theorem Booked.same {s' : JSONRPCClient} (h : s.Booked) (hs : s.SameRequests s') : s'.Booked where
  tracked := by
    rw [hs.requestTracker, hs.timeouts]
    exact h.tracked
  waiting := by
    rw [hs.requestTracker, hs.timeouts, hs.requestIdCounter, hs.requests]
    exact h.waiting
  settled := by
    rw [hs.timeouts, hs.requests]
    exact h.settled

/-- Two timeouts of one request are one. -/
theorem Booked.eq_of_request (h : s.Booked) {v : PendingRequest} (hw : w ∈ s.timeouts) (hv : v ∈ s.timeouts)
    (hr : w.request = v.request) : w = v := by
  have h1 := (h.waiting w hw).2.2
  have h2 := (h.waiting v hv).2.2
  rw [hr, h2] at h1
  have hid : v.id = w.id := by
    have := congrArg Request.id (some.inj h1)
    exact some.inj this
  cases w
  cases v
  simp_all

theorem Booked.eq_of_id (h : s.Booked) {v : PendingRequest} (hw : w ∈ s.timeouts) (hv : v ∈ s.timeouts)
    (hid : w.id = v.id) : w = v := by
  have h1 := (h.waiting w hw).1
  rw [hid, (h.waiting v hv).1] at h1
  exact (some.inj h1).symm

/-! ## Settling -/

theorem getElem?_settle (requests : List Request) (k j : ℕ) (o : Outcome) :
    (settle requests k o)[j]? = requests[j]?.map fun r => if k = j then { r with settlements := r.settlements ++ [o] } else r := by
  rw [settle, getElem?_modify]
  cases requests[j]? with
  | none => rfl
  | some r => by_cases h : k = j <;> simp [h]

/-- One of the pending requests is settled and forgotten. -/
theorem booked_settle {s' : JSONRPCClient} (h : s.Booked) (hw : w ∈ s.timeouts) {o : Outcome}
    (ho : Request.Right ⟨some w.id, []⟩ o) (htimeouts : s'.timeouts = s.timeouts.filter (· ≠ w))
    (htracker : s'.requestTracker = s.requestTracker.delete (JsNumber.natText w.id)) (hrequests : s'.requests = settle s.requests w.request o)
    (hcounter : s'.requestIdCounter = s.requestIdCounter) : s'.Booked := by
  have hne : ∀ v ∈ s.timeouts, v ≠ w → v.id ≠ w.id ∧ v.request ≠ w.request := fun v hv hvw =>
    ⟨fun hid => hvw (h.eq_of_id hv hw hid), fun hr => hvw (h.eq_of_request hv hw hr)⟩
  constructor
  · intro key v hv
    rw [htracker, JsMap.get_eq_some, JsMap.mem_delete] at hv
    obtain ⟨hkey, hmem⟩ := hv
    obtain ⟨hk, hvt⟩ := h.tracked key v (JsMap.get_eq_some.mpr hmem)
    refine ⟨hk, ?_⟩
    rw [htimeouts, mem_filter]
    refine ⟨hvt, ?_⟩
    have : v ≠ w := fun hvw => hkey (hk.trans (by rw [hvw]))
    simpa using this
  · intro v hv
    rw [htimeouts, mem_filter] at hv
    obtain ⟨hvt, hvw⟩ := hv
    have hvw : v ≠ w := by simpa using hvw
    obtain ⟨hid, hr⟩ := hne v hvt hvw
    obtain ⟨hget, hle, hreq⟩ := h.waiting v hvt
    refine ⟨?_, hcounter ▸ hle, ?_⟩
    · rw [htracker, JsMap.get_eq_some, JsMap.mem_delete]
      exact ⟨fun hk => hid (JsNumber.natText_injective hk), JsMap.get_eq_some.mp hget⟩
    · rw [hrequests, getElem?_settle, hreq]
      simp [Ne.symm hr]
  · intro k r hr
    rw [hrequests, getElem?_settle] at hr
    obtain ⟨r₀, hr₀, rfl⟩ := map_eq_some_iff.mp hr
    by_cases hk : w.request = k
    · subst hk
      rw [(h.waiting w hw).2.2] at hr₀
      cases hr₀
      rw [if_pos rfl]
      exact .inl ⟨o, rfl, ho⟩
    · rw [if_neg hk]
      refine (h.settled k r₀ hr₀).imp_right fun ⟨hempty, v, hv, hvk⟩ => ⟨hempty, v, ?_, hvk⟩
      rw [htimeouts, mem_filter]
      have : v ≠ w := fun hvw => hk (hvw ▸ hvk)
      exact ⟨hv, by simpa using this⟩

theorem getElem?_settleAll {ws : List PendingRequest} (hn : (ws.map PendingRequest.request).Nodup) (o : Outcome) (j : ℕ) :
    ∀ requests : List Request, (ws.foldl (fun requests w => settle requests w.request o) requests)[j]? =
      requests[j]?.map fun r => if j ∈ ws.map PendingRequest.request then { r with settlements := r.settlements ++ [o] } else r := by
  induction ws with
  | nil => intro requests; simp
  | cons w ws ih =>
    intro requests
    rw [map_cons, nodup_cons] at hn
    rw [foldl_cons, ih hn.2, getElem?_settle, Option.map_map]
    congr 1
    funext r
    by_cases hw : w.request = j
    · subst hw
      simp [hn.1]
    · simp [hw, Ne.symm hw]

theorem booked_rejectAllPending (h : s.Booked) : s.rejectAllPending.Booked := by
  have hvalues : ∀ w, w ∈ s.requestTracker.values ↔ w ∈ s.timeouts := by
    intro w
    constructor
    · intro hw
      obtain ⟨⟨key, v⟩, hmem, rfl⟩ := mem_map.mp hw
      exact (h.tracked key v (JsMap.get_eq_some.mpr hmem)).2
    · intro hw
      exact mem_map.mpr ⟨_, JsMap.get_eq_some.mp (h.waiting w hw).1, rfl⟩
  have htimeouts : s.rejectAllPending.timeouts = [] := by
    show s.timeouts.filter _ = []
    rw [filter_eq_nil_iff]
    intro w hw
    simpa using (hvalues w).mpr hw
  have hnodup : (s.requestTracker.values.map PendingRequest.request).Nodup := by
    rw [JsMap.values, List.map_map]
    refine List.Nodup.map_on ?_ (List.Nodup.of_map _ s.requestTracker.nodup)
    intro x hx y hy hxy
    have hxt := h.tracked x.1 x.2 (JsMap.get_eq_some.mpr hx)
    have hyt := h.tracked y.1 y.2 (JsMap.get_eq_some.mpr hy)
    have := h.eq_of_request hxt.2 hyt.2 hxy
    exact Prod.ext (hxt.1.trans (this ▸ hyt.1.symm)) this
  constructor
  · intro key w hw
    cases hw
  · intro w hw
    rw [htimeouts] at hw
    cases hw
  · intro k r hr
    left
    have hr : (s.requestTracker.values.foldl (fun requests w => settle requests w.request .connectionError) s.requests)[k]? = some r := hr
    rw [getElem?_settleAll hnodup] at hr
    obtain ⟨r₀, hr₀, rfl⟩ := map_eq_some_iff.mp hr
    rcases h.settled k r₀ hr₀ with ⟨o, ho, hright⟩ | ⟨hempty, w, hw, hwk⟩
    · split
      · next hmem =>
        -- a pending request is not settled
        obtain ⟨w, hw, rfl⟩ := mem_map.mp hmem
        rw [(h.waiting w ((hvalues w).mp hw)).2.2] at hr₀
        cases hr₀
        cases ho
      · exact ⟨o, ho, hright⟩
    · rw [if_pos (mem_map.mpr ⟨w, (hvalues w).mpr hw, hwk⟩)]
      exact ⟨.connectionError, by simp [hempty], trivial⟩

/-! ## Every step -/

theorem same_onSocket (s : JSONRPCClient) (i : ℕ) (f : RpcSocket → RpcSocket) : s.SameRequests (s.onSocket i f) :=
  ⟨rfl, rfl, rfl, rfl⟩

theorem same_attemptReconnect (s : JSONRPCClient) : s.SameRequests s.attemptReconnect := by
  unfold attemptReconnect
  split <;> exact ⟨rfl, rfl, rfl, rfl⟩

theorem same_reconnectFailed (s : JSONRPCClient) : s.SameRequests s.reconnectFailed := by
  unfold reconnectFailed
  split
  · exact same_attemptReconnect s
  · exact ⟨rfl, rfl, rfl, rfl⟩

theorem same_cleanup (s : JSONRPCClient) (i : ℕ) : s.SameRequests (s.cleanup i) := by
  unfold cleanup
  split
  · exact same_onSocket s i _
  · exact .refl s

theorem same_rejectConnect (s : JSONRPCClient) (i : ℕ) (k : RpcSocket) : s.SameRequests (s.rejectConnect i k) := by
  unfold rejectConnect
  split
  · show s.SameRequests (if _ then _ else _)
    split
    · exact (same_onSocket s i _).trans (same_reconnectFailed _)
    · exact same_onSocket s i _
  · exact .refl s

theorem same_onOpen (s : JSONRPCClient) (i : ℕ) : s.SameRequests (s.onOpen i) :=
  have hc := same_cleanup s i
  ⟨hc.requests, hc.requestTracker, hc.timeouts, hc.requestIdCounter⟩

theorem same_closeSocket (s : JSONRPCClient) : s.SameRequests s.closeSocket := by
  unfold closeSocket
  split
  · exact same_onSocket s _ _
  · exact .refl s

theorem same_establish (s : JSONRPCClient) (url : JsString) (constructs reconnect : Bool) :
    s.SameRequests (s.establish url constructs reconnect) := by
  unfold establish
  split <;> exact ⟨rfl, rfl, rfl, rfl⟩

theorem booked_disconnect (h : s.Booked) : s.disconnect.Booked := by
  unfold disconnect
  split
  · exact h
  · have hr : ({ s with timers := s.timers.filter fun t => some t ≠ s.reconnectTimer, reconnectTimer := none } : JSONRPCClient).Booked :=
      h.same ⟨rfl, rfl, rfl, rfl⟩
    exact ((booked_rejectAllPending hr).same (same_closeSocket _)).same ⟨rfl, rfl, rfl, rfl⟩

theorem booked_handleClose (h : s.Booked) : s.handleClose.Booked := by
  have hreject := booked_rejectAllPending h
  unfold handleClose
  show Booked (if _ then _ else _)
  split
  · exact hreject.same (same_attemptReconnect _)
  · exact hreject.same ⟨rfl, rfl, rfl, rfl⟩

theorem booked_connect (h : s.Booked) (url : JsString) (constructs : Bool) : (s.connect url constructs).Booked := by
  unfold connect
  split
  · split
    · exact h
    · exact (booked_disconnect h).same (same_establish _ _ _ _)
  · exact h.same (same_establish _ _ _ _)

/-- The id a request gets is new. -/
theorem booked_request (h : s.Booked) {throws : Bool} (hs : s.isConnected = true → throws = false) : (s.request throws).Booked := by
  unfold request
  split
  · constructor
    · exact h.tracked
    · intro w hw
      obtain ⟨hget, hle, hreq⟩ := h.waiting w hw
      exact ⟨hget, hle, InFlight.append_left _ hreq⟩
    · intro k r hr
      rcases InFlight.get_append hr with hr | ⟨-, rfl⟩
      · exact h.settled k r hr
      · exact .inl ⟨.connectionError, rfl, trivial⟩
  · next hc =>
    have hc : s.isConnected = true := by simpa using hc
    obtain rfl := hs hc
    have hfresh : ∀ w ∈ s.timeouts, w.id ≠ s.requestIdCounter + 1 := fun w hw => by
      have := (h.waiting w hw).2.1
      omega
    constructor
    · intro key w hw
      obtain ⟨hkey, rfl⟩ | ⟨-, hw⟩ := JsMap.get_set_eq_some.mp hw
      · exact ⟨hkey, mem_append_right _ mem_cons_self⟩
      · obtain ⟨hk, hwt⟩ := h.tracked key w hw
        exact ⟨hk, mem_append_left _ hwt⟩
    · intro w hw
      rcases mem_append.mp hw with hw | hw
      · obtain ⟨hget, hle, hreq⟩ := h.waiting w hw
        refine ⟨?_, Nat.le_succ_of_le hle, InFlight.append_left _ hreq⟩
        rw [JsMap.get_set_ne _ _ fun hk => hfresh w hw (JsNumber.natText_injective hk)]
        exact hget
      · cases mem_singleton.mp hw
        exact ⟨JsMap.get_set_same _ _ _, Nat.le_refl _, getElem?_concat_length⟩
    · intro k r hr
      rcases InFlight.get_append hr with hr | ⟨rfl, rfl⟩
      · refine (h.settled k r hr).imp_right fun hp => ?_
        obtain ⟨hempty, w, hw, hwk⟩ := hp
        exact ⟨hempty, w, mem_append_left _ hw, hwk⟩
      · exact .inr ⟨rfl, _, mem_append_right _ mem_cons_self, rfl⟩

theorem booked_handleResponse (h : s.Booked) {id : JsString} {body : ResponseBody}
    (hs : s.requestTracker.get id ≠ none → body ≠ .neither) : (s.handleResponse id body).Booked := by
  unfold handleResponse
  split
  · exact h
  · next w hget =>
    obtain ⟨rfl, hw⟩ := h.tracked id w hget
    cases body with
    | result => exact booked_settle h hw (o := .result _) ⟨w.id, rfl, rfl⟩ rfl rfl rfl rfl
    | error => exact booked_settle h hw (o := .error _) ⟨w.id, rfl, rfl⟩ rfl rfl rfl rfl
    | neither => exact absurd rfl (hs (by rw [hget]; exact some_ne_none _))

theorem booked_timeout (h : s.Booked) (id : ℕ) : (s.step (.timeout id)).Booked := by
  simp only [step]
  split
  · next w hfind =>
    exact booked_settle h (mem_of_find?_eq_some hfind) (o := .timeout) trivial rfl rfl rfl rfl
  · exact h

/-- What a request and a response have to be for every request to be answered. -/
def Answerable (s : JSONRPCClient) : RpcEvent → Prop
  | .request throws => s.isConnected = true → throws = false
  | .response i id body => s.readyState i = some .opened → s.requestTracker.get id ≠ none → body ≠ .neither
  | _ => True

theorem answered_step (h : s.Booked) {e : RpcEvent} (he : s.Answerable e) : (s.step e).Booked := by
  cases e with
  | connect url constructs =>
    have hs : ({ s with final := false } : JSONRPCClient).Booked := h.same ⟨rfl, rfl, rfl, rfl⟩
    exact booked_connect hs url constructs
  | disconnect => exact (booked_disconnect h).same ⟨rfl, rfl, rfl, rfl⟩
  | request throws => exact booked_request h he
  | opens i =>
    simp only [step]
    split
    · split
      · show Booked (if _ then _ else _)
        split
        · exact h.same ((same_onSocket s i _).trans (same_onOpen _ i))
        · exact h.same (same_onSocket s i _)
      · exact h
    · exact h
  | errors i =>
    simp only [step]
    split
    · split
      · show Booked (if _ then _ else _)
        split
        · exact (h.same (same_onSocket s i _)).same ((same_cleanup _ i).trans (same_rejectConnect _ i _))
        · exact h.same (same_onSocket s i _)
      · exact h
    · exact h
  | startsClosing i => exact h.same (same_onSocket s i _)
  | closes i =>
    simp only [step]
    split
    · split
      · refine booked_handleClose ?_
        split
        · exact (h.same (same_onSocket s i _)).same ((same_cleanup _ i).trans (same_rejectConnect _ i _))
        · exact h.same (same_onSocket s i _)
      · exact h
    · exact h
  | response i id body =>
    show Booked (if _ then _ else _)
    split
    · next hi => exact booked_handleResponse h (he hi)
    · exact h
  | timeout id => exact booked_timeout h id
  | reconnectTimer t constructs =>
    show Booked (if _ then _ else _)
    split
    · have ht : ({ s with timers := s.timers.filter (· ≠ t) } : JSONRPCClient).Booked := h.same ⟨rfl, rfl, rfl, rfl⟩
      simp only [reconnects]
      split
      · exact ht
      · next url _ =>
        have hnew : ({ s with timers := s.timers.filter (· ≠ t), ws := none, connectionState := .disconnected } : JSONRPCClient).Booked :=
          h.same ⟨rfl, rfl, rfl, rfl⟩
        have he := hnew.same (same_establish _ url constructs true)
        show Booked (if _ then _ else _)
        split
        · exact he
        · exact he.same (same_reconnectFailed _)
    · exact h

theorem Booked.answered (h : s.Booked) : s.Answered := by
  intro k r hr
  refine (h.settled k r hr).imp_right fun hp => ?_
  obtain ⟨hempty, w, hw, hwk⟩ := hp
  refine ⟨hempty, w.id, ?_⟩
  simp only [step]
  split
  · next v hfind =>
    have hvw : v = w := h.eq_of_id (mem_of_find?_eq_some hfind) hw (by simpa using find?_some hfind)
    subst hvw
    show (settle s.requests v.request .timeout)[k]? = _
    rw [getElem?_settle, hr]
    simp [hwk, hempty]
  · next hfind => exact absurd (find?_eq_none.mp hfind w hw) (by simp)

theorem booked_createJSONRPCClient (maxReconnectAttempts : ℕ) : (createJSONRPCClient maxReconnectAttempts).Booked :=
  ⟨nofun, nofun, nofun⟩

end JSONRPCClient

end PiWebUi.Client
