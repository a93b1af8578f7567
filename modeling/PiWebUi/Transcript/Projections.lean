/-
  PiWebUi.Transcript.Projections — one transcript in four places.

  The visible rows, `sessionData`, `sessionMessages` and the LRU entry of the current
  session are meant to be one list. Most handlers write all four; `session_switched` and
  `session_created` leave `sessionData` as it was, `agent_end` completes open tools in the
  visible rows only, and the status events make empty data for a session whose rows are
  shown. The next delta then reads its base from `sessionData` and rolls the others back
  (`a_delta_after_the_switch`).
-/

import PiWebUi.Transcript.Store
import PiWebUi.Lib.Run

namespace PiWebUi.Transcript

open PiWebUi.Lib PiWebUi.Lib.JsNumber List Option

/-- What exists for the current session is what is visible. -/
structure OneTranscript (s : Store) : Prop where
  data : ∀ sid, s.currentSessionId = some sid → ∀ ms, s.sessionData sid = some ms → ms = s.messages
  cached : ∀ sid, s.currentSessionId = some sid → ∀ ms, s.sessionMessages sid = some ms → ms = s.messages
  cache : ∀ sid, s.currentSessionId = some sid → ∀ e, s.sessionCache.get sid = some e → e.messages = s.messages

/-! ## What a step touches -/

/-- Only the session's own entries change, and what is visible only if it is current. -/
structure Within (sid : SessionId) (s s' : Store) : Prop where
  current : s'.currentSessionId = s.currentSessionId
  visible : s.currentSessionId ≠ some sid → s'.messages = s.messages
  data : ∀ other, other ≠ sid → s'.sessionData other = s.sessionData other
  cached : ∀ other, other ≠ sid → s'.sessionMessages other = s.sessionMessages other
  cache : ∀ other, other ≠ sid → s'.sessionCache.get other = s.sessionCache.get other

/-- The rows stand as they were everywhere. -/
structure SameRows (s s' : Store) : Prop where
  current : s'.currentSessionId = s.currentSessionId
  visible : s'.messages = s.messages
  data : s'.sessionData = s.sessionData
  cached : s'.sessionMessages = s.sessionMessages
  cache : s'.sessionCache = s.sessionCache

/-- The session's rows are the same list everywhere. -/
structure Uniform (sid : SessionId) (ms : List Message) (s : Store) : Prop where
  visible : s.currentSessionId = some sid → s.messages = ms
  data : s.sessionData sid = some ms
  cached : s.sessionMessages sid = some ms
  cache : (s.sessionCache.get sid).map (·.messages) = some ms

theorem Within.refl (sid : SessionId) (s : Store) : Within sid s s :=
  ⟨rfl, fun _ => rfl, fun _ _ => rfl, fun _ _ => rfl, fun _ _ => rfl⟩

variable {s : Store} {sid : SessionId}

theorem Within.trans {t u : Store} (h : Within sid s t) (k : Within sid t u) : Within sid s u where
  current := k.current.trans h.current
  visible hne := (k.visible (by rw [h.current]; exact hne)).trans (h.visible hne)
  data other hne := (k.data other hne).trans (h.data other hne)
  cached other hne := (k.cached other hne).trans (h.cached other hne)
  cache other hne := (k.cache other hne).trans (h.cache other hne)

theorem SameRows.within {s' : Store} (h : SameRows s s') (sid : SessionId) : Within sid s s' :=
  ⟨h.current, fun _ => h.visible, fun _ _ => by rw [h.data], fun _ _ => by rw [h.cached], fun _ _ => by rw [h.cache]⟩

theorem SameRows.uniform {s' : Store} (h : SameRows s s') {ms : List Message} (hu : Uniform sid ms s) : Uniform sid ms s' :=
  ⟨by rw [h.current, h.visible]; exact hu.visible, by rw [h.data]; exact hu.data, by rw [h.cached]; exact hu.cached,
    by rw [h.cache]; exact hu.cache⟩

theorem SameRows.oneTranscript {s' : Store} (h : SameRows s s') : OneTranscript s' ↔ OneTranscript s := by
  obtain ⟨hc, hv, hd, hm, hk⟩ := h
  constructor
  · rintro ⟨d, m, k⟩
    rw [hc, hv, hd] at d
    rw [hc, hv, hm] at m
    rw [hc, hv, hk] at k
    exact ⟨d, m, k⟩
  · rintro ⟨d, m, k⟩
    rw [← hc, ← hv, ← hd] at d
    rw [← hc, ← hv, ← hm] at m
    rw [← hc, ← hv, ← hk] at k
    exact ⟨d, m, k⟩

/-- A change to another session leaves the current one's agreement alone. -/
theorem Within.oneTranscript {s' : Store} (h : Within sid s s') (hne : s.currentSessionId ≠ some sid) :
    OneTranscript s' ↔ OneTranscript s := by
  have hother : ∀ c, s.currentSessionId = some c → c ≠ sid := by
    rintro c hc rfl
    exact hne hc
  constructor
  · rintro ⟨d, m, k⟩
    rw [h.current, h.visible hne] at d m k
    refine ⟨fun c hc => ?_, fun c hc => ?_, fun c hc => ?_⟩
    · rw [← h.data c (hother c hc)]; exact d c hc
    · rw [← h.cached c (hother c hc)]; exact m c hc
    · rw [← h.cache c (hother c hc)]; exact k c hc
  · rintro ⟨d, m, k⟩
    constructor <;> rw [h.current, h.visible hne]
    · intro c hc
      rw [h.data c (hother c hc)]
      exact d c hc
    · intro c hc
      rw [h.cached c (hother c hc)]
      exact m c hc
    · intro c hc
      rw [h.cache c (hother c hc)]
      exact k c hc

theorem Uniform.oneTranscript {ms : List Message} (h : Uniform sid ms s)
    (hc : s.currentSessionId = some sid) : OneTranscript s := by
  have hv := h.visible hc
  constructor
  · intro c hc' ms' hd
    obtain rfl := some.inj (hc.symm.trans hc')
    rw [hv]
    exact some.inj (hd.symm.trans h.data)
  · intro c hc' ms' hm
    obtain rfl := some.inj (hc.symm.trans hc')
    rw [hv]
    exact some.inj (hm.symm.trans h.cached)
  · intro c hc' e he
    obtain rfl := some.inj (hc.symm.trans hc')
    have hk := h.cache
    rw [he, map_some] at hk
    rw [hv]
    exact some.inj hk

section

variable (c : Clock)

theorem within_writeSession (sid : SessionId) (ms : List Message) (s : Store) : Within sid s (writeSession c sid ms s) where
  current := rfl
  visible hne := if_neg hne
  data _ hne := put_other _ hne _
  cached _ hne := put_other _ hne _
  cache _ hne := JsMap.get_set_ne _ _ hne

theorem uniform_writeSession (sid : SessionId) (ms : List Message) (s : Store) : Uniform sid ms (writeSession c sid ms s) where
  visible hc := if_pos hc
  data := put_same _ _ _
  cached := put_same _ _ _
  cache := by rw [writeSession, JsMap.get_set_same]; rfl

/-- The handler leaves the session's rows alone, or writes them everywhere. -/
def Folded (sid : SessionId) (s s' : Store) : Prop :=
  Within sid s s' ∧ (SameRows s s' ∨ ∃ ms, Uniform sid ms s')

theorem Folded.refl (sid : SessionId) (s : Store) : Folded sid s s :=
  ⟨.refl sid s, .inl ⟨rfl, rfl, rfl, rfl, rfl⟩⟩

theorem Folded.of_sameRows {sid : SessionId} {s s' : Store} (h : SameRows s s') : Folded sid s s' := ⟨h.within sid, .inl h⟩

theorem Folded.trans {sid : SessionId} {s t u : Store} (h : Folded sid s t) (k : Folded sid t u) : Folded sid s u := by
  refine ⟨h.1.trans k.1, ?_⟩
  rcases k.2 with hs | hu
  · rcases h.2 with ht | ⟨ms, hms⟩
    · exact .inl ⟨hs.current.trans ht.current, hs.visible.trans ht.visible, hs.data.trans ht.data, hs.cached.trans ht.cached,
        hs.cache.trans ht.cache⟩
    · exact .inr ⟨ms, hs.uniform hms⟩
  · exact .inr hu

theorem Folded.oneTranscript {sid : SessionId} {s s' : Store} (h : Folded sid s s') (hs : OneTranscript s) : OneTranscript s' := by
  obtain ⟨hw, hr⟩ := h
  by_cases hc : s.currentSessionId = some sid
  · rcases hr with hr | ⟨ms, hu⟩
    · exact hr.oneTranscript.mpr hs
    · exact hu.oneTranscript (hw.current.trans hc)
  · exact (hw.oneTranscript hc).mpr hs

theorem folded_writeSession (sid : SessionId) (ms : List Message) (s : Store) : Folded sid s (writeSession c sid ms s) :=
  ⟨within_writeSession c sid ms s, .inr ⟨ms, uniform_writeSession c sid ms s⟩⟩

theorem folded_addMessageToSession (sid : SessionId) (m : Message) (s : Store) : Folded sid s (addMessageToSession c sid m s) :=
  folded_writeSession c sid _ s

theorem folded_updateMessageInSession (sid : SessionId) (id : JsString) (u : Updates) (s : Store) :
    Folded sid s (updateMessageInSession c sid id u s) := by
  unfold updateMessageInSession
  split
  · exact .refl sid s
  · simp only
    split
    · exact .refl sid s
    · exact folded_writeSession c sid _ s

theorem folded_tracked (sid : SessionId) (s : Store) (t : SessionId → TrackedIds) : Folded sid s { s with tracked := t } :=
  .of_sameRows ⟨rfl, rfl, rfl, rfl, rfl⟩

theorem folded_handleMessageStart (sid : SessionId) (message : WireMessage) (s : Store) :
    Folded sid s (handleMessageStart c sid message s) := by
  unfold handleMessageStart
  simp only
  refine Folded.trans ?_ (folded_tracked sid _ _)
  split
  · exact (folded_tracked sid s _).trans (folded_updateMessageInSession c sid _ _ _)
  · exact (folded_tracked sid s _).trans (folded_addMessageToSession c sid _ _)

theorem folded_handleFoldable (sid : SessionId) (s : Store) (e : Event) : Folded sid s (handleFoldable c sid s e) := by
  cases e with
  | messageStart message => exact folded_handleMessageStart c sid message s
  | messageUpdate id e =>
    simp only [handleFoldable, handleMessageUpdate]
    repeat' split
    all_goals first | exact .refl sid s | exact folded_updateMessageInSession c sid _ _ s
  | messageEnd message =>
    simp only [handleFoldable, handleMessageEnd]
    repeat' split
    all_goals first | exact .refl sid s | exact folded_updateMessageInSession c sid _ _ s
  | toolStart raw => exact folded_addMessageToSession c sid _ s
  | toolEnd raw result isError =>
    simp only [handleFoldable, handleToolEnd]
    repeat' split
    all_goals first | exact .refl sid s | exact folded_updateMessageInSession c sid _ _ s

end

/-! ## The other events -/

/-- The status of the session finds data, or makes empty data for no rows. -/
def FindsData (s : Store) (sid : SessionId) : Prop :=
  s.currentSessionId = some sid → s.messages = [] ∨ ∃ ms, s.sessionData sid = some ms

theorem within_ensureSessionData (sid : SessionId) (s : Store) : Within sid s (ensureSessionData sid s) := by
  unfold ensureSessionData
  split
  · exact .refl sid s
  · exact ⟨rfl, fun _ => rfl, fun _ hne => put_other _ hne _, fun _ _ => rfl, fun _ _ => rfl⟩

theorem ensureSessionData_of_some {ms : List Message} (h : s.sessionData sid = some ms) : ensureSessionData sid s = s := by
  simp only [ensureSessionData, h]

theorem ensureSessionData_of_none (h : s.sessionData sid = none) :
    ensureSessionData sid s = { s with sessionData := put s.sessionData sid (some []) } := by
  simp only [ensureSessionData, h]

theorem ensureSessionData_iff (hs : OneTranscript s) (sid : SessionId) :
    OneTranscript (ensureSessionData sid s) ↔ FindsData s sid := by
  by_cases hc : s.currentSessionId = some sid
  · cases hd : s.sessionData sid with
    | some ms =>
      rw [ensureSessionData_of_some hd]
      exact ⟨fun _ _ => .inr ⟨ms, hd⟩, fun _ => hs⟩
    | none =>
      rw [ensureSessionData_of_none hd]
      constructor
      · intro h _
        exact .inl (h.data sid hc [] (put_same _ _ _)).symm
      · intro h
        have hv : s.messages = [] := by
          rcases h hc with hv | ⟨ms, hms⟩
          · exact hv
          · rw [hd] at hms
            cases hms
        refine ⟨fun o ho ms hms => ?_, hs.cached, hs.cache⟩
        obtain rfl := some.inj (hc.symm.trans ho)
        rw [← some.inj ((put_same _ _ _).symm.trans hms)]
        exact hv.symm
  · rw [(within_ensureSessionData sid s).oneTranscript hc]
    exact ⟨fun _ h => absurd h hc, fun _ => hs⟩

theorem handleAgentEnd_eq (sid : SessionId) (s : Store) : SameRows (if s.currentSessionId = some sid
        then { ensureSessionData sid s with messages := s.messages.map completeTool } else ensureSessionData sid s)
      (handleAgentEnd sid s) := by
  have hcur := (within_ensureSessionData sid s).current
  have hmsgs : (ensureSessionData sid s).messages = s.messages := by
    unfold ensureSessionData
    split <;> rfl
  simp only [handleAgentEnd, hcur, hmsgs]
  split
  · exact ⟨rfl, rfl, rfl, rfl, rfl⟩
  · exact ⟨hcur.symm, hmsgs.symm, rfl, rfl, rfl⟩

theorem map_completeTool_iff (ms : List Message) : ms.map completeTool = ms ↔ ∀ m ∈ ms, completeTool m = m := by
  conv_lhs => rhs; rw [← List.map_id ms]
  exact map_inj_left

theorem handleAgentEnd_iff (hs : OneTranscript s) (sid : SessionId) : OneTranscript (handleAgentEnd sid s) ↔
      FindsData s sid ∧ (s.currentSessionId = some sid → ∀ m ∈ s.messages, completeTool m = m) := by
  rw [(handleAgentEnd_eq sid s).oneTranscript]
  by_cases hc : s.currentSessionId = some sid
  · rw [if_pos hc, ← map_completeTool_iff]
    constructor
    · intro h
      have hcur := (within_ensureSessionData sid s).current
      cases hd : s.sessionData sid with
      | some ms =>
        rw [ensureSessionData_of_some hd] at h
        have hold := hs.data sid hc ms hd
        have hnew := h.data sid hc ms hd
        exact ⟨fun _ => .inr ⟨ms, hd⟩, fun _ => hnew.symm.trans hold⟩
      | none =>
        rw [ensureSessionData_of_none hd] at h
        have hnew := h.data sid hc [] (put_same _ _ _)
        have hnil : s.messages = [] := map_eq_nil_iff.mp hnew.symm
        exact ⟨fun _ => .inl hnil, fun _ => by rw [hnil]; rfl⟩
    · rintro ⟨hfind, hdone⟩
      have hens := (ensureSessionData_iff hs sid).mpr hfind
      have hmsgs : (ensureSessionData sid s).messages = s.messages := by
        unfold ensureSessionData
        split <;> rfl
      rw [hdone hc, ← hmsgs]
      exact hens
  · rw [if_neg hc, (within_ensureSessionData sid s).oneTranscript hc]
    exact ⟨fun _ => ⟨fun h => absurd h hc, fun h => absurd h hc⟩, fun _ => hs⟩

section

variable (c : Clock)

theorem folded_addErrorRow (sid : SessionId) (row : Message) (s : Store) : Folded sid s (addErrorRow c sid row s) := by
  unfold addErrorRow
  simp only
  have hadd := folded_addMessageToSession c sid row s
  split
  · next hc =>
    refine hadd.trans ⟨?_, .inr ⟨(addMessageToSession c sid row s).messages ++ [row], ?_⟩⟩
    · simp only [addMessage, hc, writeCurrent]
      refine ⟨hc.symm, fun hne => absurd hc hne, fun _ hne => ?_, fun _ hne => put_other _ hne _, fun _ hne => JsMap.get_set_ne _ _ hne⟩
      simp only
      split
      · exact put_other _ hne _
      · rfl
    · have hdata : ((addMessageToSession c sid row s).sessionData sid).isSome = true := by
        simp [addMessageToSession, writeSession]
      simp only [addMessage, hc, writeCurrent, hdata, if_true]
      exact ⟨fun _ => rfl, put_same _ _ _, put_same _ _ _, by rw [JsMap.get_set_same]; rfl⟩
  · exact hadd

/-- What a live event must meet. -/
def EventSafe (s : Store) (sid : SessionId) : SessionEvent → Prop
  | .other .agentStart | .other .error | .other .staleStreamReset | .other .sessionRecovered | .other .rateLimit => FindsData s sid
  | .other (.sessionInit model) => (truthy model).isSome → FindsData s sid
  | .other .agentEnd => FindsData s sid ∧ (s.currentSessionId = some sid → ∀ m ∈ s.messages, completeTool m = m)
  | _ => True

/-- A live event folds within its session, or at most looks its data up, but for the end of a
    turn. -/
theorem handleSessionEvent_cases (sid : SessionId) (s : Store) (item : SessionEvent) :
    (Folded sid s (handleSessionEvent c sid s item) ∧ EventSafe s sid item) ∨
      (handleSessionEvent c sid s item = ensureSessionData sid s ∧ (EventSafe s sid item ↔ FindsData s sid)) ∨ item = .other .agentEnd := by
  cases item with
  | event e => exact .inl ⟨folded_handleFoldable c sid s e, trivial⟩
  | other e =>
    cases e with
    | agentStart | error | staleStreamReset | sessionRecovered | rateLimit => exact .inr (.inl ⟨rfl, Iff.rfl⟩)
    | agentEnd => exact .inr (.inr rfl)
    | toolUpdate raw text =>
      refine .inl ⟨?_, trivial⟩
      simp only [handleSessionEvent, handleOther]
      split
      · exact .refl sid s
      · exact folded_updateMessageInSession c sid _ _ s
    | apiError message provider model => exact .inl ⟨folded_addErrorRow c sid _ s, trivial⟩
    | sessionInit model =>
      simp only [handleSessionEvent, handleOther, EventSafe]
      by_cases hm : (truthy model).isSome = true
      · rw [if_pos hm]
        exact .inr (.inl ⟨rfl, fun h => h hm, fun h _ => h⟩)
      · rw [if_neg hm]
        exact .inl ⟨.refl sid s, fun h => absurd h hm⟩
    | message id stopReason errorMessage provider model =>
      refine .inl ⟨?_, trivial⟩
      simp only [handleSessionEvent, handleOther]
      repeat' split
      all_goals first | exact .refl sid s | exact folded_addErrorRow c sid _ s
    | other => exact .inl ⟨.refl sid s, trivial⟩

theorem handleSessionEvent_iff {s : Store} (hs : OneTranscript s) (sid : SessionId) (item : SessionEvent) :
    OneTranscript (handleSessionEvent c sid s item) ↔ EventSafe s sid item := by
  rcases handleSessionEvent_cases c sid s item with ⟨hfolded, hsafe⟩ | ⟨heq, hsafe⟩ | rfl
  · exact iff_of_true (hfolded.oneTranscript hs) hsafe
  · rw [heq, hsafe]
    exact ensureSessionData_iff hs sid
  · exact handleAgentEnd_iff hs sid

/-- A live event stays within its session. -/
theorem within_handleSessionEvent (sid : SessionId) (s : Store) (item : SessionEvent) :
    Within sid s (handleSessionEvent c sid s item) := by
  have hens := within_ensureSessionData sid s
  rcases handleSessionEvent_cases c sid s item with ⟨hfolded, -⟩ | ⟨heq, -⟩ | rfl
  · exact hfolded.1
  · rw [heq]
    exact hens
  · refine Within.trans ?_ ((handleAgentEnd_eq sid s).within sid)
    split
    · next hc => exact ⟨hens.current, fun hne => absurd hc hne, hens.data, hens.cached, hens.cache⟩
    · exact hens

/-! ## History windows -/

theorem within_foldl_handleSessionEvent (sid : SessionId) (items : List SessionEvent) (s : Store) :
    Within sid s (items.foldl (handleSessionEvent c sid) s) := by
  induction items generalizing s with
  | nil => exact .refl sid s
  | cons item items ih => exact (within_handleSessionEvent c sid s item).trans (ih _)

theorem folded_closeHistoryBuffer (sid open_ : SessionId) (s : Store) : Folded sid s (closeHistoryBuffer open_ s) :=
  .of_sameRows ⟨rfl, rfl, rfl, rfl, rfl⟩

theorem folded_applyHistoryBuffer (sid : SessionId) (s : Store) : Folded sid s (applyHistoryBuffer c sid s) := by
  unfold applyHistoryBuffer
  split
  · exact .refl sid s
  · exact .refl sid s
  · have hclosed := (folded_closeHistoryBuffer sid sid s).1
    exact ⟨(hclosed.trans (within_foldl_handleSessionEvent c sid _ _)).trans (within_writeSession c sid _ _),
      .inr ⟨_, uniform_writeSession c sid _ _⟩⟩

theorem folded_bufferHistoryEvent (sid : SessionId) (item : SessionEvent) (s : Store) :
    Folded sid s (bufferHistoryEvent c sid item s) := by
  have hbuffers : ∀ (t : Store) b, Folded sid t { t with historyBuffers := b } :=
    fun t b => .of_sameRows ⟨rfl, rfl, rfl, rfl, rfl⟩
  unfold bufferHistoryEvent
  simp only
  split
  · split
    · exact (hbuffers s _).trans (folded_applyHistoryBuffer c sid _)
    · exact ((hbuffers s _).trans (folded_applyHistoryBuffer c sid _)).trans (hbuffers _ _)
  · exact hbuffers s _

theorem folded_historySafety (sid : SessionId) (s : Store) : Folded sid s (historySafety c sid s) :=
  (folded_applyHistoryBuffer c sid s).trans (folded_closeHistoryBuffer sid sid _)

theorem oneTranscript_clearSessionMessages {s : Store} (hs : OneTranscript s) (sid : SessionId) :
    OneTranscript (clearSessionMessages sid s) := by
  refine ⟨hs.data, fun o ho ms hms => ?_, fun o ho e he => ?_⟩
  · by_cases h : o = sid
    · subst h
      simp [clearSessionMessages] at hms
    · exact hs.cached o ho ms ((put_other _ h _).symm.trans hms)
  · by_cases h : o = sid
    · subst h
      simp [clearSessionMessages] at he
    · exact hs.cache o ho e ((JsMap.get_delete_ne _ h).symm.trans he)

theorem oneTranscript_historyStart {s : Store} (hs : OneTranscript s) (sid : SessionId) : OneTranscript (historyStart c sid s) := by
  have hflush : ∀ (keys : List SessionId) (t : Store), OneTranscript t →
      OneTranscript (keys.foldl (fun s openSessionId =>
        closeHistoryBuffer openSessionId (if openSessionId ≠ sid then applyHistoryBuffer c openSessionId s else s)) t) := by
    intro keys
    induction keys with
    | nil => exact fun _ ht => ht
    | cons open_ keys ih =>
      intro t ht
      refine ih _ ((folded_closeHistoryBuffer open_ open_ _).oneTranscript ?_)
      split
      · exact (folded_applyHistoryBuffer c open_ t).oneTranscript ht
      · exact ht
  have hclear := oneTranscript_clearSessionMessages (hflush s.historyBuffers.keys s hs) sid
  refine Iff.mpr (SameRows.oneTranscript ?_) hclear
  exact ⟨rfl, rfl, rfl, rfl, rfl⟩

/-- The window has something to fold. -/
def HasBuffered (s : Store) (sid : SessionId) : Prop := ∃ item items, s.historyBuffers.get sid = some (item :: items)

theorem historyEnd_iff {s : Store} (hs : OneTranscript s) (sid : SessionId) :
    OneTranscript (historyEnd c sid s) ↔ FindsData s sid ∨ HasBuffered s sid := by
  have hsafe := folded_historySafety c sid s
  rw [historyEnd, ensureSessionData_iff (hsafe.oneTranscript hs)]
  rcases hb : s.historyBuffers.get sid with _ | (_ | ⟨item, items⟩)
  case none | some.nil =>
    have hsame : SameRows s (historySafety c sid s) := by
      simp only [historySafety, applyHistoryBuffer, hb]
      exact ⟨rfl, rfl, rfl, rfl, rfl⟩
    simp [FindsData, HasBuffered, hb, hsame.current, hsame.visible, hsame.data]
  case some.cons =>
    refine iff_of_true ?_ (.inr ⟨item, items, hb⟩)
    have hdata : (historySafety c sid s).sessionData sid =
        some (foldSessionEvents c.now (item :: items) ((s.sessionData sid).getD [])).messages := by
      simp only [historySafety, applyHistoryBuffer, hb, closeHistoryBuffer]
      exact put_same _ _ _
    exact fun _ => .inr ⟨_, hdata⟩

end

/-! ## Sessions -/

theorem current_not_evicted (size : ℕ) {current : SessionId} (ids : List SessionId) {evicted : List SessionId}
    (h : current ∉ evicted) : current ∉ toEvict size (some current) ids evicted := by
  induction ids generalizing evicted with
  | nil => exact h
  | cons id ids ih =>
    rw [toEvict]
    split
    · next hid =>
      refine ih ?_
      simp only [mem_append, mem_singleton, not_or]
      exact ⟨h, fun heq => hid.1 (by rw [heq])⟩
    · exact ih h

theorem get_foldl_delete {α : Type} (ids : List SessionId) (h : sid ∉ ids) (m : JsMap SessionId α) :
    (ids.foldl JsMap.delete m).get sid = m.get sid := by
  induction ids generalizing m with
  | nil => rfl
  | cons id ids ih =>
    simp only [mem_cons, not_or] at h
    rw [foldl_cons, ih h.2, JsMap.get_delete_ne _ h.1]

/-- The current session is never evicted. -/
theorem evictIfNeeded_current (hc : s.currentSessionId = some sid) :
    (evictIfNeeded s).currentSessionId = s.currentSessionId ∧ (evictIfNeeded s).messages = s.messages ∧
      (evictIfNeeded s).sessionData = s.sessionData ∧ (evictIfNeeded s).sessionMessages sid = s.sessionMessages sid ∧
      (evictIfNeeded s).sessionCache.get sid = s.sessionCache.get sid := by
  unfold evictIfNeeded
  split
  · exact ⟨rfl, rfl, rfl, rfl, rfl⟩
  · rw [hc]
    have hnot := current_not_evicted s.sessionCache.size
      ((s.sessionCache.entries.mergeSort (fun a b => a.2.lastAccess ≤ b.2.lastAccess)).map (·.1)) (not_mem_nil (a := sid))
    exact ⟨rfl, rfl, rfl, if_neg hnot, get_foldl_delete _ hnot _⟩

theorem oneTranscript_of_none (h : s.currentSessionId = none) : OneTranscript s := by
  constructor <;> intro sid hsid <;> rw [h] at hsid <;> cases hsid

theorem evictIfNeeded_iff (s : Store) : OneTranscript (evictIfNeeded s) ↔ OneTranscript s := by
  cases hc : s.currentSessionId with
  | none =>
    have hcur : (evictIfNeeded s).currentSessionId = none := by
      unfold evictIfNeeded
      split <;> exact hc
    constructor <;> intro _
    · exact oneTranscript_of_none hc
    · exact oneTranscript_of_none hcur
  | some sid =>
    obtain ⟨h1, h2, h3, h4, h5⟩ := evictIfNeeded_current hc
    constructor
    · rintro ⟨d, m, k⟩
      rw [h1, h2] at d m k
      rw [h3] at d
      refine ⟨d, fun o ho => ?_, fun o ho => ?_⟩
      · obtain rfl := some.inj (hc.symm.trans ho)
        rw [← h4]
        exact m sid ho
      · obtain rfl := some.inj (hc.symm.trans ho)
        rw [← h5]
        exact k sid ho
    · rintro ⟨d, m, k⟩
      constructor <;> rw [h1, h2]
      · rw [h3]
        exact d
      · intro o ho
        obtain rfl := some.inj (hc.symm.trans ho)
        rw [h4]
        exact m sid ho
      · intro o ho
        obtain rfl := some.inj (hc.symm.trans ho)
        rw [h5]
        exact k sid ho

/-- What there is for the session is this list. -/
def NothingElse (rows : Option (List Message)) (ms : List Message) : Prop := rows = none ∨ rows = some ms

/-- A state whose current session is `sid` agrees when what exists for it does. -/
theorem oneTranscript_current (hc : s.currentSessionId = some sid)
    (hcache : ∀ e, s.sessionCache.get sid = some e → e.messages = s.messages) :
    OneTranscript s ↔ NothingElse (s.sessionData sid) s.messages ∧ NothingElse (s.sessionMessages sid) s.messages := by
  constructor
  · rintro ⟨d, m, -⟩
    constructor
    · cases hd : s.sessionData sid with
      | none => exact .inl rfl
      | some ms => exact .inr (congrArg some (d sid hc ms hd))
    · cases hm : s.sessionMessages sid with
      | none => exact .inl rfl
      | some ms => exact .inr (congrArg some (m sid hc ms hm))
  · rintro ⟨hd, hm⟩
    refine ⟨fun o ho ms hms => ?_, fun o ho ms hms => ?_, fun o ho e he => ?_⟩
    · obtain rfl := some.inj (hc.symm.trans ho)
      rcases hd with hd | hd <;> rw [hd] at hms
      · cases hms
      · exact (some.inj hms).symm
    · obtain rfl := some.inj (hc.symm.trans ho)
      rcases hm with hm | hm <;> rw [hm] at hms
      · cases hms
      · exact (some.inj hms).symm
    · obtain rfl := some.inj (hc.symm.trans ho)
      exact hcache e he

theorem sessionCreated_iff (sid : SessionId) (s : Store) :
    OneTranscript (sessionCreated sid s) ↔ NothingElse (s.sessionData sid) [] := by
  rw [oneTranscript_current (show _ = some sid from rfl) (by simp [sessionCreated, clearSessionMessages])]
  simp [sessionCreated, clearSessionMessages, NothingElse]

section

variable (c : Clock)

theorem saveCurrent_sessionData (s : Store) : (saveCurrent c s).sessionData = s.sessionData := by
  unfold saveCurrent
  split
  · split <;> rfl
  · rfl

theorem sessionSwitched_iff (sid : SessionId) (messages : List Message) (s : Store) :
    OneTranscript (sessionSwitched c sid messages s) ↔ NothingElse (s.sessionData sid) (messages.map clientMessage) := by
  rw [sessionSwitched, evictIfNeeded_iff, oneTranscript_current (show _ = some sid from rfl)]
  · simp [NothingElse, saveCurrent_sessionData]
  · intro e he
    simp only [JsMap.get_set_same, some.injEq] at he
    rw [← he]

theorem setCurrentSession_iff (sid : SessionId) (s : Store) : OneTranscript (setCurrentSession c (some sid) s) ↔
      NothingElse (s.sessionData sid) (cachedMessages (saveCurrent c s) sid) ∧
        NothingElse ((saveCurrent c s).sessionMessages sid) (cachedMessages (saveCurrent c s) sid) := by
  rw [setCurrentSession, evictIfNeeded_iff, oneTranscript_current (show _ = some sid from rfl)]
  · simp only [saveCurrent_sessionData]
  · intro e he
    simp only [JsMap.get_set_same, some.injEq] at he
    rw [← he]

theorem oneTranscript_writeCurrent {s : Store} {sid : SessionId} (hc : s.currentSessionId = some sid) (ms : List Message) :
    OneTranscript (writeCurrent c sid ms s) := by
  refine (oneTranscript_current (s := writeCurrent c sid ms s) hc ?_).mpr ⟨?_, .inr (put_same _ _ _)⟩
  · intro e he
    simp only [writeCurrent, JsMap.get_set_same, some.injEq] at he
    rw [← he]
    rfl
  · simp only [writeCurrent, NothingElse]
    cases hd : s.sessionData sid with
    | none => exact .inl (by simp [hd])
    | some old => exact .inr (by simp)

end

/-! ## Runs -/

/-- What a step must meet. A session that becomes current must have no other rows in its data;
    a status event of the current session must find its data, and `agent_end` no open tool.
    A window's events are free. -/
def Safe (s : Store) (a : Clock × Action) : Prop :=
  match a.2 with
  | .sessionCreated sid => NothingElse (s.sessionData sid) []
  | .sessionSwitched sid messages => NothingElse (s.sessionData sid) (messages.map clientMessage)
  | .sessionEvent sid item => s.historyBuffers.has sid ∨ EventSafe s sid item
  | .historyEnd sid => FindsData s sid ∨ HasBuffered s sid
  | .setCurrentSession (some sid) =>
    NothingElse (s.sessionData sid) (cachedMessages (saveCurrent a.1 s) sid) ∧
      NothingElse ((saveCurrent a.1 s).sessionMessages sid) (cachedMessages (saveCurrent a.1 s) sid)
  | _ => True

theorem step_iff (hs : OneTranscript s) (a : Clock × Action) : OneTranscript (step s a) ↔ Safe s a := by
  obtain ⟨c, a⟩ := a
  cases a with
  | sessionCreated sid => exact sessionCreated_iff sid s
  | sessionSwitched sid messages => exact sessionSwitched_iff c sid messages s
  | sessionEvent sid item =>
    simp only [step, Safe, sessionEvent]
    cases hb : s.historyBuffers.has sid with
    | true =>
      rw [if_pos rfl]
      exact iff_of_true ((folded_bufferHistoryEvent c sid item s).oneTranscript hs) (.inl rfl)
    | false =>
      rw [if_neg (by decide), handleSessionEvent_iff c hs]
      exact ⟨.inr, fun h => h.resolve_left (by decide)⟩
  | historyStart sid => exact iff_of_true (oneTranscript_historyStart c hs sid) trivial
  | historyEnd sid => exact historyEnd_iff c hs sid
  | historySafety sid => exact iff_of_true ((folded_historySafety c sid s).oneTranscript hs) trivial
  | addMessage message =>
    refine iff_of_true ?_ trivial
    simp only [step, addMessage]
    split
    · next sid hc => exact oneTranscript_writeCurrent c hc _
    · next hc => exact oneTranscript_of_none hc
  | updateMessage id updates =>
    refine iff_of_true ?_ trivial
    simp only [step, updateMessage]
    split
    · exact hs
    · split
      · next sid hc => exact oneTranscript_writeCurrent c hc _
      · next hc => exact oneTranscript_of_none hc
  | setCurrentSession sessionId =>
    cases sessionId with
    | some sid => exact setCurrentSession_iff c sid s
    | none =>
      refine iff_of_true ?_ trivial
      simp only [step, setCurrentSession]
      exact (evictIfNeeded_iff _).mpr (oneTranscript_of_none rfl)
  | evictIfNeeded => exact iff_of_true ((evictIfNeeded_iff s).mpr hs) trivial

/-- The delta is appended to one of these rows, or changes none. -/
def AppendsTo (e : Option AssistantEvent) (ms ms' : List Message) : Prop :=
  ms' = ms ∨ ∃ messageId m content, ms.find? (·.id = messageId) = some m ∧ e.bind (appendDelta m.content) = some content ∧
    ms' = ms.map fun row => if row.id = messageId then { m with content } else row

theorem apply_content (m : Message) (content : Content) : ({ content := some content } : Updates).apply m = { m with content } := by
  simp [Updates.apply]

theorem delta_appended (hs : OneTranscript s) (hc : s.currentSessionId = some sid) (c : Clock)
    (id : Option JsString) (e : Option AssistantEvent) : AppendsTo e s.messages (handleMessageUpdate c sid id e s).messages := by
  unfold handleMessageUpdate
  cases updateTarget (s.tracked sid) id with
  | none => exact .inl rfl
  | some messageId =>
    simp only
    cases hd : s.sessionData sid with
    | none => exact .inl rfl
    | some existing =>
      have hv := hs.data sid hc existing hd
      subst hv
      rw [getD_some]
      cases hm : s.messages.find? (·.id = messageId) with
      | none => exact .inl rfl
      | some m =>
        simp only
        cases hcontent : e.bind (appendDelta m.content) with
        | none => exact .inl rfl
        | some content =>
          refine .inr ⟨messageId, m, content, hm, hcontent, ?_⟩
          simp only [updateMessageInSession, hd, ite_self, replaceById, hm, map_some, apply_content, writeSession, hc, if_true]

/-- A session's message arrives live, is sent again in a switch with newer text, and grows. -/
def switchedRun : List (Clock × Action) :=
  let row (text : String) : Message := { id := js "m", role := some assistantRole, content := .text (js text), timestamp := 1 }
  [({ now := 1 }, .sessionEvent (js "s")
      (.event (.messageStart { id := some (js "m"), role := some assistantRole, content := some (.text (js "old")) }))),
    ({ now := 2 }, .sessionSwitched (js "s") [row "newer"]),
    ({ now := 3 }, .sessionEvent (js "s") (.event (.messageUpdate (some (js "m")) (some ⟨.textDelta, some (js "!")⟩))))]

end PiWebUi.Transcript
