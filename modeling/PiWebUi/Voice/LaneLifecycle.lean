/-
  PiWebUi.Voice.LaneLifecycle — a lane has one bridge, and none once it is stopped.

  In every run whose steps are `careful` the bridge that is not closed is the one recorded
  for its lane, a lane that was stopped or disposed of is 'stopped' and has no bridge, what
  a bridge says that the lane has let go of changes neither the lane nor its transcripts,
  and nothing is opened after `dispose()` (`lane_lifecycle`).
-/

import PiWebUi.Lib.Run
import PiWebUi.Voice.Lanes

namespace PiWebUi.Voice

open Lib List Option

/-- A transcript is emitted. -/
def Entry.isTranscript : Entry → Bool
  | .delta _ _ _ _ | .final _ _ _ _ => true
  | .boundary _ _ => false

namespace LaneRecord

/-- What the lane shows and sends: its state, its transcripts and its context. -/
def view (lane : LaneRecord) :=
  (lane.state, lane.operatorPartial, lane.talkerPartial, lane.pendingContextText, lane.lastContextText, lane.readingLevelNotice, lane.contextTimer,
    lane.lastContextSentAtMs, lane.pendingReplays)

/-- No context waits to be sent. -/
def nothingPending (lane : LaneRecord) : Bool := !lane.pendingContextText.any (· ≠ [])

/-- The stall watch has nothing to clear. -/
def unwatched (lane : LaneRecord) : Bool :=
  lane.pendingReplays = [] || lane.awaitingModelSinceMs = none && lane.unansweredUtterances = [] && !lane.stallReminted

/-- The callback finds nothing to change; `mapped` when the record is the lane's. -/
def ignores (lane : LaneRecord) (mapped : Bool) : Callback → Bool
  | .onState state _ => !mapped || lane.state = .stopped || state = .stopped ||
      lane.state = state && (state ≠ .live || lane.nothingPending && lane.pendingReplays = [])
  | .onSetupComplete | .onGoAway _ | .onResumptionHandle _ _ => true
  | .onReconnected => !mapped || lane.nothingPending || lane.state ≠ .live || lane.bridge.isNone
  | .onAudioPcm _ _ | .onToolCall _ _ => !mapped || lane.unwatched
  | .onInputTranscription _ | .onOutputTranscription _ => false
  | .onTurnComplete => lane.silent && (!mapped || lane.unwatched)
  | .onInterrupted => lane.silent
  | .onError _ _ fatal => !mapped || !fatal || lane.state = .error

end LaneRecord

namespace VoiceSessionService

variable (c : ℤ)

/-- The record is the one of its lane. -/
def isMapped (s : VoiceSessionService) (record : ℕ) : Bool := s.lanes.get (s.records record).laneId = some record

/-- The lane that is opened when it goes on. -/
def opener (records : ℕ → LaneRecord) : Continuation → Option JsString
  | .switch laneId _ => some laneId
  | .reopen record _ => some (records record).laneId
  | .replay _ _ | .disposing _ => none

/-- The lanes that are about to be opened. -/
def openers (s : VoiceSessionService) : List JsString := s.continuations.filterMap (opener s.records)

/-- The condition of `lane_lifecycle`. -/
def careful (s : VoiceSessionService) : VoiceEvent → Bool
  | .start laneId attachmentGeneration =>
    s.disposed || s.openers.all (· ≠ laneId) && (s.lanes.get laneId).all fun record =>
      let lane := s.records record
      lane.attachmentGeneration ≠ attachmentGeneration || !reopens lane || lane.bridge.isNone
  | .stop laneId => s.openers.all (· ≠ laneId)
  | .dispose => s.disposed || s.openers.isEmpty
  | .connected b ok => ok || (s.bridges b).connect ≠ .pending || s.isCurrent b || !s.isMapped (s.bridges b).record
  | .callback b callback _ _ =>
    s.nextBridge ≤ b || s.isCurrent b || (s.records (s.bridges b).record).ignores (s.isMapped (s.bridges b).record) callback
  | _ => true

/-! ## What is asked of a state and of a step -/

/-- The lane is stopped and has no bridge. -/
def IsDown (s : VoiceSessionService) (laneId : JsString) : Prop :=
  ∀ record, s.lanes.get laneId = some record → (s.records record).state = .stopped ∧ (s.records record).bridge = none

/-- The lane the bridge was made for. -/
def laneOf (s : VoiceSessionService) (b : ℕ) : JsString := (s.records (s.bridges b).record).laneId

structure Orderly (s : VoiceSessionService) : Prop where
  /-- A bridge that is not closed is the one recorded for its lane. -/
  single : ∀ b < s.nextBridge, (s.bridges b).closed = false →
    ∃ record, s.lanes.get (s.laneOf b) = some record ∧ (s.records record).bridge = some b
  stopped : ∀ laneId ∈ s.stopped, s.IsDown laneId ∧ ∀ b < s.nextBridge, s.laneOf b = laneId → (s.bridges b).closed = true
  disposed : s.disposeResolved = true → (∀ laneId, s.IsDown laneId) ∧ ∀ b < s.nextBridge, (s.bridges b).closed = true

/-- A callback of a bridge that is no longer its lane's. -/
def Undisturbed (s : VoiceSessionService) (e : VoiceEvent) (s' : VoiceSessionService) : Prop :=
  ∀ b callback now sent, e = .callback b callback now sent → b < s.nextBridge → s.lanes.get (s.laneOf b) ≠ some (s.bridges b).record ∨ s.isCurrent b = false →
    s'.log.filter Entry.isTranscript = s.log.filter Entry.isTranscript ∧
      ∀ record, s.lanes.get (s.laneOf b) = some record → (s'.records record).view = (s.records record).view

def Sound (s : VoiceSessionService) (e : VoiceEvent) : Prop :=
  Orderly (step c s e) ∧ Undisturbed s e (step c s e) ∧ (s.disposed = true → (step c s e).nextBridge = s.nextBridge)

/-! ## The invariant -/

/-- What a continuation finds when it goes on. -/
def Waits (s : VoiceSessionService) : Continuation → Prop
  | .switch laneId _ => laneId ∉ s.stopped ∧ s.disposed = false ∧ s.IsDown laneId
  | .reopen record _ => (s.records record).laneId ∉ s.stopped ∧ s.disposed = false ∧ s.IsDown (s.records record).laneId ∧
      s.lanes.get (s.records record).laneId = some record
  | .replay _ _ => True
  | .disposing visited => s.disposed = true ∧ ∀ record ∈ visited, s.IsDown (s.records record).laneId

structure Inv (s : VoiceSessionService) : Prop extends Lanes s where
  owner : ∀ {r b}, (s.records r).bridge = some b → s.lanes.get (s.records r).laneId = some r
  unclosed : ∀ {b}, b < s.nextBridge → (s.bridges b).closed = false → (s.records (s.bridges b).record).bridge = some b
  waits : ∀ k ∈ s.continuations, Waits s k
  unique : s.openers.Nodup
  stopped : ∀ l ∈ s.stopped, s.IsDown l
  resolved : s.disposeResolved = true → s.disposed = true ∧ ∀ l, s.IsDown l

theorem inv_new : Inv new where
  toLanes := lanes_new
  owner := nofun
  unclosed := fun h => absurd h (Nat.not_lt_zero _)
  waits := nofun
  unique := nodup_nil
  stopped := nofun
  resolved := nofun

variable {s : VoiceSessionService} {f : LaneRecord → LaneRecord}

theorem orderly_of_inv (hi : Inv s) : Orderly s := by
  have hrecorded : ∀ b < s.nextBridge, (s.bridges b).closed = false →
      ∃ record, s.lanes.get (s.laneOf b) = some record ∧ (s.records record).bridge = some b := by
    intro b hb hclosed
    have hbridge := hi.unclosed hb hclosed
    exact ⟨(s.bridges b).record, hi.owner hbridge, hbridge⟩
  have hclosed : ∀ {l}, s.IsDown l → ∀ b < s.nextBridge, s.laneOf b = l → (s.bridges b).closed = true := by
    intro l hdown b hb hl
    by_contra hopen
    obtain ⟨record, hget, hbridge⟩ := hrecorded b hb (Bool.eq_false_iff.mpr hopen)
    cases (hdown record (hl ▸ hget)).2.symm.trans hbridge
  exact ⟨hrecorded, fun l hl => ⟨hi.stopped l hl, hclosed (hi.stopped l hl)⟩,
    fun hresolved => ⟨(hi.resolved hresolved).2, fun b hb => hclosed ((hi.resolved hresolved).2 _) b hb rfl⟩⟩

/-- No lane is opened or closed, and one that is down stays down. -/
structure Steady (s s' : VoiceSessionService) : Prop where
  lanes : s'.lanes = s.lanes
  nextBridge : s'.nextBridge = s.nextBridge
  nextRecord : s'.nextRecord = s.nextRecord
  bridges : ∀ b, (s'.bridges b).record = (s.bridges b).record ∧ (s'.bridges b).closed = (s.bridges b).closed
  records : ∀ r, (s'.records r).laneId = (s.records r).laneId ∧ (s'.records r).bridge = (s.records r).bridge
  down : ∀ {l}, s.IsDown l → s'.IsDown l
  openers : s'.openers.Sublist s.openers
  continuations : ∀ k ∈ s'.continuations, k ∈ s.continuations ∨ ∃ record toReplay, k = .replay record toReplay
  stopped : ∀ l ∈ s'.stopped, l ∈ s.stopped
  disposed : s'.disposed = s.disposed
  disposeResolved : s'.disposeResolved = s.disposeResolved

theorem Steady.refl (s : VoiceSessionService) : Steady s s :=
  ⟨rfl, rfl, rfl, fun _ => ⟨rfl, rfl⟩, fun _ => ⟨rfl, rfl⟩, id, .refl _, fun _ h => .inl h, fun _ h => h, rfl, rfl⟩

theorem inv_steady {s' : VoiceSessionService} (hi : Inv s) (h : Steady s s') : Inv s' := by
  have hkept : Kept s s' := by
    refine ⟨h.lanes, h.nextBridge, h.nextRecord, fun b => (h.bridges b).1, fun r => (h.records r).1, fun r => .inl (h.records r).2, fun hmem => ?_⟩
    rcases h.continuations _ hmem with hmem | ⟨_, _, hreplay⟩
    · exact .inl hmem
    · cases hreplay
  refine ⟨lanes_kept hi.toLanes hkept, fun {r b} hb => ?_, fun {b} hb hclosed => ?_, fun k hk => ?_, hi.unique.sublist h.openers, fun l hl => ?_,
    fun hresolved => ?_⟩
  · rw [(h.records r).2] at hb
    rw [(h.records r).1, h.lanes]
    exact hi.owner hb
  · rw [h.nextBridge] at hb
    rw [(h.bridges b).2] at hclosed
    rw [(h.bridges b).1, (h.records _).2]
    exact hi.unclosed hb hclosed
  · rcases h.continuations k hk with hmem | ⟨_, _, rfl⟩
    · have hw := hi.waits k hmem
      cases k with
      | switch laneId _ => exact ⟨fun hl => hw.1 (h.stopped _ hl), h.disposed ▸ hw.2.1, h.down hw.2.2⟩
      | reopen record _ =>
        simp only [Waits, (h.records record).1, h.disposed, h.lanes]
        exact ⟨fun hl => hw.1 (h.stopped _ hl), hw.2.1, h.down hw.2.2.1, hw.2.2.2⟩
      | replay _ _ => trivial
      | disposing visited => exact ⟨h.disposed ▸ hw.1, fun record hr => (h.records record).1 ▸ h.down (hw.2 record hr)⟩
    · trivial
  · exact h.down (hi.stopped l (h.stopped l hl))
  · rw [h.disposeResolved] at hresolved
    rw [h.disposed]
    exact ⟨(hi.resolved hresolved).1, fun l => h.down ((hi.resolved hresolved).2 l)⟩

/-! ## The steady operations -/

theorem opener_congr {records records' : ℕ → LaneRecord} (h : ∀ r, (records' r).laneId = (records r).laneId) : opener records' = opener records := by
  funext k
  cases k <;> simp [opener, h]

theorem laneId_modify {record : ℕ} (h : (f (s.records record)).laneId = (s.records record).laneId) (r : ℕ) :
    ((s.modifyRecord record f).records r).laneId = (s.records r).laneId := by
  simp only [modifyRecord, setRecord, Function.update_apply]
  split
  · subst r
    exact h
  · rfl

theorem steady_modify (s : VoiceSessionService) {record : ℕ}
    (hlane : (f (s.records record)).laneId = (s.records record).laneId) (hbridge : (f (s.records record)).bridge = (s.records record).bridge)
    (hdown : s.isMapped record = true → (s.records record).state = .stopped → (s.records record).bridge = none → (f (s.records record)).state = .stopped)
    (hmapped : ∀ {l}, s.lanes.get l = some record → (s.records record).laneId = l) : Steady s (s.modifyRecord record f) := by
  refine ⟨rfl, rfl, rfl, fun _ => ⟨rfl, rfl⟩, fun r => ⟨laneId_modify hlane r, bridge_modify hbridge r⟩, fun {l} hl r hget => ?_, ?_, fun _ h => .inl h,
    fun _ h => h, rfl, rfl⟩
  · obtain ⟨hstate, hnone⟩ := hl r hget
    refine ⟨?_, (bridge_modify hbridge r).trans hnone⟩
    simp only [modifyRecord, setRecord, Function.update_apply]
    split
    · subst r
      have hrecord : s.isMapped record = true := decide_eq_true (hmapped hget ▸ hget)
      exact hdown hrecord hstate hnone
    · exact hstate
  · show (s.continuations.filterMap (opener (s.modifyRecord record f).records)).Sublist _
    rw [opener_congr (laneId_modify hlane)]
    exact .refl _

theorem steady_core (hi : Inv s) {record : ℕ}
    (h : (f (s.records record)).core = (s.records record).core) : Steady s (s.modifyRecord record f) := by
  obtain ⟨hlane, hstate, hbridge, _⟩ := LaneRecord.core_eq h
  exact steady_modify s hlane hbridge (fun _ hstopped _ => hstate.trans hstopped) fun hget => (hi.mapped hget).1

theorem steady_replay (hi : Inv s) (record : ℕ) (toReplay : List JsString) : Steady s (s.replay record toReplay) := by
  unfold replay
  split
  · exact .refl s
  · exact steady_core hi (LaneRecord.core_flushPendingReplays _)

theorem inv_connected (hi : Inv s) {b : ℕ} {ok : Bool} (hc : s.careful (.connected b ok) = true) : Inv (s.connected b ok) := by
  have hsettled : ∀ connect, Steady s { s with
      bridges := Function.update s.bridges b { s.bridges b with connect }
      continuations := s.continuations ++ (s.bridges b).replays.elim [] fun toReplay => [.replay (s.bridges b).record toReplay] } := by
    intro connect
    have hnone : ((s.bridges b).replays.elim [] fun toReplay => [.replay (s.bridges b).record toReplay]).filterMap (opener s.records) = [] := by
      cases (s.bridges b).replays <;> rfl
    refine ⟨rfl, rfl, rfl, fun b' => ?_, fun _ => ⟨rfl, rfl⟩, id, ?_, fun k hk => ?_, fun _ h => h, rfl, rfl⟩
    · by_cases h : b' = b
      · subst h
        simp
      · simp [h]
    · simp only [openers, filterMap_append, hnone, append_nil]
      exact .refl _
    · rcases mem_append.mp hk with hk | hk
      · exact .inl hk
      · cases hreplays : (s.bridges b).replays with
        | none => simp [hreplays] at hk
        | some toReplay =>
          rw [hreplays] at hk
          exact .inr ⟨_, _, mem_singleton.mp hk⟩
  simp only [connected]
  split
  · exact hi
  · rename_i hpending
    split
    · exact inv_steady hi (hsettled _)
    · rename_i hrejected
      have hi' := inv_steady hi (hsettled .rejected)
      refine inv_steady hi' (steady_modify _ rfl rfl (fun hmapped hstate hnone => ?_) fun hget => (hi'.mapped hget).1)
      -- a lane that is down has let go of the bridge
      change s.isMapped (s.bridges b).record = true at hmapped
      simp only [careful, hrejected, hpending, Bool.false_or, decide_false, hmapped, Bool.not_true, Bool.or_false] at hc
      cases (of_decide_eq_true hc).symm.trans hnone

/-! ## The callbacks -/

theorem Steady.logged {s' : VoiceSessionService} (h : Steady s s') {log : List Entry} : Steady s { s' with log } :=
  ⟨h.lanes, h.nextBridge, h.nextRecord, h.bridges, h.records, h.down, h.openers, h.continuations, h.stopped, h.disposed, h.disposeResolved⟩

theorem steady_addTranscript (hi : Inv s) (record b : ℕ) (speaker : Speaker) (text : JsString) :
    Steady s (s.addTranscript record b speaker text) := by
  refine Steady.logged (steady_modify s ?_ (LaneRecord.bridge_addPartial _ _ _) (fun _ hstate _ => ?_) fun hget => (hi.mapped hget).1)
  · cases speaker <;> rfl
  · cases speaker <;> exact hstate

theorem steady_flushFinalTranscripts (hi : Inv s) (record : ℕ) (bridge : Option ℕ) :
    Steady s (s.flushFinalTranscripts record bridge) :=
  Steady.logged (steady_modify s rfl rfl (fun _ hstate _ => hstate) fun hget => (hi.mapped hget).1)

theorem inv_callback (hi : Inv s) {b : ℕ} (hb : b < s.nextBridge) {callback : Callback} {now : ℤ} {sent : Bool}
    (hc : s.careful (.callback b callback now sent) = true) : Inv (s.callback c b now sent callback) := by
  have hmapped : ∀ {l}, s.lanes.get l = some (s.bridges b).record → (s.records (s.bridges b).record).laneId = l := fun hget => (hi.mapped hget).1
  have hengaged : Inv (s.modifyRecord (s.bridges b).record (·.noteModelEngaged now)) :=
    inv_steady hi (steady_core hi (LaneRecord.core_noteModelEngaged _ now))
  cases callback with
  | onState state _ =>
    obtain ⟨hlane, hbridge, _⟩ := onState_fields c (s.records (s.bridges b).record) state now sent
    show Inv (s.modifyRecord (s.bridges b).record (onState c · state now sent))
    refine inv_steady hi (steady_modify s hlane hbridge (fun _ hstopped _ => ?_) hmapped)
    simp [onState, hstopped]
  | onSetupComplete | onGoAway _ => exact hi
  | onReconnected =>
    show Inv (s.modifyRecord (s.bridges b).record (·.flushContext c true now sent))
    exact inv_steady hi (steady_core hi (LaneRecord.core_flushContext _ _ _ _ _))
  | onAudioPcm _ _ | onToolCall _ _ => exact hengaged
  | onInputTranscription text => exact inv_steady hi (steady_addTranscript hi _ b .operator text)
  | onOutputTranscription text => exact inv_steady hengaged (steady_addTranscript hengaged _ b .talker text)
  | onTurnComplete => exact inv_steady hengaged (steady_flushFinalTranscripts hengaged _ (some b))
  | onInterrupted => exact inv_steady hi (steady_flushFinalTranscripts hi _ (some b))
  | onResumptionHandle handle _ =>
    show Inv (s.modifyRecord (s.bridges b).record fun lane => { lane with resumptionHandle := some handle })
    exact inv_steady hi (steady_core hi rfl)
  | onError _ _ fatal =>
    cases fatal with
    | false => exact hi
    | true =>
      show Inv (s.modifyRecord (s.bridges b).record fun lane => { lane with state := .error })
      refine inv_steady hi (steady_modify s rfl rfl (fun hrecord hstopped hnone => ?_) hmapped)
      simp only [careful, isCurrent, LaneRecord.ignores, hrecord, hstopped, hnone, Bool.not_true, Bool.or_false, reduceCtorEq, decide_false,
        decide_eq_true_eq] at hc
      omega

end VoiceSessionService

/-! ## Callbacks that find nothing to change -/

namespace LaneRecord

variable {lane : LaneRecord}

theorem flushContext_of_nothingPending (c : ℤ) (h : lane.nothingPending = true ∨ lane.state ≠ .live) (force : Bool) (now : ℤ) (sent : Bool) :
    lane.flushContext c force now sent = lane := by
  have hskip : (lane.nothingPending || decide (lane.state ≠ .live)) = true := by
    rcases h with hnone | hdown
    · rw [hnone, Bool.true_or]
    · rw [decide_eq_true hdown, Bool.or_true]
  unfold flushContext
  exact if_pos hskip

theorem view_flushContext (c : ℤ) (h : lane.ignores true .onReconnected = true) (now : ℤ) (sent : Bool) :
    (lane.flushContext c true now sent).view = lane.view := by
  by_cases hpending : lane.nothingPending = true ∨ lane.state ≠ .live
  · rw [flushContext_of_nothingPending c hpending]
  · obtain ⟨hsome, hlive⟩ := not_or.mp hpending
    have hbridge : lane.bridge = none := by
      simpa [ignores, Bool.eq_false_iff.mpr hsome, not_not.mp hlive] using h
    have hsend : lane.sendContext now sent = lane := by
      unfold sendContext
      split
      · rfl
      · simp [hbridge]
    simp only [flushContext, hsend]
    split
    · rfl
    · simp

theorem view_noteModelEngaged (h : lane.unwatched = true) (now : ℤ) : (lane.noteModelEngaged now).view = lane.view := by
  simp only [noteModelEngaged]
  split
  · rfl
  · rename_i hwatch
    simp only [unwatched, Bool.or_eq_true, hwatch, decide_eq_true_eq] at h
    rcases h with hreplays | hfalse
    · simp [view, hreplays]
    · exact absurd hfalse (by simp)

theorem view_onState (c : ℤ) {state : VoiceWireState} {detail : Option JsString} (h : lane.ignores true (.onState state detail) = true)
    (now : ℤ) (sent : Bool) : (VoiceSessionService.onState c lane state now sent).view = lane.view := by
  simp only [VoiceSessionService.onState]
  split
  · rfl
  · rename_i hup
    obtain ⟨hstopped, hstate⟩ := not_or.mp (by simpa using hup)
    simp only [ignores, Bool.not_true, Bool.false_or, hstopped, hstate, decide_false, Bool.and_eq_true, decide_eq_true_eq, Bool.or_eq_true, ne_eq] at h
    obtain ⟨hsame, hrest⟩ := h
    have hlane : ({ lane with state } : LaneRecord) = lane := by rw [← hsame]
    rw [hlane]
    split
    · rename_i hlive
      obtain ⟨hnone, hreplays⟩ := hrest.resolve_left fun hnot => absurd hlive (by simpa using hnot)
      rw [flushContext_of_nothingPending c (.inl hnone), flushPendingReplays]
      split
      · rfl
      · simp [view, hreplays]
    · rfl

end LaneRecord

namespace VoiceSessionService

variable (c : ℤ)

variable {s : VoiceSessionService} {l : JsString} {record : ℕ}

theorem view_modify {f : LaneRecord → LaneRecord}
    (h : s.isMapped record = true → (f (s.records record)).view = (s.records record).view) {r : ℕ} (hget : s.lanes.get (s.records record).laneId = some r) :
    ((s.modifyRecord record f).records r).view = (s.records r).view := by
  simp only [modifyRecord, setRecord, Function.update_apply]
  split
  · subst r
    exact h (decide_eq_true hget)
  · rfl

theorem finals_of_silent {lane : LaneRecord} (h : lane.silent = true) (record : ℕ) : finals record lane = [] := by
  simp only [LaneRecord.silent, Bool.and_eq_true, decide_eq_true_eq] at h
  simp [finals, h.1, h.2]

theorem undisturbed_flush {record b : ℕ} (h : (s.records record).silent = true) :
    (s.flushFinalTranscripts record (some b)).log.filter Entry.isTranscript = s.log.filter Entry.isTranscript ∧
      ∀ r, ((s.flushFinalTranscripts record (some b)).records r).view = (s.records r).view := by
  refine ⟨?_, fun r => ?_⟩
  · simp [flushFinalTranscripts, finals_of_silent h, Entry.isTranscript]
  · simp only [LaneRecord.silent, Bool.and_eq_true, decide_eq_true_eq] at h
    simp only [flushFinalTranscripts, modifyRecord, setRecord, Function.update_apply]
    split
    · subst r
      simp [LaneRecord.view, h.1, h.2]
    · rfl

theorem undisturbed_callback (hi : Inv s) {e : VoiceEvent} (hc : s.careful e = true) : Undisturbed s e (step c s e) := by
  rintro b callback now sent rfl hb hstale
  have hstep : step c s (.callback b callback now sent) = s.callback c b now sent callback := if_pos hb
  rw [hstep]
  -- a bridge that is recorded is its lane's
  have hold : s.isCurrent b = false := by
    rcases hstale with hunmapped | hold
    · by_contra hcurrent
      exact hunmapped (hi.owner (of_decide_eq_true ((Bool.not_eq_false _).mp hcurrent)))
    · exact hold
  have hignores : (s.records (s.bridges b).record).ignores (s.isMapped (s.bridges b).record) callback = true := by
    simpa [careful, Nat.not_le.mpr hb, hold] using hc
  have hview : ∀ f : LaneRecord → LaneRecord, (s.isMapped (s.bridges b).record = true →
      (f (s.records (s.bridges b).record)).view = (s.records (s.bridges b).record).view) →
      ∀ record, s.lanes.get (s.laneOf b) = some record → ((s.modifyRecord (s.bridges b).record f).records record).view = (s.records record).view :=
    fun _ h _ hget => view_modify h hget
  have hengaged : ∀ mapped, (!mapped || (s.records (s.bridges b).record).unwatched) = true → mapped = true →
      ((s.records (s.bridges b).record).noteModelEngaged now).view = (s.records (s.bridges b).record).view := by
    intro mapped h hmapped
    refine LaneRecord.view_noteModelEngaged ?_ now
    simpa [hmapped] using h
  cases callback with
  | onState state detail =>
    refine ⟨rfl, hview (onState c · state now sent) fun hmapped => ?_⟩
    rw [hmapped] at hignores
    exact LaneRecord.view_onState c hignores now sent
  | onSetupComplete | onGoAway _ => exact ⟨rfl, fun _ _ => rfl⟩
  | onReconnected =>
    refine ⟨rfl, hview (·.flushContext c true now sent) fun hmapped => ?_⟩
    rw [hmapped] at hignores
    exact LaneRecord.view_flushContext c hignores now sent
  | onAudioPcm _ _ | onToolCall _ _ => exact ⟨rfl, hview (·.noteModelEngaged now) (hengaged _ hignores)⟩
  | onInputTranscription text | onOutputTranscription text => cases hignores
  | onTurnComplete =>
    obtain ⟨hsilent, hwatch⟩ := (Bool.and_eq_true _ _).mp hignores
    have hcore := (LaneRecord.core_eq (LaneRecord.core_noteModelEngaged (s.records (s.bridges b).record) now)).2.2.2
    have hsilent' : ((s.modifyRecord (s.bridges b).record (·.noteModelEngaged now)).records (s.bridges b).record).silent = true := by
      simp only [modifyRecord, setRecord, Function.update_self]
      have hoperator := hcore .operator
      have htalker := hcore .talker
      simp only [LaneRecord.partialOf] at hoperator htalker
      simpa only [LaneRecord.silent, hoperator, htalker] using hsilent
    obtain ⟨hlog, hsame⟩ := undisturbed_flush (b := b) hsilent'
    exact ⟨hlog, fun record hget => (hsame record).trans (hview (·.noteModelEngaged now) (hengaged _ hwatch) record hget)⟩
  | onInterrupted =>
    obtain ⟨hlog, hsame⟩ := undisturbed_flush (b := b) hignores
    exact ⟨hlog, fun record _ => hsame record⟩
  | onResumptionHandle handle _ => exact ⟨rfl, hview (fun lane => { lane with resumptionHandle := some handle }) fun _ => rfl⟩
  | onError _ _ fatal =>
    cases fatal with
    | false => exact ⟨rfl, fun _ _ => rfl⟩
    | true =>
      refine ⟨rfl, hview (fun lane => { lane with state := .error }) fun hmapped => ?_⟩
      have herror : (s.records (s.bridges b).record).state = .error := by
        simpa [LaneRecord.ignores, hmapped] using hignores
      simp [LaneRecord.view, herror]

/-! ## Closing and opening a lane -/

theorem records_closeLane (s : VoiceSessionService) (record r : ℕ) :
    (s.closeLane record).records r = if r = record then (s.records record).closed else s.records r := by
  simp only [closeLane, modifyRecord, setRecord, Function.update_apply]

theorem closed_closeLane {record b : ℕ} (h : ((s.closeLane record).bridges b).closed = false) :
    (s.bridges b).closed = false ∧ (s.records record).bridge ≠ some b := by
  simp only [closeLane] at h
  cases hbridge : (s.records record).bridge with
  | none =>
    rw [hbridge] at h
    exact ⟨h, (fun h => by cases h)⟩
  | some old =>
    rw [hbridge] at h
    simp only [Option.elim, Function.update_apply] at h
    split at h
    · cases h
    · rename_i hne
      exact ⟨h, fun hsome => hne (some.inj hsome).symm⟩

theorem down_closeLane (h : s.IsDown l ∨ s.lanes.get l = some record) : (s.closeLane record).IsDown l := by
  intro r hget
  change s.lanes.get l = some r at hget
  rw [records_closeLane]
  split
  · exact ⟨rfl, rfl⟩
  · rcases h with hdown | hrecord
    · exact hdown r hget
    · exact absurd (some.inj (hget.symm.trans hrecord)) ‹_›

theorem openers_closeLane (s : VoiceSessionService) (record : ℕ) : (s.closeLane record).openers = s.openers := by
  simp only [openers, opener_congr (quiet_closeLane s record).laneId]
  rfl

theorem inv_closeLane (hi : Inv s) (record : ℕ) : Inv (s.closeLane record) := by
  have hkept := (quiet_closeLane s record).toKept
  refine ⟨lanes_kept hi.toLanes hkept, fun {r b} hb => ?_, fun {b} hb hclosed => ?_, fun k hk => ?_, ?_, fun l hl => down_closeLane (.inl (hi.stopped l hl)),
    fun hresolved => ⟨(hi.resolved hresolved).1, fun l => down_closeLane (.inl ((hi.resolved hresolved).2 l))⟩⟩
  · rw [hkept.laneId]
    exact hi.owner (hkept.bridge_some hb)
  · obtain ⟨hopen, hother⟩ := closed_closeLane hclosed
    have hbridge := hi.unclosed hb hopen
    rw [hkept.record, records_closeLane, if_neg]
    · exact hbridge
    · intro hrecord
      exact hother (hrecord ▸ hbridge)
  · have hw := hi.waits k hk
    cases k with
    | switch laneId _ => exact ⟨hw.1, hw.2.1, down_closeLane (.inl hw.2.2)⟩
    | reopen r _ =>
      simp only [Waits, hkept.laneId]
      exact ⟨hw.1, hw.2.1, down_closeLane (.inl hw.2.2.1), hw.2.2.2⟩
    | replay _ _ => trivial
    | disposing visited => exact ⟨hw.1, fun r hr => hkept.laneId r ▸ down_closeLane (.inl (hw.2 r hr))⟩
  · rw [openers_closeLane]
    exact hi.unique

theorem mem_openers {k : Continuation} (hk : k ∈ s.continuations) (h : opener s.records k = some l) : l ∈ s.openers :=
  mem_filterMap.mpr ⟨k, hk, h⟩

theorem inv_openLane (hi : Inv s) (hmapped : s.lanes.get (s.records record).laneId = some record)
    (hnone : (s.records record).bridge = none) (hstopped : (s.records record).laneId ∉ s.stopped) (hfree : (s.records record).laneId ∉ s.openers)
    (hdisposed : s.disposed = false) (handle : Option JsString) (replays : Option (List JsString)) : Inv (s.openLane record handle replays) := by
  have hlane : ∀ r, ((s.openLane record handle replays).records r).laneId = (s.records r).laneId := by
    intro r
    rw [records_openLane]
    split
    · subst r
      rfl
    · rfl
  have hdown : ∀ {l}, l ≠ (s.records record).laneId → s.IsDown l → (s.openLane record handle replays).IsDown l := by
    intro l hne hl r hget
    rw [records_openLane, if_neg]
    · exact hl r hget
    · rintro rfl
      exact hne (hi.mapped hget).1.symm
  refine ⟨lanes_openLane hi.toLanes (hi.mapped hmapped).2 handle replays, fun {r b} hb => ?_, fun {b} hb hclosed => ?_, fun k hk => ?_, ?_, fun l hl => ?_,
    fun hresolved => ?_⟩
  · rw [hlane]
    rw [records_openLane] at hb
    split at hb
    · subst r
      exact hmapped
    · exact hi.owner hb
  · rw [bridges_openLane, records_openLane]
    by_cases hnew : b = s.nextBridge
    · rw [if_pos hnew, if_pos rfl, hnew]
    · have hclosed' : (s.bridges b).closed = false := by simpa only [openLane, Function.update_of_ne hnew] using hclosed
      have hbridge := hi.unclosed (Nat.lt_of_le_of_ne (Nat.le_of_lt_succ hb) hnew) hclosed'
      rw [if_neg hnew, if_neg]
      · exact hbridge
      · intro hrecord
        cases (hrecord ▸ hnone).symm.trans hbridge
  · have hw := hi.waits k hk
    cases k with
    | switch laneId _ => exact ⟨hw.1, hw.2.1, hdown (fun h => hfree (h ▸ mem_openers (s := s) hk rfl)) hw.2.2⟩
    | reopen r _ =>
      simp only [Waits, hlane]
      exact ⟨hw.1, hw.2.1, hdown (fun h => hfree (h ▸ mem_openers (s := s) hk rfl)) hw.2.2.1, hw.2.2.2⟩
    | replay _ _ => trivial
    | disposing visited => cases hdisposed.symm.trans hw.1
  · show (s.continuations.filterMap (opener (s.openLane record handle replays).records)).Nodup
    rw [opener_congr hlane]
    exact hi.unique
  · exact hdown (fun h => hstopped (h ▸ hl)) (hi.stopped l hl)
  · cases hdisposed.symm.trans (hi.resolved hresolved).1

/-- A lane that is down is taken out of the map. -/
theorem inv_delete (hi : Inv s) (hdown : s.IsDown l) (hfree : l ∉ s.openers) : Inv { s with lanes := s.lanes.delete l } := by
  have hget : ∀ {j r}, (s.lanes.delete l).get j = some r → s.lanes.get j = some r :=
    fun h => (JsMap.get_delete_eq_some.mp h).2
  have hdown' : ∀ {j}, s.IsDown j → ({ s with lanes := s.lanes.delete l } : VoiceSessionService).IsDown j := fun hj r h => hj r (hget h)
  refine ⟨⟨fun h => hi.mapped (hget h), hi.recorded, hi.older, hi.reopening⟩, fun {r b} hb => ?_, hi.unclosed, fun k hk => ?_, hi.unique,
    fun j hj => hdown' (hi.stopped j hj), fun h => ⟨(hi.resolved h).1, fun j => hdown' ((hi.resolved h).2 j)⟩⟩
  · have howner : s.lanes.get (s.records r).laneId = some r := hi.owner hb
    have hne : (s.records r).laneId ≠ l := by
      intro hl
      cases (hdown r (hl ▸ howner)).2.symm.trans hb
    exact (JsMap.get_delete_ne _ hne).trans howner
  · have hw := hi.waits k hk
    cases k with
    | switch laneId _ => exact ⟨hw.1, hw.2.1, hdown' hw.2.2⟩
    | reopen r _ =>
      have hne : (s.records r).laneId ≠ l := fun h => hfree (h ▸ mem_openers (s := s) hk rfl)
      exact ⟨hw.1, hw.2.1, hdown' hw.2.2.1, (JsMap.get_delete_ne _ hne).trans hw.2.2.2⟩
    | replay _ _ => trivial
    | disposing visited => exact ⟨hw.1, fun r hr => hdown' (hw.2 r hr)⟩

theorem inv_createLane (hi : Inv s) (hnone : s.lanes.get l = none) (hstopped : l ∉ s.stopped)
    (hfree : l ∉ s.openers) (hdisposed : s.disposed = false) (attachmentGeneration : ℤ) : Inv (s.createLane l attachmentGeneration) := by
  have hrecords : ∀ r, (s.adopt l attachmentGeneration).records r = if r = s.nextRecord then { laneId := l, attachmentGeneration } else s.records r := by
    intro r
    simp only [adopt, setRecord, Function.update_apply]
  have hold : ∀ {r}, r < s.nextRecord → (s.adopt l attachmentGeneration).records r = s.records r := by
    intro r hr
    rw [hrecords, if_neg (Nat.ne_of_lt hr)]
  have hdown : ∀ {j}, j ≠ l → s.IsDown j → (s.adopt l attachmentGeneration).IsDown j := by
    intro j hne hj r hget
    have hget' : s.lanes.get j = some r := by simpa only [adopt, JsMap.get_set_ne _ _ hne] using hget
    rw [hold (hi.mapped hget').2]
    exact hj r hget'
  have hopeners : (s.adopt l attachmentGeneration).openers = s.openers := by
    refine filterMap_congr fun k hk => ?_
    cases k with
    | reopen r _ => simp only [opener, hold (hi.reopening hk)]
    | _ => rfl
  have hadopt : Inv (s.adopt l attachmentGeneration) := by
    refine ⟨lanes_adopt hi.toLanes l attachmentGeneration, fun {r b} hb => ?_, fun {b} hb hclosed => ?_, fun k hk => ?_, hopeners ▸ hi.unique,
      fun j hj => hdown (fun h => hstopped (h ▸ hj)) (hi.stopped j hj), fun h => absurd (hi.resolved h).1 (by simp [hdisposed])⟩
    · rw [hrecords] at hb ⊢
      split at hb
      · cases hb
      · rw [if_neg ‹_›]
        have howner := hi.owner hb
        show (s.lanes.set l s.nextRecord).get _ = _
        rw [JsMap.get_set_ne]
        · exact howner
        · rintro rfl
          cases hnone.symm.trans howner
    · exact (congrArg LaneRecord.bridge (hold (hi.older hb))).trans (hi.unclosed hb hclosed)
    · have hw := hi.waits k hk
      cases k with
      | switch laneId _ => exact ⟨hw.1, hw.2.1, hdown (fun h => hfree (h ▸ mem_openers (s := s) hk rfl)) hw.2.2⟩
      | reopen r _ =>
        have hne : (s.records r).laneId ≠ l := fun h => hfree (h ▸ mem_openers (s := s) hk rfl)
        simp only [Waits, hold (hi.reopening hk)]
        exact ⟨hw.1, hw.2.1, hdown hne hw.2.2.1, (JsMap.get_set_ne _ _ hne).trans hw.2.2.2⟩
      | replay _ _ => trivial
      | disposing visited => cases hdisposed.symm.trans hw.1
  have hnew : (s.adopt l attachmentGeneration).records s.nextRecord = { laneId := l, attachmentGeneration } := by rw [hrecords, if_pos rfl]
  have hlane : ((s.adopt l attachmentGeneration).records s.nextRecord).laneId = l := congrArg LaneRecord.laneId hnew
  refine inv_openLane hadopt ?_ (congrArg LaneRecord.bridge hnew) (hlane.symm ▸ hstopped) ?_ hdisposed none none
  · rw [hlane]
    exact JsMap.get_set_same _ _ _
  · rw [hlane, hopeners]
    exact hfree

/-! ## Every step -/

theorem openers_then (s : VoiceSessionService) (k : Continuation) :
    ({ s with continuations := s.continuations ++ [k] } : VoiceSessionService).openers = s.openers ++ (opener s.records k).toList := by
  simp only [openers, filterMap_append]
  cases h : opener s.records k <;> simp [h]

/-- A lane that is down is to be opened. -/
theorem inv_then (hi : Inv s) {k : Continuation} (hk : Waits s k) (hfree : ∀ l, opener s.records k = some l → l ∉ s.openers) :
    Inv { s with continuations := s.continuations ++ [k] } := by
  have hmem : ∀ {j}, j ∈ s.continuations ++ [k] → j ∈ s.continuations ∨ j = k := fun h => (mem_append.mp h).imp_right mem_singleton.mp
  refine ⟨⟨hi.mapped, hi.recorded, hi.older, fun h => ?_⟩, hi.owner, hi.unclosed, fun j hj => ?_, ?_, hi.stopped, hi.resolved⟩
  · rcases hmem h with h | rfl
    · exact hi.reopening h
    · exact (hi.mapped hk.2.2.2).2
  · rcases hmem hj with hj | rfl
    · have hw := hi.waits j hj
      cases j <;> exact hw
    · cases j <;> exact hk
  · rw [openers_then]
    cases hopener : opener s.records k with
    | none => simpa using hi.unique
    | some l => exact nodup_append.mpr ⟨hi.unique, nodup_singleton l, fun a ha b hb hab => hfree l hopener (mem_singleton.mp hb ▸ hab ▸ ha)⟩

theorem inv_start (hi : Inv s) {laneId : JsString} {attachmentGeneration : ℤ}
    (hc : s.careful (.start laneId attachmentGeneration) = true) : Inv (s.start laneId attachmentGeneration) := by
  unfold start
  split
  · exact hi
  · rename_i hdisposed
    have hdisposed' : s.disposed = false := Bool.eq_false_iff.mpr hdisposed
    simp only [careful, hdisposed', Bool.false_or, Bool.and_eq_true] at hc
    obtain ⟨hfree, hlanes⟩ := hc
    have hfree' : laneId ∉ s.openers := fun h => by simpa using all_eq_true.mp hfree laneId h
    have hset : Steady s { s with stopped := s.stopped.filter (· ≠ laneId) } :=
      ⟨rfl, rfl, rfl, fun _ => ⟨rfl, rfl⟩, fun _ => ⟨rfl, rfl⟩, id, .refl _, fun _ h => .inl h, fun _ h => (mem_filter.mp h).1, rfl, rfl⟩
    have hi' := inv_steady hi hset
    have hstopped : laneId ∉ s.stopped.filter (· ≠ laneId) := by simp
    simp only
    split
    · rename_i record hget
      obtain ⟨hlane, _⟩ := hi.mapped hget
      simp only [hget, all_some, Bool.or_eq_true, Bool.not_eq_true', decide_eq_true_eq] at hlanes
      split
      · rename_i hgeneration
        split
        · rename_i hreopens
          have hnone : (s.records record).bridge = none := by
            rcases hlanes with (hne | hup) | hnone
            · exact absurd hgeneration hne
            · cases hup.symm.trans hreopens
            · exact isNone_iff_eq_none.mp hnone
          refine inv_openLane hi' ?_ hnone ?_ ?_ hdisposed' _ _
          · exact hlane.symm ▸ hget
          · exact hlane.symm ▸ hstopped
          · exact hlane.symm ▸ hfree'
        · exact hi'
      · refine inv_then (inv_closeLane hi' record) ⟨hstopped, hdisposed', down_closeLane (.inr hget)⟩ fun l hl => ?_
        obtain rfl := some.inj hl
        rw [openers_closeLane]
        exact hfree'
    · exact inv_createLane hi' ‹_› hstopped hfree' hdisposed' attachmentGeneration

theorem inv_stop (hi : Inv s) {laneId : JsString} (hc : s.careful (.stop laneId) = true) : Inv (s.stop laneId) := by
  have hfree : laneId ∉ s.openers := fun h => by simpa using all_eq_true.mp hc laneId h
  unfold stop
  split
  · rename_i record hget
    have hi' := inv_closeLane hi record
    have hdown : (s.closeLane record).IsDown laneId := down_closeLane (.inr hget)
    refine ⟨⟨hi'.mapped, hi'.recorded, hi'.older, hi'.reopening⟩, hi'.owner, hi'.unclosed, fun k hk => ?_, hi'.unique, fun l hl => ?_, hi'.resolved⟩
    · have hw := hi'.waits k hk
      have hne : ∀ {l}, opener (s.closeLane record).records k = some l → l ≠ laneId := by
        rintro l hl rfl
        exact hfree (openers_closeLane s record ▸ mem_openers hk hl)
      cases k with
      | switch l _ | reopen r _ => exact ⟨not_mem_cons_of_ne_of_not_mem (hne rfl) hw.1, hw.2⟩
      | replay _ _ => trivial
      | disposing visited => exact hw
    · rcases mem_cons.mp hl with rfl | hl
      · exact hdown
      · exact hi'.stopped l hl
  · exact hi

theorem inv_disposeNext (hi : Inv s) (hdisposed : s.disposed = true) {visited : List ℕ}
    (hvisited : ∀ record ∈ visited, s.IsDown (s.records record).laneId) : Inv (s.disposeNext visited) := by
  unfold disposeNext
  split
  · rename_i record hfind
    obtain ⟨l, hmem⟩ := mem_map.mp (mem_of_find?_eq_some hfind)
    have hget : s.lanes.get l.1 = some record := hmem.2 ▸ JsMap.get_of_mem hmem.1
    have hlane := (quiet_closeLane s record).laneId
    refine inv_then (inv_closeLane hi record) ⟨hdisposed, fun r hr => ?_⟩ nofun
    rw [hlane]
    rcases mem_append.mp hr with hr | hr
    · exact down_closeLane (.inl (hvisited r hr))
    · obtain rfl := mem_singleton.mp hr
      exact down_closeLane (.inr ((hi.mapped hget).1.symm ▸ hget))
  · rename_i hfind
    refine ⟨⟨hi.mapped, hi.recorded, hi.older, hi.reopening⟩, hi.owner, hi.unclosed, fun k hk => ?_, hi.unique, hi.stopped, fun _ => ⟨hdisposed, fun l r hget => ?_⟩⟩
    · have hw := hi.waits k hk
      cases k <;> exact hw
    · -- every lane of the map was visited
      have hvalue : r ∈ s.lanes.values := mem_map.mpr ⟨(l, r), JsMap.get_eq_some.mp hget, rfl⟩
      have hin : r ∈ visited := by
        by_contra hout
        refine find?_eq_none.mp hfind r hvalue (all_eq_true.mpr fun x hx => decide_eq_true fun h => hout (h ▸ hx))
      exact hvisited r hin r ((hi.mapped hget).1.symm ▸ hget)

theorem inv_dispose (hi : Inv s) (hc : s.careful .dispose = true) : Inv s.dispose := by
  unfold dispose
  split
  · exact hi
  · rename_i hdisposed
    have hnone : s.openers = [] := by simpa [careful, hdisposed] using hc
    refine inv_disposeNext ?_ rfl nofun
    refine ⟨⟨hi.mapped, hi.recorded, hi.older, hi.reopening⟩, hi.owner, hi.unclosed, fun k hk => ?_, hi.unique, hi.stopped, fun h => ⟨rfl, (hi.resolved h).2⟩⟩
    have hw := hi.waits k hk
    have hclosed : ∀ l, opener s.records k ≠ some l := by
      intro l hl
      have hmem := mem_openers (s := s) hk hl
      rw [hnone] at hmem
      cases hmem
    cases k with
    | switch l _ => exact absurd rfl (hclosed l)
    | reopen r _ => exact absurd rfl (hclosed (s.records r).laneId)
    | replay _ _ => trivial
    | disposing visited => exact ⟨rfl, hw.2⟩

theorem inv_resume (hi : Inv s) (i : ℕ) : Inv (s.resume i) := by
  unfold resume
  split
  · rename_i k hk
    have hmem := mem_of_getElem? hk
    have hw := hi.waits k hmem
    have herase : Steady s { s with continuations := s.continuations.eraseIdx i } :=
      ⟨rfl, rfl, rfl, fun _ => ⟨rfl, rfl⟩, fun _ => ⟨rfl, rfl⟩, id, (eraseIdx_sublist _ i).filterMap _, fun _ h => .inl (mem_of_mem_eraseIdx h),
        fun _ h => h, rfl, rfl⟩
    have hi' := inv_steady hi herase
    -- it was the only one to open its lane
    have hfree : ∀ l, opener s.records k = some l → l ∉ ({ s with continuations := s.continuations.eraseIdx i } : VoiceSessionService).openers := by
      intro l hl hin
      obtain ⟨hlt, hget⟩ := List.getElem?_eq_some_iff.mp hk
      have hperm := (getElem_cons_eraseIdx_perm hlt).filterMap (opener s.records)
      have hnodup := hperm.nodup_iff.mpr hi.unique
      rw [hget, filterMap_cons_some hl] at hnodup
      exact (nodup_cons.mp hnodup).1 hin
    cases k with
    | switch laneId attachmentGeneration =>
      exact inv_createLane (inv_delete hi' hw.2.2 (hfree laneId rfl)) (JsMap.get_delete_same _ _) hw.1 (hfree laneId rfl) hw.2.1 attachmentGeneration
    | reopen record toReplay =>
      exact inv_openLane hi' hw.2.2.2 (hw.2.2.1 record hw.2.2.2).2 hw.1 (hfree _ rfl) hw.2.1 none (some toReplay)
    | replay record toReplay => exact inv_steady hi' (steady_replay hi' record toReplay)
    | disposing visited => exact inv_disposeNext hi' hw.1 hw.2
  · exact hi

theorem inv_onStallTimer (hi : Inv s) (record : ℕ) (now : ℤ) : Inv (s.onStallTimer record now) := by
  unfold onStallTimer
  split
  · have hcore : ∀ (s : VoiceSessionService) (f : LaneRecord → LaneRecord), Inv s → (f (s.records record)).core = (s.records record).core →
        Inv (s.modifyRecord record f) := fun _ _ hi h => inv_steady hi (steady_core hi h)
    have hi' : Inv (s.modifyRecord record fun lane => { lane with stallTimer := false }) := hcore s _ hi rfl
    generalize (s.modifyRecord record fun lane => { lane with stallTimer := false }) = t at hi'
    simp only [runStallCheck]
    split
    · exact hi'
    · rename_i hdisposed
      split
      · exact hi'
      · split
        · exact hcore t _ hi' rfl
        · split
          · exact hi'
          · split
            · exact hi'
            · rename_i hup
              -- a lane with a bridge is neither stopped nor about to be opened
              have hbridge : (t.records record).bridge ≠ none := by
                intro hnone
                simp [hnone] at hup
              obtain ⟨b, hb⟩ := ne_none_iff_exists'.mp hbridge
              have hget := hi'.owner hb
              have hnotdown : ¬ t.IsDown (t.records record).laneId := fun hdown => hbridge (hdown record hget).2
              have hi'' := hcore t (fun lane => { lane with stallReminted := true }) hi' rfl
              have hlane : ∀ r, ((t.modifyRecord record fun lane => { lane with stallReminted := true }).records r).laneId = (t.records r).laneId :=
                laneId_modify rfl
              refine inv_then (inv_closeLane hi'' record) ?_ fun l hl => ?_
              · simp only [Waits, (quiet_closeLane _ record).laneId, hlane]
                exact ⟨fun hl => hnotdown (hi'.stopped _ hl), Bool.eq_false_iff.mpr hdisposed, down_closeLane (.inr hget), hget⟩
              · have hl' : (t.records record).laneId = l := by
                  simpa only [opener, (quiet_closeLane _ record).laneId, hlane, some.injEq] using hl
                subst hl'
                rw [openers_closeLane]
                intro hin
                change (t.records record).laneId ∈ t.continuations.filterMap (opener _) at hin
                rw [opener_congr hlane] at hin
                obtain ⟨k, hk, hopener⟩ := mem_filterMap.mp hin
                have hw := hi'.waits k hk
                cases k with
                | switch l' _ => exact hnotdown (some.inj hopener ▸ hw.2.2)
                | reopen r _ => exact hnotdown (some.inj hopener ▸ hw.2.2.1)
                | replay _ _ | disposing _ => cases hopener
  · exact hi

theorem inv_step {e : VoiceEvent} (hi : Inv s) (hc : s.careful e = true) : Inv (step c s e) := by
  have hcore : ∀ (record : ℕ) (f : LaneRecord → LaneRecord), (f (s.records record)).core = (s.records record).core →
      Inv (s.modifyRecord record f) := fun _ _ h => inv_steady hi (steady_core hi h)
  cases e with
  | start laneId attachmentGeneration => exact inv_start hi hc
  | stop laneId => exact inv_stop hi hc
  | dispose => exact inv_dispose hi hc
  | resume i => exact inv_resume hi i
  | connected b ok => exact inv_connected hi hc
  | callback b callback now sent =>
    simp only [step]
    split
    · exact inv_callback c hi ‹_› hc
    · exact hi
  | noteActivity laneId attachmentGeneration speechStart now sent =>
    simp only [step, noteActivity]
    split
    · exact hi
    · split
      · exact hi
      · have hactive := hcore ‹_› (fun lane => { lane with speechActive := speechStart }) rfl
        split
        · exact hactive
        · have hflush := fun record bridge => inv_steady hactive (steady_flushFinalTranscripts hactive record bridge)
          exact inv_steady (hflush _ _) (steady_core (hflush _ _) (LaneRecord.core_flushContext _ _ _ _ _))
  | injectContext laneId text now sent =>
    simp only [step, injectContext]
    split
    · exact hi
    · exact hcore _ _ (LaneRecord.core_queueContext _ _ _ _ _)
  | setReadingLevel laneId level now sent =>
    simp only [step, setReadingLevel]
    split
    · exact hi
    · refine hcore _ _ ?_
      rw [LaneRecord.core_queueContext]
      rfl
  | contextTimer record now sent =>
    simp only [step, onContextTimer]
    split
    · refine hcore _ _ ?_
      rw [LaneRecord.core_flushContext]
      rfl
    · exact hi
  | noteOperatorUtterance laneId text now =>
    simp only [step, noteOperatorUtterance]
    split
    · exact hi
    · split
      · exact hi
      · exact hcore _ _ (LaneRecord.core_armStallWatch _ _ _)
  | stallTimer record now => exact inv_onStallTimer hi record now

theorem unopened_of_disposed {e : VoiceEvent} (hi : Inv s) (hdisposed : s.disposed = true) :
    (step c s e).nextBridge = s.nextBridge := by
  have hnone : ∀ {k}, k ∈ s.continuations → opener s.records k = none := by
    intro k hk
    have hw := hi.waits k hk
    cases k with
    | switch _ _ | reopen _ _ => cases hw.2.1.symm.trans hdisposed
    | replay _ _ | disposing _ => rfl
  have heffect := effect_step c s e
  generalize step c s e = s' at heffect
  cases heffect with
  | quiet h | said h _ _ _ => exact h.nextBridge
  | opened _ _ _ _ hwhy =>
    cases e with
    | start _ _ => cases hwhy.1.symm.trans hdisposed
    | resume i =>
      obtain ⟨toReplay, hk⟩ := hwhy
      cases hnone (mem_of_getElem? hk)
    | _ => cases hwhy
  | created _ _ _ _ hwhy =>
    cases e with
    | start _ _ => cases hwhy.symm.trans hdisposed
    | resume i =>
      obtain ⟨laneId, attachmentGeneration, hk⟩ := hwhy
      cases hnone (mem_of_getElem? hk)
    | _ => cases hwhy
  | ended h _ _ h' => exact h'.nextBridge.trans h.nextBridge

/-! ## The run -/

theorem lane_lifecycle {es : List VoiceEvent} (h : Run.Along (step c) (fun s e => s.careful e = true) new es) : Run.Along (step c) (Sound c) new es := by
  refine Run.along_of_invariant (I := Inv) (fun _ _ hi hc => inv_step c hi hc) (fun s e hi hc => ?_) inv_new h
  exact ⟨orderly_of_inv (inv_step c hi hc), undisturbed_callback c hi hc, unopened_of_disposed c hi⟩

/-- A worker switch, a remint of the new lane, and a stop. -/
def switched : List VoiceEvent :=
  [.start (js "lane-1") 1, .connected 0 true, .callback 0 (.onState .live none) 0 true, .start (js "lane-1") 2, .resume 0,
    .callback 0 (.onState .error none) 0 true, .connected 1 true, .callback 1 (.onState .live none) 0 true,
    .noteOperatorUtterance (js "lane-1") (js "status?") 0, .stallTimer 1 20000, .resume 0, .connected 2 true, .resume 0,
    .callback 2 (.onState .live none) 20000 true, .stop (js "lane-1"), .dispose, .resume 0]

theorem lane_lifecycle_switched : Run.Along (step 0) (Sound 0) new switched := lane_lifecycle 0 (by decide +kernel)

/-- The connection fails after the lane was stopped. -/
theorem error_after_stop : ∃ (contextCoalesceMs : ℤ) (es : List VoiceEvent), ¬ Run.Along (step contextCoalesceMs) (Sound contextCoalesceMs) new es := by
  refine ⟨0, [.start (js "lane-1") 1, .stop (js "lane-1")] ++ [.connected 0 false], fun h => ?_⟩
  have hsound := (Run.along_append.mp h).2.1.1
  have hstopped := ((hsound.stopped (js "lane-1") (by decide +kernel)).1 0 (by decide +kernel)).1
  revert hstopped
  decide +kernel

end VoiceSessionService

end PiWebUi.Voice
