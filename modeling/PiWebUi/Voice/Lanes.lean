/-
  PiWebUi.Voice.Lanes — the lanes of the map, the records and the bridges in every run.

  A bridge that is recorded is a bridge of that record, and a record is made before its
  bridges (`Lanes`). All but an opening is `Kept`, and all of it in which nothing is said
  either is `Quiet`: the partial transcripts and the log stay as they were.
-/

import PiWebUi.Voice.VoiceSession

namespace PiWebUi.Voice

open Lib

/-- It holds no words of an utterance that has not ended. -/
def LaneRecord.silent (lane : LaneRecord) : Bool := lane.operatorPartial = [] && lane.talkerPartial = []

@[simp] theorem LaneRecord.bridge_addPartial (lane : LaneRecord) (text : JsString) (speaker : Speaker) :
    (lane.addPartial text speaker).bridge = lane.bridge := by
  cases speaker <;> rfl

namespace VoiceSessionService

variable (c : ℤ)

/-- The bridge is the one its record has. -/
def isCurrent (s : VoiceSessionService) (b : ℕ) : Bool := (s.records (s.bridges b).record).bridge = some b

structure Lanes (s : VoiceSessionService) : Prop where
  mapped : ∀ {l r}, s.lanes.get l = some r → (s.records r).laneId = l ∧ r < s.nextRecord
  recorded : ∀ {r b}, (s.records r).bridge = some b → b < s.nextBridge ∧ (s.bridges b).record = r
  older : ∀ {b}, b < s.nextBridge → (s.bridges b).record < s.nextRecord
  reopening : ∀ {r toReplay}, .reopen r toReplay ∈ s.continuations → r < s.nextRecord

theorem lanes_new : Lanes new where
  mapped := nofun
  recorded := nofun
  older := fun h => absurd h (Nat.not_lt_zero _)
  reopening := nofun

/-- No lane is opened. -/
structure Kept (s s' : VoiceSessionService) : Prop where
  lanes : s'.lanes = s.lanes
  nextBridge : s'.nextBridge = s.nextBridge
  nextRecord : s'.nextRecord = s.nextRecord
  record : ∀ b, (s'.bridges b).record = (s.bridges b).record
  laneId : ∀ r, (s'.records r).laneId = (s.records r).laneId
  bridge : ∀ r, (s'.records r).bridge = (s.records r).bridge ∨ (s'.records r).bridge = none
  reopening : ∀ {r toReplay}, .reopen r toReplay ∈ s'.continuations → .reopen r toReplay ∈ s.continuations ∨ (s.records r).bridge ≠ none

/-- Nothing is said either. -/
structure Quiet (s s' : VoiceSessionService) : Prop extends Kept s s' where
  log : s'.log = s.log
  partialOf : ∀ r speaker, (s'.records r).partialOf speaker = (s.records r).partialOf speaker

theorem Kept.refl (s : VoiceSessionService) : Kept s s := ⟨rfl, rfl, rfl, fun _ => rfl, fun _ => rfl, fun _ => .inl rfl, .inl⟩

variable {s s' : VoiceSessionService} {f : LaneRecord → LaneRecord}

theorem Kept.trans {t u : VoiceSessionService} (h : Kept s t) (h' : Kept t u) : Kept s u where
  lanes := h'.lanes.trans h.lanes
  nextBridge := h'.nextBridge.trans h.nextBridge
  nextRecord := h'.nextRecord.trans h.nextRecord
  record := fun b => (h'.record b).trans (h.record b)
  laneId := fun r => (h'.laneId r).trans (h.laneId r)
  bridge := fun r => by
    rcases h'.bridge r with hsame | hnone
    · rw [hsame]
      exact h.bridge r
    · exact .inr hnone
  reopening := fun {r _} hmem => by
    rcases h'.reopening hmem with hmem | hsome
    · exact h.reopening hmem
    · rcases h.bridge r with hsame | hnone
      · exact .inr (hsame ▸ hsome)
      · exact absurd hnone hsome

theorem Quiet.refl (s : VoiceSessionService) : Quiet s s := ⟨.refl s, rfl, fun _ _ => rfl⟩

theorem Quiet.trans {t u : VoiceSessionService} (h : Quiet s t) (h' : Quiet t u) : Quiet s u :=
  ⟨h.toKept.trans h'.toKept, h'.log.trans h.log, fun r speaker => (h'.partialOf r speaker).trans (h.partialOf r speaker)⟩

theorem Kept.bridge_some (h : Kept s s') {r b : ℕ} (hb : (s'.records r).bridge = some b) : (s.records r).bridge = some b := by
  rcases h.bridge r with hsame | hnone
  · exact hsame ▸ hb
  · cases hnone.symm.trans hb

theorem lanes_kept (hl : Lanes s) (h : Kept s s') : Lanes s' := by
  refine ⟨fun {l r} hget => ?_, fun {r b} hb => ?_, fun {b} hb => ?_, fun {r toReplay} hmem => ?_⟩
  · rw [h.lanes] at hget
    rw [h.laneId, h.nextRecord]
    exact hl.mapped hget
  · rw [h.nextBridge, h.record]
    exact hl.recorded (h.bridge_some hb)
  · rw [h.nextBridge] at hb
    rw [h.record, h.nextRecord]
    exact hl.older hb
  · rw [h.nextRecord]
    rcases h.reopening hmem with hmem | hsome
    · exact hl.reopening hmem
    · obtain ⟨b, hb⟩ := Option.ne_none_iff_exists'.mp hsome
      obtain ⟨hlt, hrecord⟩ := hl.recorded hb
      exact hrecord ▸ hl.older hlt

/-! ## The quiet operations -/

/-- An update of a record that leaves its partial transcripts and its bridge. -/
theorem quiet_modify (s : VoiceSessionService) {record : ℕ} (hlane : (f (s.records record)).laneId = (s.records record).laneId)
    (hbridge : (f (s.records record)).bridge = (s.records record).bridge ∨ (f (s.records record)).bridge = none)
    (hwritten : ∀ speaker, (f (s.records record)).partialOf speaker = (s.records record).partialOf speaker) :
    Quiet s (s.modifyRecord record f) := by
  have hmodified : ∀ r, (s.modifyRecord record f).records r = if r = record then f (s.records record) else s.records r := by
    intro r
    simp only [modifyRecord, setRecord, Function.update_apply]
  refine ⟨⟨rfl, rfl, rfl, fun _ => rfl, fun r => ?_, fun r => ?_, .inl⟩, rfl, fun r speaker => ?_⟩
  · rw [hmodified]
    split
    · subst r
      exact hlane
    · rfl
  · rw [hmodified]
    split
    · subst r
      exact hbridge
    · exact .inl rfl
  · rw [hmodified]
    split
    · subst r
      exact hwritten speaker
    · rfl

theorem quiet_core (s : VoiceSessionService) {record : ℕ}
    (h : (f (s.records record)).core = (s.records record).core) : Quiet s (s.modifyRecord record f) :=
  quiet_modify s (LaneRecord.core_eq h).1 (.inl (LaneRecord.core_eq h).2.2.1) (LaneRecord.core_eq h).2.2.2

theorem quiet_closeLane (s : VoiceSessionService) (record : ℕ) : Quiet s (s.closeLane record) := by
  have hmodify : Quiet s (s.modifyRecord record .closed) := quiet_modify s rfl (.inr rfl) fun speaker => by cases speaker <;> rfl
  refine ⟨⟨rfl, rfl, rfl, fun b => ?_, hmodify.laneId, hmodify.bridge, .inl⟩, rfl, hmodify.partialOf⟩
  simp only [closeLane]
  cases hbridge : (s.records record).bridge with
  | none => rfl
  | some old =>
    by_cases h : b = old
    · subst h
      simp
    · simp [h]

/-- More is to be done later, but no reopening. -/
theorem Quiet.then_ (h : Quiet s s') {more : List Continuation} {disposed disposeResolved : Bool} {stopped : List JsString}
    (hmore : ∀ {r toReplay}, .reopen r toReplay ∈ more → (s.records r).bridge ≠ none) :
    Quiet s { s' with continuations := s'.continuations ++ more, disposed, disposeResolved, stopped } := by
  refine ⟨⟨h.lanes, h.nextBridge, h.nextRecord, h.record, h.laneId, h.bridge, fun hmem => ?_⟩, h.log, h.partialOf⟩
  rcases List.mem_append.mp hmem with hmem | hmem
  · exact h.reopening hmem
  · exact .inr (hmore hmem)

theorem quiet_stop (s : VoiceSessionService) (laneId : JsString) : Quiet s (s.stop laneId) := by
  unfold stop
  split
  · have hclose := quiet_closeLane s ‹_›
    exact ⟨⟨hclose.lanes, hclose.nextBridge, hclose.nextRecord, hclose.record, hclose.laneId, hclose.bridge, hclose.reopening⟩, hclose.log, hclose.partialOf⟩
  · exact .refl s

theorem quiet_disposeNext (s : VoiceSessionService) (visited : List ℕ) : Quiet s (s.disposeNext visited) := by
  unfold disposeNext
  split
  · exact (quiet_closeLane s _).then_ fun h => by simp at h
  · exact ⟨⟨rfl, rfl, rfl, fun _ => rfl, fun _ => rfl, fun _ => .inl rfl, .inl⟩, rfl, fun _ _ => rfl⟩

theorem quiet_dispose (s : VoiceSessionService) : Quiet s s.dispose := by
  unfold dispose
  split
  · exact .refl s
  · have hset : Quiet s { s with disposed := true } := ⟨⟨rfl, rfl, rfl, fun _ => rfl, fun _ => rfl, fun _ => .inl rfl, .inl⟩, rfl, fun _ _ => rfl⟩
    exact hset.trans (quiet_disposeNext _ _)

theorem quiet_replay (s : VoiceSessionService) (record : ℕ) (toReplay : List JsString) : Quiet s (s.replay record toReplay) := by
  unfold replay
  split
  · exact .refl s
  · exact quiet_core s (LaneRecord.core_flushPendingReplays _)

theorem quiet_connected (s : VoiceSessionService) (b : ℕ) (ok : Bool) : Quiet s (s.connected b ok) := by
  have hsettled : ∀ connect, Quiet s { s with
      bridges := Function.update s.bridges b { s.bridges b with connect }
      continuations := s.continuations ++ (s.bridges b).replays.elim [] fun toReplay => [.replay (s.bridges b).record toReplay] } := by
    intro connect
    refine ⟨⟨rfl, rfl, rfl, fun b' => ?_, fun _ => rfl, fun _ => .inl rfl, fun hmem => ?_⟩, rfl, fun _ _ => rfl⟩
    · by_cases h : b' = b
      · subst h
        simp
      · simp [h]
    · rcases List.mem_append.mp hmem with hmem | hmem
      · exact .inl hmem
      · cases hreplays : (s.bridges b).replays <;> simp [hreplays] at hmem
  simp only [connected]
  split
  · exact .refl s
  · split
    · exact hsettled _
    · refine (hsettled .rejected).trans (quiet_modify _ rfl (.inl rfl) fun speaker => ?_)
      cases speaker <;> rfl

theorem quiet_runStallCheck (s : VoiceSessionService) (record : ℕ) (now : ℤ) : Quiet s (s.runStallCheck record now) := by
  simp only [runStallCheck]
  split
  · exact .refl s
  · split
    · exact .refl s
    · split
      · exact quiet_core s rfl
      · split
        · exact .refl s
        · split
          · exact .refl s
          · rename_i hup
            have hbridge : (s.records record).bridge ≠ none := by
              intro hnone
              simp [hnone] at hup
            have hmodify : Quiet s (s.modifyRecord record fun lane => { lane with stallReminted := true }) := quiet_core s rfl
            refine (hmodify.trans (quiet_closeLane _ record)).then_ fun h => ?_
            obtain ⟨rfl, _⟩ := Continuation.reopen.inj (List.mem_singleton.mp h)
            exact hbridge

theorem onState_fields (lane : LaneRecord) (state : VoiceWireState) (now : ℤ) (sent : Bool) :
    (onState c lane state now sent).laneId = lane.laneId ∧ (onState c lane state now sent).bridge = lane.bridge ∧
      ∀ speaker, (onState c lane state now sent).partialOf speaker = lane.partialOf speaker := by
  have hset : ∀ speaker, ({ lane with state } : LaneRecord).partialOf speaker = lane.partialOf speaker := fun speaker => by cases speaker <;> rfl
  simp only [onState]
  split
  · exact ⟨rfl, rfl, fun _ => rfl⟩
  · split
    · have hcore : (LaneRecord.flushContext c { lane with state } true now sent).flushPendingReplays.core = ({ lane with state } : LaneRecord).core := by
        simp
      obtain ⟨hlane, _, hbridge, hwritten⟩ := LaneRecord.core_eq hcore
      exact ⟨hlane, hbridge, fun speaker => (hwritten speaker).trans (hset speaker)⟩
    · exact ⟨rfl, rfl, hset⟩

/-! ## What a step can do -/

/-- The step opens the lane of the record again. -/
def Reopening (s : VoiceSessionService) (record : ℕ) : VoiceEvent → Prop
  | .start laneId attachmentGeneration => s.disposed = false ∧ s.lanes.get laneId = some record ∧
      (s.records record).attachmentGeneration = attachmentGeneration ∧ reopens (s.records record) = true
  | .resume i => ∃ toReplay, s.continuations[i]? = some (.reopen record toReplay)
  | _ => False

/-- The step opens a lane for the first time. -/
def Creating (s : VoiceSessionService) : VoiceEvent → Prop
  | .start _ _ => s.disposed = false
  | .resume i => ∃ laneId attachmentGeneration, s.continuations[i]? = some (.switch laneId attachmentGeneration)
  | _ => False

/-- The step is words of a provider session. -/
def Saying (b : ℕ) (text : JsString) : Speaker → VoiceEvent → Prop
  | .operator, .callback bridge (.onInputTranscription words) _ _ => bridge = b ∧ words = text
  | .talker, .callback bridge (.onOutputTranscription words) _ _ => bridge = b ∧ words = text
  | _, _ => False

/-- The step is a boundary, of a provider session if there is one. -/
def Ending (s : VoiceSessionService) (record : ℕ) (bridge : Option ℕ) : VoiceEvent → Prop
  | .callback b .onTurnComplete _ _ | .callback b .onInterrupted _ _ => b < s.nextBridge ∧ (s.bridges b).record = record ∧ bridge = some b
  | .noteActivity laneId attachmentGeneration speechStart _ _ => s.lanes.get laneId = some record ∧
      (s.records record).attachmentGeneration = attachmentGeneration ∧ speechStart = false ∧ bridge = (s.records record).bridge
  | _ => False

inductive Effect (s : VoiceSessionService) (e : VoiceEvent) : VoiceSessionService → Prop where
  | quiet {s' : VoiceSessionService} : Quiet s s' → Effect s e s'
  | opened {t : VoiceSessionService} {record : ℕ} (handle : Option JsString) (replays : Option (List JsString)) :
    Quiet s t → t.records = s.records → Reopening s record e → Effect s e (t.openLane record handle replays)
  | created {t : VoiceSessionService} {lanes : JsMap JsString ℕ} (laneId : JsString) (attachmentGeneration : ℤ) :
    Quiet s t → (∀ {l r}, lanes.get l = some r → t.lanes.get l = some r) → Creating s e →
      Effect s e ({ t with lanes }.createLane laneId attachmentGeneration)
  | said {t : VoiceSessionService} {b : ℕ} {speaker : Speaker} {text : JsString} :
    Quiet s t → (∀ r, (t.records r).bridge = (s.records r).bridge) → b < s.nextBridge → Saying b text speaker e →
      Effect s e (t.addTranscript (s.bridges b).record b speaker text)
  | ended {t u : VoiceSessionService} {record : ℕ} {bridge : Option ℕ} :
    Quiet s t → (∀ r, (t.records r).bridge = (s.records r).bridge) → Ending s record bridge e →
      Quiet (t.flushFinalTranscripts record bridge) u → Effect s e u

theorem bridge_modify {record : ℕ} (h : (f (s.records record)).bridge = (s.records record).bridge) (r : ℕ) :
    ((s.modifyRecord record f).records r).bridge = (s.records r).bridge := by
  simp only [modifyRecord, setRecord, Function.update_apply]
  split
  · subst r
    exact h
  · rfl

theorem effect_start (s : VoiceSessionService) (laneId : JsString) (attachmentGeneration : ℤ) :
    Effect s (.start laneId attachmentGeneration) (s.start laneId attachmentGeneration) := by
  have hset : Quiet s { s with stopped := s.stopped.filter (· ≠ laneId) } :=
    ⟨⟨rfl, rfl, rfl, fun _ => rfl, fun _ => rfl, fun _ => .inl rfl, .inl⟩, rfl, fun _ _ => rfl⟩
  unfold start
  split
  · exact .quiet (.refl s)
  · rename_i hdisposed
    simp only
    split
    · rename_i record hlane
      split
      · rename_i hgeneration
        split
        · rename_i hreopens
          exact .opened _ _ hset rfl ⟨Bool.eq_false_iff.mpr hdisposed, hlane, hgeneration, hreopens⟩
        · exact .quiet hset
      · exact .quiet ((hset.trans (quiet_closeLane _ record)).then_ fun h => by simp at h)
    · exact .created laneId attachmentGeneration hset id (Bool.eq_false_iff.mpr hdisposed)

theorem effect_resume (s : VoiceSessionService) (i : ℕ) : Effect s (.resume i) (s.resume i) := by
  have herase : Quiet s { s with continuations := s.continuations.eraseIdx i } :=
    ⟨⟨rfl, rfl, rfl, fun _ => rfl, fun _ => rfl, fun _ => .inl rfl, fun h => .inl (List.mem_of_mem_eraseIdx h)⟩, rfl, fun _ _ => rfl⟩
  unfold resume
  split
  · rename_i k hk
    cases k with
    | switch laneId attachmentGeneration =>
      refine .created laneId attachmentGeneration herase (fun hget => ?_) ⟨_, _, hk⟩
      exact (JsMap.get_delete_eq_some.mp hget).2
    | reopen record toReplay => exact .opened none (some toReplay) herase rfl ⟨toReplay, hk⟩
    | replay record toReplay => exact .quiet (herase.trans (quiet_replay _ record toReplay))
    | disposing visited => exact .quiet (herase.trans (quiet_disposeNext _ visited))
  · exact .quiet (.refl s)

theorem effect_callback (s : VoiceSessionService) {b : ℕ} (hb : b < s.nextBridge) (callback : Callback) (now : ℤ) (sent : Bool) :
    Effect s (.callback b callback now sent) (s.callback c b now sent callback) := by
  have hengaged : Quiet s (s.modifyRecord (s.bridges b).record (·.noteModelEngaged now)) := quiet_core s (LaneRecord.core_noteModelEngaged _ now)
  have hbridge : ∀ r, ((s.modifyRecord (s.bridges b).record (·.noteModelEngaged now)).records r).bridge = (s.records r).bridge :=
    bridge_modify (LaneRecord.core_eq (LaneRecord.core_noteModelEngaged _ now)).2.2.1
  cases callback with
  | onState state _ =>
    obtain ⟨hlane, hsame, hwritten⟩ := onState_fields c (s.records (s.bridges b).record) state now sent
    refine .quiet ?_
    show Quiet s (s.modifyRecord (s.bridges b).record (onState c · state now sent))
    exact quiet_modify s hlane (.inl hsame) hwritten
  | onSetupComplete | onGoAway _ => exact .quiet (.refl s)
  | onReconnected =>
    refine .quiet ?_
    show Quiet s (s.modifyRecord (s.bridges b).record (·.flushContext c true now sent))
    exact quiet_core s (LaneRecord.core_flushContext _ _ _ _ _)
  | onAudioPcm _ _ | onToolCall _ _ => exact .quiet hengaged
  | onInputTranscription text => exact .said (.refl s) (fun _ => rfl) hb ⟨rfl, rfl⟩
  | onOutputTranscription text => exact .said hengaged hbridge hb ⟨rfl, rfl⟩
  | onTurnComplete => exact .ended hengaged hbridge ⟨hb, rfl, rfl⟩ (.refl _)
  | onInterrupted => exact .ended (.refl s) (fun _ => rfl) ⟨hb, rfl, rfl⟩ (.refl _)
  | onResumptionHandle handle _ =>
    refine .quiet ?_
    show Quiet s (s.modifyRecord (s.bridges b).record fun lane => { lane with resumptionHandle := some handle })
    exact quiet_core s rfl
  | onError _ _ fatal =>
    refine .quiet ?_
    cases fatal with
    | false => exact .refl s
    | true =>
      show Quiet s (s.modifyRecord (s.bridges b).record fun lane => { lane with state := .error })
      refine quiet_modify s rfl (.inl rfl) fun speaker => ?_
      cases speaker <;> rfl

theorem effect_noteActivity (s : VoiceSessionService) (laneId : JsString) (attachmentGeneration : ℤ) (speechStart : Bool) (now : ℤ) (sent : Bool) :
    Effect s (.noteActivity laneId attachmentGeneration speechStart now sent) (s.noteActivity c laneId attachmentGeneration speechStart now sent) := by
  unfold noteActivity
  split
  · exact .quiet (.refl s)
  · rename_i record hlane
    split
    · exact .quiet (.refl s)
    · rename_i hgeneration
      have hactive : Quiet s (s.modifyRecord record fun lane => { lane with speechActive := speechStart }) := quiet_core s rfl
      have hbridge : ∀ r, ((s.modifyRecord record fun lane => { lane with speechActive := speechStart }).records r).bridge = (s.records r).bridge :=
        bridge_modify rfl
      simp only
      split
      · exact .quiet hactive
      · rename_i hend
        refine .ended hactive hbridge ⟨hlane, not_not.mp hgeneration, Bool.eq_false_iff.mpr hend, hbridge record⟩ ?_
        exact quiet_core _ (LaneRecord.core_flushContext _ _ _ _ _)

theorem effect_step (s : VoiceSessionService) (e : VoiceEvent) : Effect s e (step c s e) := by
  cases e with
  | start laneId attachmentGeneration => exact effect_start s laneId attachmentGeneration
  | stop laneId => exact .quiet (quiet_stop s laneId)
  | dispose => exact .quiet (quiet_dispose s)
  | resume i => exact effect_resume s i
  | connected b ok => exact .quiet (quiet_connected s b ok)
  | callback b callback now sent =>
    simp only [step]
    split
    · exact effect_callback c s ‹_› callback now sent
    · exact .quiet (.refl s)
  | noteActivity laneId attachmentGeneration speechStart now sent =>
    exact effect_noteActivity c s laneId attachmentGeneration speechStart now sent
  | injectContext laneId text now sent =>
    simp only [step, injectContext]
    split
    · exact .quiet (.refl s)
    · exact .quiet (quiet_core s (LaneRecord.core_queueContext _ _ _ _ _))
  | setReadingLevel laneId level now sent =>
    simp only [step, setReadingLevel]
    split
    · exact .quiet (.refl s)
    · refine .quiet (quiet_core s ?_)
      rw [LaneRecord.core_queueContext]
      rfl
  | contextTimer record now sent =>
    simp only [step, onContextTimer]
    split
    · refine .quiet (quiet_core s ?_)
      rw [LaneRecord.core_flushContext]
      rfl
    · exact .quiet (.refl s)
  | noteOperatorUtterance laneId text now =>
    simp only [step, noteOperatorUtterance]
    split
    · exact .quiet (.refl s)
    · split
      · exact .quiet (.refl s)
      · exact .quiet (quiet_core s (LaneRecord.core_armStallWatch _ _ _))
  | stallTimer record now =>
    simp only [step, onStallTimer]
    split
    · have hcleared : Quiet s (s.modifyRecord record fun lane => { lane with stallTimer := false }) := quiet_core s rfl
      exact .quiet (hcleared.trans (quiet_runStallCheck _ record now))
    · exact .quiet (.refl s)

/-! ## Every run -/

theorem records_openLane (s : VoiceSessionService) (record : ℕ) (handle : Option JsString) (replays : Option (List JsString)) (r : ℕ) :
    (s.openLane record handle replays).records r =
      if r = record then { s.records record with state := .connecting, bridge := some s.nextBridge } else s.records r := by
  simp only [openLane, modifyRecord, setRecord, Function.update_apply]

theorem bridges_openLane (s : VoiceSessionService) (record : ℕ) (handle : Option JsString) (replays : Option (List JsString)) (b : ℕ) :
    ((s.openLane record handle replays).bridges b).record = if b = s.nextBridge then record else (s.bridges b).record := by
  simp only [openLane, Function.update_apply]
  split <;> rfl

theorem kept_addTranscript (s : VoiceSessionService) (record b : ℕ) (speaker : Speaker) (text : JsString) :
    Kept s (s.addTranscript record b speaker text) := by
  refine ⟨rfl, rfl, rfl, fun _ => rfl, fun r => ?_, fun r => .inl ?_, .inl⟩
  all_goals
    simp only [addTranscript, modifyRecord, setRecord, Function.update_apply]
    split
    · subst r
      cases speaker <;> rfl
    · rfl

theorem kept_flushFinalTranscripts (s : VoiceSessionService) (record : ℕ) (bridge : Option ℕ) : Kept s (s.flushFinalTranscripts record bridge) := by
  refine ⟨rfl, rfl, rfl, fun _ => rfl, fun r => ?_, fun r => .inl ?_, .inl⟩
  all_goals
    simp only [flushFinalTranscripts, modifyRecord, setRecord, Function.update_apply]
    split
    · subst r
      rfl
    · rfl

theorem lanes_openLane (hl : Lanes s) {record : ℕ} (hrecord : record < s.nextRecord) (handle : Option JsString)
    (replays : Option (List JsString)) : Lanes (s.openLane record handle replays) := by
  refine ⟨fun {l r} hget => ?_, fun {r b} hb => ?_, fun {b} hb => ?_, hl.reopening⟩
  · obtain ⟨hlane, hlt⟩ := hl.mapped hget
    refine ⟨?_, hlt⟩
    rw [records_openLane]
    split
    · subst r
      exact hlane
    · exact hlane
  · rw [records_openLane] at hb
    rw [bridges_openLane]
    show b < s.nextBridge + 1 ∧ _
    split at hb
    · cases hb
      exact ⟨Nat.lt_succ_self _, by rw [if_pos rfl]; exact Eq.symm ‹_›⟩
    · obtain ⟨hlt, hsame⟩ := hl.recorded hb
      rw [if_neg (Nat.ne_of_lt hlt)]
      exact ⟨Nat.lt_succ_of_lt hlt, hsame⟩
  · rw [bridges_openLane]
    split
    · exact hrecord
    · exact hl.older (Nat.lt_of_le_of_ne (Nat.le_of_lt_succ hb) ‹_›)

/-- A record for the lane, with no bridge yet. -/
def adopt (s : VoiceSessionService) (laneId : JsString) (attachmentGeneration : ℤ) : VoiceSessionService :=
  { s.setRecord s.nextRecord { laneId, attachmentGeneration } with
    lanes := s.lanes.set laneId s.nextRecord
    nextRecord := s.nextRecord + 1 }

theorem lanes_adopt (hl : Lanes s) (laneId : JsString) (attachmentGeneration : ℤ) :
    Lanes (s.adopt laneId attachmentGeneration) := by
  refine ⟨fun {l r} hget => ?_, fun {r b} hb => ?_, fun hb => Nat.lt_succ_of_lt (hl.older hb), fun hmem => Nat.lt_succ_of_lt (hl.reopening hmem)⟩
  · simp only [adopt, JsMap.get_set] at hget
    simp only [adopt, setRecord, Function.update_apply]
    split at hget
    · cases hget
      rw [if_pos rfl]
      exact ⟨Eq.symm ‹_›, Nat.lt_succ_self _⟩
    · obtain ⟨hlane, hlt⟩ := hl.mapped hget
      rw [if_neg (Nat.ne_of_lt hlt)]
      exact ⟨hlane, Nat.lt_succ_of_lt hlt⟩
  · simp only [adopt, setRecord, Function.update_apply] at hb
    split at hb
    · cases hb
    · exact hl.recorded hb

theorem lanes_createLane (hl : Lanes s) (laneId : JsString) (attachmentGeneration : ℤ) :
    Lanes (s.createLane laneId attachmentGeneration) :=
  lanes_openLane (lanes_adopt hl laneId attachmentGeneration) (Nat.lt_succ_self _) none none

theorem lt_of_reopening (hl : Lanes s) {record : ℕ} {e : VoiceEvent} (h : Reopening s record e) : record < s.nextRecord := by
  cases e with
  | start laneId attachmentGeneration => exact (hl.mapped h.2.1).2
  | resume i =>
    obtain ⟨toReplay, hk⟩ := h
    exact hl.reopening (List.mem_of_getElem? hk)
  | _ => cases h

theorem lanes_effect {e : VoiceEvent} (hl : Lanes s) (h : Effect s e s') : Lanes s' := by
  cases h with
  | quiet h => exact lanes_kept hl h.toKept
  | opened handle replays h _ hwhy => exact lanes_openLane (lanes_kept hl h.toKept) (h.nextRecord ▸ lt_of_reopening hl hwhy) handle replays
  | @created t lanes laneId attachmentGeneration h hsub _ =>
    have hl' := lanes_kept hl h.toKept
    have hsmaller : Lanes { t with lanes } := ⟨fun hget => hl'.mapped (hsub hget), hl'.recorded, hl'.older, hl'.reopening⟩
    exact lanes_createLane hsmaller laneId attachmentGeneration
  | said h _ _ _ => exact lanes_kept hl (h.toKept.trans (kept_addTranscript _ _ _ _ _))
  | ended h _ _ h' => exact lanes_kept hl ((h.toKept.trans (kept_flushFinalTranscripts _ _ _)).trans h'.toKept)

end VoiceSessionService

end PiWebUi.Voice
