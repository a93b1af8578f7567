/-
  PiWebUi.Voice.Transcripts — a final transcript is what was said since the one before it.

  In every run whose steps are `KeepsWords` each final transcript is of a provider session
  (a bridge), its text is the deltas of that session and speaker since the speaker's last
  final, and no delta is left when its session comes to a boundary (`transcripts_exact`).
-/

import PiWebUi.Lib.Run
import PiWebUi.Voice.Lanes

namespace PiWebUi.Voice

open Lib List Option

/-! ## What was said in a session since the speaker's last final -/

def addWords (b : ℕ) (speaker : Speaker) (words : JsString) : Entry → JsString
  | .delta _ bridge sp text => if bridge = b ∧ sp = speaker then words ++ text else words
  | .final _ bridge sp _ => if bridge = some b ∧ sp = speaker then [] else words
  | .boundary _ _ => words

def words (b : ℕ) (speaker : Speaker) (log : List Entry) : JsString := log.foldl (addWords b speaker) []

/-- What an entry owes to the ones before it. -/
def Entry.Right (before : List Entry) : Entry → Prop
  | .delta _ _ _ _ => True
  | .final _ bridge speaker text => ∃ b, bridge = some b ∧ text = words b speaker before
  | .boundary _ b => ∀ speaker, words b speaker before = []

def Exact (log : List Entry) : Prop := ∀ before entry after, log = before ++ entry :: after → entry.Right before

theorem words_append (b : ℕ) (speaker : Speaker) (log more : List Entry) :
    words b speaker (log ++ more) = more.foldl (addWords b speaker) (words b speaker log) := foldl_append

theorem words_concat (b : ℕ) (speaker : Speaker) (log : List Entry) (entry : Entry) :
    words b speaker (log ++ [entry]) = addWords b speaker (words b speaker log) entry := by
  rw [words_append, foldl_cons, foldl_nil]

theorem exact_nil : Exact [] := by
  intro before entry after h
  simp at h

theorem exact_concat {log : List Entry} {entry : Entry} (h : Exact log) (hentry : entry.Right log) : Exact (log ++ [entry]) := by
  intro before e after hsplit
  rcases eq_nil_or_concat after with hafter | ⟨rest, last, hafter⟩
  · subst hafter
    obtain ⟨rfl, rfl⟩ := append_inj' hsplit rfl |>.imp id fun h => singleton_inj.mp h
    exact hentry
  · subst hafter
    have hprefix : log = before ++ e :: rest := by
      have hlast : log ++ [entry] = (before ++ e :: rest) ++ [last] := by simp [hsplit]
      exact (append_inj' hlast rfl).1
    exact h before e rest hprefix

namespace LaneRecord

theorem partialOf_of_silent {lane : LaneRecord} (h : lane.silent = true) (speaker : Speaker) : lane.partialOf speaker = [] := by
  simp only [silent, Bool.and_eq_true, decide_eq_true_eq] at h
  cases speaker
  · exact h.1
  · exact h.2

theorem partialOf_addPartial (lane : LaneRecord) (text : JsString) (sp speaker : Speaker) :
    (lane.addPartial text sp).partialOf speaker = if sp = speaker then lane.partialOf speaker ++ text else lane.partialOf speaker := by
  cases sp <;> cases speaker <;> rfl

end LaneRecord

namespace VoiceSessionService

variable (c : ℤ)

/-- The condition of `transcripts_exact`. -/
def keepsWords (s : VoiceSessionService) : VoiceEvent → Bool
  | .start laneId attachmentGeneration =>
    s.disposed || (s.lanes.get laneId).all fun record =>
      let lane := s.records record
      lane.attachmentGeneration ≠ attachmentGeneration || !reopens lane || lane.silent
  | .resume i =>
    match s.continuations[i]? with
    | some (.reopen record _) => (s.records record).silent
    | _ => true
  | .callback b (.onInputTranscription text) _ _ | .callback b (.onOutputTranscription text) _ _ => text = [] || s.isCurrent b
  | .callback b .onTurnComplete _ _ | .callback b .onInterrupted _ _ => s.isCurrent b || (s.records (s.bridges b).record).silent
  | .noteActivity laneId attachmentGeneration speechStart _ _ =>
    speechStart || (s.lanes.get laneId).all fun record =>
      let lane := s.records record
      lane.attachmentGeneration ≠ attachmentGeneration || lane.bridge.isSome || lane.silent
  | _ => true

/-! ## The partial transcripts of the lanes and the words of the log -/

structure Spoken (s : VoiceSessionService) : Prop where
  fresh : ∀ {b}, s.nextBridge ≤ b → ∀ speaker, words b speaker s.log = []
  current : ∀ {r b}, (s.records r).bridge = some b → ∀ speaker, words b speaker s.log = (s.records r).partialOf speaker
  old : ∀ {b}, b < s.nextBridge → (s.records (s.bridges b).record).bridge ≠ some b → ∀ speaker,
    (s.records (s.bridges b).record).bridge ≠ none ∨ (s.records (s.bridges b).record).partialOf speaker = [] → words b speaker s.log = []
  exact : Exact s.log

theorem spoken_new : Spoken new where
  fresh := fun _ _ => rfl
  current := nofun
  old := fun h => absurd h (Nat.not_lt_zero _)
  exact := exact_nil

variable {s : VoiceSessionService} {e : VoiceEvent}

theorem spoken_quiet {s' : VoiceSessionService} (hs : Spoken s) (h : Quiet s s') : Spoken s' := by
  refine ⟨fun hb => ?_, fun hb speaker => ?_, fun {b} hb hne speaker hcase => ?_, h.log ▸ hs.exact⟩
  · rw [h.nextBridge] at hb
    rw [h.log]
    exact hs.fresh hb
  · rw [h.log, h.partialOf]
    exact hs.current (h.bridge_some hb) speaker
  · rw [h.nextBridge] at hb
    rw [h.record] at hne hcase
    rw [h.partialOf] at hcase
    rw [h.log]
    by_cases hwas : (s.records (s.bridges b).record).bridge = some b
    · -- it was let go of in this step
      rcases h.bridge (s.bridges b).record with hsame | hnone
      · exact absurd (hsame.trans hwas) hne
      · rcases hcase with hsome | hempty
        · exact absurd hnone hsome
        · rw [hs.current hwas, hempty]
    · refine hs.old hb hwas speaker (hcase.imp_left fun hsome hnone => ?_)
      rcases h.bridge (s.bridges b).record with hsame | hgone
      · exact hsome (hsame.trans hnone)
      · exact hsome hgone

/-- A lane without words has none of its sessions left. -/
theorem Spoken.of_silent (hs : Spoken s) {b : ℕ} (hb : b < s.nextBridge) (hsilent : (s.records (s.bridges b).record).silent = true)
    (speaker : Speaker) : words b speaker s.log = [] := by
  have hempty := LaneRecord.partialOf_of_silent hsilent speaker
  by_cases hcurrent : (s.records (s.bridges b).record).bridge = some b
  · rw [hs.current hcurrent, hempty]
  · exact hs.old hb hcurrent speaker (.inr hempty)

/-! ## Opening a lane -/

/-- Only with no words of an earlier session in its partial transcripts. -/
theorem spoken_openLane (hs : Spoken s) {record : ℕ} (hsilent : (s.records record).silent = true)
    (handle : Option JsString) (replays : Option (List JsString)) : Spoken (s.openLane record handle replays) := by
  refine ⟨fun {b} hb speaker => ?_, fun {r b} hb speaker => ?_, fun {b} hb hne speaker hcase => ?_, hs.exact⟩
  · exact hs.fresh (Nat.le_of_succ_le hb) speaker
  · rw [records_openLane] at hb ⊢
    split at hb
    · cases hb
      rw [if_pos ‹_›]
      refine (hs.fresh (Nat.le_refl _) speaker).trans ?_
      cases speaker
      · exact (LaneRecord.partialOf_of_silent hsilent .operator).symm
      · exact (LaneRecord.partialOf_of_silent hsilent .talker).symm
    · rw [if_neg ‹_›]
      exact hs.current hb speaker
  · rw [bridges_openLane] at hne hcase
    split at hne
    · rename_i hnew
      rw [records_openLane, if_pos rfl] at hne
      exact absurd (congrArg some hnew.symm) hne
    · have hb : b < s.nextBridge := Nat.lt_of_le_of_ne (Nat.le_of_lt_succ hb) ‹_›
      rw [if_neg ‹_›] at hcase
      by_cases hr : (s.bridges b).record = record
      · exact hs.of_silent hb (hr ▸ hsilent) speaker
      · rw [records_openLane, if_neg hr] at hne hcase
        exact hs.old hb hne speaker hcase

theorem spoken_createLane (hl : Lanes s) (hs : Spoken s) (laneId : JsString) (attachmentGeneration : ℤ) :
    Spoken (s.createLane laneId attachmentGeneration) := by
  refine spoken_openLane ?_ ?_ none none
  · refine ⟨hs.fresh, fun {r b} hb => ?_, fun {b} hb hne => ?_, hs.exact⟩
    · simp only [setRecord, Function.update_apply] at hb ⊢
      split at hb
      · cases hb
      · rw [if_neg ‹_›]
        exact hs.current hb
    · have hnew : (s.bridges b).record ≠ s.nextRecord := Nat.ne_of_lt (hl.older hb)
      simp only [setRecord, Function.update_of_ne hnew] at hne ⊢
      exact hs.old hb hne
  · simp [setRecord, LaneRecord.silent]

/-! ## What is said -/

theorem spoken_addTranscript (hl : Lanes s) (hs : Spoken s) {b : ℕ} {text : JsString}
    (h : text = [] ∨ (s.records (s.bridges b).record).bridge = some b) (speaker : Speaker) :
    Spoken (s.addTranscript (s.bridges b).record b speaker text) := by
  have hrecords : ∀ r, (s.addTranscript (s.bridges b).record b speaker text).records r =
      if r = (s.bridges b).record then (s.records (s.bridges b).record).addPartial text speaker else s.records r := by
    intro r
    simp only [addTranscript, modifyRecord, setRecord, Function.update_apply]
  have hbridges : ∀ r, ((s.addTranscript (s.bridges b).record b speaker text).records r).bridge = (s.records r).bridge := by
    intro r
    rw [hrecords]
    split
    · subst r
      exact LaneRecord.bridge_addPartial _ _ _
    · rfl
  -- an empty delta changes neither side
  have hwords : ∀ b' sp, words b' sp (s.addTranscript (s.bridges b).record b speaker text).log =
      if b = b' ∧ speaker = sp then words b' sp s.log ++ text else words b' sp s.log := fun b' sp => words_concat b' sp s.log _
  have hother : ∀ b' sp, text = [] ∨ b' ≠ b → words b' sp (s.addTranscript (s.bridges b).record b speaker text).log = words b' sp s.log := by
    intro b' sp hcase
    rw [hwords]
    split
    · rename_i hsame
      rcases hcase with htext | hne
      · rw [htext, append_nil]
      · exact absurd hsame.1.symm hne
    · rfl
  refine ⟨fun {b'} hb' sp => ?_, fun {r b'} hb' sp => ?_, fun {b'} hb' hne sp hcase => ?_, exact_concat hs.exact trivial⟩
  · refine (hother b' sp (h.imp_right fun hcurrent hsame => ?_)).trans (hs.fresh hb' sp)
    exact absurd (hsame ▸ (hl.recorded hcurrent).1) (Nat.not_lt.mpr hb')
  · rw [hbridges] at hb'
    rw [hwords, hrecords, hs.current hb' sp]
    by_cases hr : r = (s.bridges b).record
    · subst hr
      rw [if_pos rfl, LaneRecord.partialOf_addPartial]
      rcases h with htext | hcurrent
      · simp [htext]
      · have hsame : b = b' := some.inj (hcurrent.symm.trans hb')
        simp only [hsame, true_and]
    · rw [if_neg hr, if_neg]
      rintro ⟨hsame, _⟩
      exact hr (hsame ▸ (hl.recorded hb').2.symm)
  · change ((s.addTranscript (s.bridges b).record b speaker text).records (s.bridges b').record).bridge ≠ some b' at hne
    change ((s.addTranscript (s.bridges b).record b speaker text).records (s.bridges b').record).bridge ≠ none ∨
      ((s.addTranscript (s.bridges b).record b speaker text).records (s.bridges b').record).partialOf sp = [] at hcase
    rw [hbridges] at hne hcase
    refine (hother b' sp (h.imp_right fun hcurrent hsame => ?_)).trans (hs.old hb' hne sp (hcase.imp_right fun hempty => ?_))
    · subst hsame
      exact hne hcurrent
    · rw [hrecords] at hempty
      split at hempty
      · rename_i hr
        rw [LaneRecord.partialOf_addPartial] at hempty
        rw [hr]
        split at hempty
        · exact (append_eq_nil_iff.mp hempty).1
        · exact hempty
      · exact hempty

/-! ## What ends an utterance -/

/-- The final transcripts of a lane take its words out of the log. -/
theorem words_finals (b : ℕ) (speaker : Speaker) (record : ℕ) (lane : LaneRecord) (log : List Entry) :
    words b speaker (log ++ finals record lane) = if lane.bridge = some b ∧ lane.partialOf speaker ≠ [] then [] else words b speaker log := by
  unfold finals
  by_cases ho : lane.operatorPartial = [] <;> by_cases ht : lane.talkerPartial = [] <;> cases speaker <;> by_cases hb : lane.bridge = some b <;>
    simp [words_append, addWords, LaneRecord.partialOf, ho, ht, hb]

theorem exact_finals {log : List Entry} {record : ℕ} {lane : LaneRecord} (h : Exact log) (hsession : lane.silent = true ∨ ∃ b, lane.bridge = some b ∧
    ∀ speaker, words b speaker log = lane.partialOf speaker) : Exact (log ++ finals record lane) := by
  rcases hsession with hsilent | ⟨b, hbridge, hwords⟩
  · have ho : lane.operatorPartial = [] := LaneRecord.partialOf_of_silent hsilent .operator
    have ht : lane.talkerPartial = [] := LaneRecord.partialOf_of_silent hsilent .talker
    simpa [finals, ho, ht] using h
  · have hoperator : Exact (log ++ if lane.operatorPartial ≠ [] then [.final record lane.bridge .operator lane.operatorPartial] else []) := by
      split
      · exact exact_concat h ⟨b, hbridge, (hwords .operator).symm⟩
      · simpa using h
    have htalker : words b .talker (log ++ if lane.operatorPartial ≠ [] then [.final record lane.bridge .operator lane.operatorPartial] else []) =
        lane.talkerPartial := by
      refine Eq.trans ?_ (hwords .talker)
      split
      · simp [words_concat, addWords]
      · rw [append_nil]
    unfold finals
    rw [← append_assoc]
    by_cases ht : lane.talkerPartial = []
    · rw [if_neg (not_not_intro ht), append_nil]
      exact hoperator
    · rw [if_pos ht]
      exact exact_concat hoperator ⟨b, hbridge, htalker.symm⟩

theorem spoken_flushFinalTranscripts (hl : Lanes s) (hs : Spoken s) {record : ℕ} {bridge : Option ℕ}
    (hbridge : ∀ b, bridge = some b → b < s.nextBridge ∧ (s.bridges b).record = record)
    (h : (s.records record).silent = true ∨ bridge ≠ none ∧ bridge = (s.records record).bridge) : Spoken (s.flushFinalTranscripts record bridge) := by
  have hrecords : ∀ r, (s.flushFinalTranscripts record bridge).records r =
      if r = record then { s.records record with operatorPartial := [], talkerPartial := [] } else s.records r := by
    intro r
    simp only [flushFinalTranscripts, modifyRecord, setRecord, Function.update_apply]
  have hkept : ∀ r, ((s.flushFinalTranscripts record bridge).records r).bridge = (s.records r).bridge := by
    intro r
    rw [hrecords]
    split
    · subst r
      rfl
    · rfl
  have hwords : ∀ b speaker, words b speaker (s.flushFinalTranscripts record bridge).log =
      if (s.records record).bridge = some b ∧ (s.records record).partialOf speaker ≠ [] then [] else words b speaker s.log := by
    intro b speaker
    rw [← words_finals b speaker record]
    cases bridge with
    | none => simp [flushFinalTranscripts]
    | some b' => exact words_concat b speaker (s.log ++ finals record (s.records record)) (.boundary record b')
  -- the words of the lane's session are out of the log
  have hcurrent : ∀ {b}, (s.records record).bridge = some b → ∀ speaker, words b speaker (s.flushFinalTranscripts record bridge).log = [] := by
    intro b hb speaker
    rw [hwords]
    split
    · rfl
    · rename_i hnot
      rw [hs.current hb]
      by_contra hne
      exact hnot ⟨hb, hne⟩
  refine ⟨fun {b} hb speaker => ?_, fun {r b} hb speaker => ?_, fun {b} hb hne speaker hcase => ?_, ?_⟩
  · rw [hwords]
    split
    · rfl
    · exact hs.fresh hb speaker
  · rw [hkept] at hb
    by_cases hr : r = record
    · subst hr
      rw [hcurrent hb, hrecords, if_pos rfl]
      cases speaker <;> rfl
    · rw [hwords, hrecords, if_neg hr, if_neg]
      · exact hs.current hb speaker
      · rintro ⟨hsame, _⟩
        exact hr ((hl.recorded hb).2.symm.trans (hl.recorded hsame).2)
  · change ((s.flushFinalTranscripts record bridge).records (s.bridges b).record).bridge ≠ some b at hne
    change ((s.flushFinalTranscripts record bridge).records (s.bridges b).record).bridge ≠ none ∨
      ((s.flushFinalTranscripts record bridge).records (s.bridges b).record).partialOf speaker = [] at hcase
    rw [hkept] at hne hcase
    rw [hwords]
    split
    · rfl
    · refine hs.old hb hne speaker ?_
      rw [hrecords] at hcase
      split at hcase
      · rename_i hr
        -- a lane without a session has no words when it is flushed
        rcases hcase with hsome | _
        · exact .inl hsome
        · rcases h with hsilent | ⟨hsome, heq⟩
          · exact .inr (hr ▸ LaneRecord.partialOf_of_silent hsilent speaker)
          · exact .inl (hr ▸ heq ▸ hsome)
      · exact hcase
  · have hexact : Exact (s.log ++ finals record (s.records record)) := by
      refine exact_finals hs.exact (h.imp_right fun hsession => ?_)
      obtain ⟨b, hb⟩ := ne_none_iff_exists'.mp hsession.1
      exact ⟨b, hsession.2 ▸ hb, hs.current (hsession.2 ▸ hb)⟩
    cases bridge with
    | none => simpa [flushFinalTranscripts] using hexact
    | some b =>
      refine exact_concat hexact fun speaker => ?_
      have hlog : words b speaker (s.flushFinalTranscripts record (some b)).log = words b speaker (s.log ++ finals record (s.records record)) :=
        words_concat b speaker (s.log ++ finals record (s.records record)) (.boundary record b)
      rw [← hlog]
      rcases h with hsilent | ⟨_, heq⟩
      · obtain ⟨hb, hr⟩ := hbridge b rfl
        rw [hwords]
        split
        · rfl
        · exact hs.of_silent hb (hr ▸ hsilent) speaker
      · exact hcurrent heq.symm speaker

/-! ## Every step -/

theorem silent_of_reopening (hc : s.keepsWords e = true) {record : ℕ} (h : Reopening s record e) :
    (s.records record).silent = true := by
  cases e with
  | start laneId attachmentGeneration =>
    obtain ⟨hdisposed, hlane, hgeneration, hreopens⟩ := h
    simpa [keepsWords, hdisposed, hlane, hgeneration, hreopens] using hc
  | resume i =>
    obtain ⟨toReplay, hk⟩ := h
    simpa [keepsWords, hk] using hc
  | _ => cases h

theorem current_of_saying (hc : s.keepsWords e = true) {b : ℕ} {text : JsString} {speaker : Speaker}
    (h : Saying b text speaker e) : text = [] ∨ (s.records (s.bridges b).record).bridge = some b := by
  cases e with
  | callback bridge callback now sent =>
    cases speaker <;> cases callback <;>
      first
      | cases h; done
      | (obtain ⟨rfl, rfl⟩ := h
         simpa [keepsWords, isCurrent] using hc)
  | _ => cases speaker <;> cases h

theorem held_of_ending (hl : Lanes s) (hc : s.keepsWords e = true) {record : ℕ} {bridge : Option ℕ}
    (h : Ending s record bridge e) : (∀ b, bridge = some b → b < s.nextBridge ∧ (s.bridges b).record = record) ∧
      ((s.records record).silent = true ∨ bridge ≠ none ∧ bridge = (s.records record).bridge) := by
  cases e with
  | callback b callback now sent =>
    have hending : b < s.nextBridge ∧ (s.bridges b).record = record ∧ bridge = some b ∧ (s.isCurrent b || (s.records (s.bridges b).record).silent) = true := by
      cases callback with
      | onTurnComplete | onInterrupted => exact ⟨h.1, h.2.1, h.2.2, hc⟩
      | _ => cases h
    obtain ⟨hb, rfl, rfl, hcase⟩ := hending
    refine ⟨fun b' hb' => some.inj hb' ▸ ⟨hb, rfl⟩, ?_⟩
    rcases Bool.or_eq_true _ _ ▸ hcase with hcurrent | hsilent
    · exact .inr ⟨some_ne_none b, (of_decide_eq_true hcurrent).symm⟩
    · exact .inl hsilent
  | noteActivity laneId attachmentGeneration speechStart now sent =>
    obtain ⟨hlane, hgeneration, rfl, rfl⟩ := h
    refine ⟨fun b hb => hl.recorded hb, ?_⟩
    simp only [keepsWords, Bool.false_or, hlane, all_some, hgeneration, ne_eq, not_true, decide_false, Bool.or_eq_true] at hc
    rcases hc with hsome | hsilent
    · exact .inr ⟨isSome_iff_ne_none.mp hsome, rfl⟩
    · exact .inl hsilent
  | _ => cases h

theorem spoken_effect {s' : VoiceSessionService} (hl : Lanes s) (hs : Spoken s) (hc : s.keepsWords e = true) (h : Effect s e s') :
    Spoken s' := by
  have hsilent : ∀ {t record}, Quiet s t → (s.records record).silent = true → (t.records record).silent = true := by
    intro t record hquiet hsilent
    have hoperator := hquiet.partialOf record .operator
    have htalker := hquiet.partialOf record .talker
    rw [LaneRecord.partialOf_of_silent hsilent] at hoperator htalker
    exact (Bool.and_eq_true _ _).mpr ⟨decide_eq_true hoperator, decide_eq_true htalker⟩
  cases h with
  | quiet h => exact spoken_quiet hs h
  | opened handle replays h _ hwhy => exact spoken_openLane (spoken_quiet hs h) (hsilent h (silent_of_reopening hc hwhy)) handle replays
  | @created t lanes laneId attachmentGeneration h hsub _ =>
    have hl' := lanes_kept hl h.toKept
    have hs' := spoken_quiet hs h
    have hlanes : Lanes { t with lanes } := ⟨fun hget => hl'.mapped (hsub hget), hl'.recorded, hl'.older, hl'.reopening⟩
    exact spoken_createLane hlanes ⟨hs'.fresh, hs'.current, hs'.old, hs'.exact⟩ laneId attachmentGeneration
  | @said t b speaker text h hbridge hb hwhy =>
    have hcurrent := current_of_saying hc hwhy
    rw [← hbridge] at hcurrent
    rw [← h.record] at hcurrent ⊢
    exact spoken_addTranscript (lanes_kept hl h.toKept) (spoken_quiet hs h) hcurrent speaker
  | @ended t u record bridge h hbridge hwhy h' =>
    obtain ⟨hrecord, hheld⟩ := held_of_ending hl hc hwhy
    have hflush : Spoken (t.flushFinalTranscripts record bridge) := by
      refine spoken_flushFinalTranscripts (lanes_kept hl h.toKept) (spoken_quiet hs h) (fun b hb => ?_) ?_
      · rw [h.nextBridge, h.record]
        exact hrecord b hb
      · rw [hbridge]
        exact hheld.imp_left (hsilent h)
    exact spoken_quiet hflush h'

theorem transcripts_exact {es : List VoiceEvent} (h : Run.Along (step c) (fun s e => s.keepsWords e = true) new es) :
    Exact (es.foldl (step c) new).log := by
  have hinv : Lanes (es.foldl (step c) new) ∧ Spoken (es.foldl (step c) new) := by
    refine Run.invariant (I := fun s => Lanes s ∧ Spoken s) (fun s e hi hc => ?_) ⟨lanes_new, spoken_new⟩ h
    have heffect := effect_step c s e
    exact ⟨lanes_effect hi.1 heffect, spoken_effect hi.1 hi.2 hc heffect⟩
  exact hinv.2.exact

/-- A lane that is started, heard, and stopped. -/
def heard (text : JsString) : List VoiceEvent :=
  [.start (js "lane-1") 1, .connected 0 true, .callback 0 (.onState .live none) 0 true,
    .noteActivity (js "lane-1") 1 true 0 true, .callback 0 (.onInputTranscription text) 0 true]

/-- It is answered before it is stopped, and then started again. -/
def answered : List VoiceEvent :=
  heard (js "yes") ++ [.noteActivity (js "lane-1") 1 false 0 true, .callback 0 (.onOutputTranscription (js "done")) 0 true,
    .callback 0 .onTurnComplete 0 true, .stop (js "lane-1"), .start (js "lane-1") 1]

theorem transcripts_exact_answered : Exact (answered.foldl (step 0) new).log := transcripts_exact 0 (by decide +kernel)

/-- The operator is stopped in the middle of an utterance, and confirms with it after the restart. -/
theorem words_of_before : ∃ (contextCoalesceMs : ℤ) (es : List VoiceEvent), ¬ Exact (es.foldl (step contextCoalesceMs) new).log := by
  refine ⟨0, heard (js "yes") ++ [.stop (js "lane-1"), .start (js "lane-1") 1, .connected 1 true, .callback 1 (.onState .live none) 0 true,
    .callback 1 (.onInputTranscription (js " wait")) 0 true, .noteActivity (js "lane-1") 1 false 0 true], fun h => ?_⟩
  have hfinal := h [.delta 0 0 .operator (js "yes"), .delta 0 1 .operator (js " wait")] (.final 0 (some 1) .operator (js "yes wait")) [.boundary 0 1]
    (by decide +kernel)
  obtain ⟨b, hb, htext⟩ := hfinal
  obtain rfl := some.inj hb
  revert htext
  decide +kernel

end VoiceSessionService

end PiWebUi.Voice
