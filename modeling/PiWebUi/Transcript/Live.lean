/-
  PiWebUi.Transcript.Live — the same events handled live and replayed.

  The live handlers and the fold read a session's events alike except where they differ:
  the ids made up for a message or a tool without one, the role of a message without one,
  the name of a tool without one, an id a tool already has, which copy of a reused id an
  update is for, every row of an id against the first, a tool's end without a result, and
  `message_end`, which fills empty blocks only live (`a_filled_end`).
-/

import PiWebUi.Transcript.Projections
import PiWebUi.Transcript.Chunks
import PiWebUi.Lib.Run

namespace PiWebUi.Transcript

open PiWebUi.Lib PiWebUi.Lib.JsNumber List

/-! ## What is compared -/

/-- What a reader sees of a row. -/
structure ShownRow where
  id : JsString
  role : Option JsString
  content : Content
  toolCall : Option ToolCall
  toolResult : Option ToolResult
  deriving DecidableEq

def shown (m : Message) : ShownRow := ⟨m.id, m.role, m.content, m.toolCall, m.toolResult⟩

/-- A change to a row that is the same for rows that look the same. -/
def Respects (f : Message → Message) : Prop := ∀ m m', shown m = shown m' → shown (f m) = shown (f m')

theorem respects_onDelta (e : Option AssistantEvent) : Respects (onDelta e) := by
  intro m m' h
  simp only [shown, ShownRow.mk.injEq] at h
  obtain ⟨hid, hrole, hcontent, hcall, hresult⟩ := h
  rw [onDelta, onDelta, hcontent]
  cases e.bind (appendDelta m'.content) <;> simp [shown, hid, hrole, hcontent, hcall, hresult]

theorem respects_onToolEnd (raw : ToolFields) (result : ResultValue) (isError : Bool) :
    Respects (onToolEnd raw result isError) := by
  intro m m' h
  simp only [shown, ShownRow.mk.injEq] at h
  obtain ⟨hid, hrole, hcontent, hcall, hresult⟩ := h
  simp only [onToolEnd, hrole]
  split <;> simp [shown, hid, hrole, hcontent, hcall, hresult]

variable {ms rows : List Message}

theorem shown_updateAt (h : rows.map shown = ms.map shown) (i : Option ℕ) {f : Message → Message}
    (hf : Respects f) : (updateAt rows i f).map shown = (updateAt ms i f).map shown := by
  refine ext_getElem? fun k => ?_
  have hk := congrArg (·[k]?) h
  simp only [getElem?_map] at hk ⊢
  by_cases hi : i = some k
  · subst hi
    rw [getElem?_updateAt_same, getElem?_updateAt_same]
    cases hr : rows[k]? with
    | none =>
      cases hm : ms[k]? with
      | none => rfl
      | some m => rw [hr, hm] at hk; cases hk
    | some r =>
      cases hm : ms[k]? with
      | none => rw [hr, hm] at hk; cases hk
      | some m =>
        rw [hr, hm] at hk
        exact congrArg some (hf r m (Option.some.inj hk))
  · rw [getElem?_updateAt_ne rows hi, getElem?_updateAt_ne ms hi]
    exact hk

theorem shown_at (h : rows.map shown = ms.map shown) {i : ℕ} {m : Message} (hm : rows[i]? = some m) :
    ∃ r, ms[i]? = some r ∧ shown m = shown r := by
  have hi := congrArg (·[i]?) h
  simp only [getElem?_map, hm, Option.map_some] at hi
  obtain ⟨r, hr, heq⟩ := Option.map_eq_some_iff.mp hi.symm
  exact ⟨r, hr, heq.symm⟩

theorem ids_of_shown (h : rows.map shown = ms.map shown) : rows.map (·.id) = ms.map (·.id) := by
  have := congrArg (List.map ShownRow.id) h
  simpa [List.map_map, shown, Function.comp_def] using this

theorem storageIdIndex_of_mem {messages : List Message} {id : JsString} (h : id ∈ messages.map (·.id)) :
    ∃ i, storageIdIndex messages id = some i := by
  obtain ⟨m, hm, rfl⟩ := mem_map.mp h
  refine Option.isSome_iff_exists.mp ?_
  rw [storageIdIndex, findIdx?_isSome, any_eq_true]
  exact ⟨m, hm, decide_eq_true rfl⟩

theorem storageIdIndex_congr (h : rows.map (·.id) = ms.map (·.id)) (id : JsString) :
    storageIdIndex rows id = storageIdIndex ms id := by
  have hmap : ∀ xs : List Message, storageIdIndex xs id = (xs.map (·.id)).findIdx? (· = id) := by
    intro xs
    rw [findIdx?_map]
    rfl
  rw [hmap, hmap, h]

/-! ## One row of an id -/

/-- At most one row has the id. -/
def OneRow (rows : List Message) (id : JsString) : Prop := (rows.map (·.id)).count id ≤ 1

instance (rows : List Message) (id : JsString) : Decidable (OneRow rows id) :=
  inferInstanceAs (Decidable ((rows.map (·.id)).count id ≤ 1))

/-- Where one row has the id, replacing all of it is updating the first. -/
theorem replaceById_one {id : JsString} (h : OneRow rows id) (u : Updates) :
    (replaceById rows id u).getD rows = updateAt rows (storageIdIndex rows id) u.apply := by
  induction rows with
  | nil => rfl
  | cons m rows ih =>
    by_cases hm : m.id = id
    · have hrest : ∀ r ∈ rows, r.id ≠ id := by
        intro r hr heq
        have hmem : id ∈ rows.map (·.id) := mem_map.mpr ⟨r, hr, heq⟩
        have hpos := count_pos_iff.mpr hmem
        simp only [OneRow, map_cons, hm, count_cons_self] at h
        omega
      have hindex : storageIdIndex (m :: rows) id = some 0 := by
        simp [storageIdIndex, findIdx?_cons, hm]
      have hkeep : rows.map (fun r => if r.id = id then u.apply m else r) = rows :=
        (map_congr_left fun r hr => if_neg (hrest r hr)).trans (List.map_id _)
      rw [hindex]
      simp only [replaceById, find?_cons, hm, decide_true, Option.map_some, Option.getD_some, map_cons, if_true,
        hkeep]
      rfl
    · have hone : OneRow rows id := by
        simp only [OneRow, map_cons, count_cons] at h ⊢
        omega
      have hindex : storageIdIndex (m :: rows) id = (storageIdIndex rows id).map (· + 1) := by
        simp [storageIdIndex, findIdx?_cons, hm]
      have hfind : (m :: rows).find? (·.id = id) = rows.find? (·.id = id) := by simp [hm]
      have hstep : (replaceById (m :: rows) id u).getD (m :: rows) = m :: (replaceById rows id u).getD rows := by
        simp only [replaceById, hfind]
        cases rows.find? (·.id = id) with
        | none => rfl
        | some p => simp [hm]
      rw [hstep, ih hone, hindex]
      cases storageIdIndex rows id <;> rfl

theorem find?_storageIdIndex {id : JsString} : rows.find? (·.id = id) = (storageIdIndex rows id).bind (rows[·]?) := by
  induction rows with
  | nil => rfl
  | cons m rows ih =>
    by_cases hm : m.id = id
    · simp [storageIdIndex, findIdx?_cons, hm]
    · have hindex : storageIdIndex (m :: rows) id = (storageIdIndex rows id).map (· + 1) := by
        simp [storageIdIndex, findIdx?_cons, hm]
      rw [find?_cons_of_neg (by simp [hm]), ih, hindex]
      cases storageIdIndex rows id <;> simp

/-! ## The live rows -/

/-- The session's data has these rows, and they are visible if it is current. -/
structure LiveRows (sid : SessionId) (rows : List Message) (s : Store) : Prop where
  data : (s.sessionData sid).getD [] = rows
  visible : s.currentSessionId = some sid → s.messages = rows

section

variable {c : Clock} {sid : SessionId} {rows : List Message} {s : Store}

theorem LiveRows.tracked (h : LiveRows sid rows s) (t : SessionId → TrackedIds) : LiveRows sid rows { s with tracked := t } :=
  ⟨h.data, h.visible⟩

theorem Uniform.liveRows {ms : List Message} (h : Uniform sid ms s) : LiveRows sid ms s :=
  ⟨by rw [h.data, Option.getD_some], h.visible⟩

theorem LiveRows.add (h : LiveRows sid rows s) (m : Message) : LiveRows sid (rows ++ [m]) (addMessageToSession c sid m s) := by
  have hbase : (if s.currentSessionId = some sid ∧ s.messages ≠ [] then s.messages else (s.sessionData sid).getD []) = rows := by
    split
    · next hc => exact h.visible hc.1
    · exact h.data
  simp only [addMessageToSession, hbase]
  exact (uniform_writeSession c sid _ s).liveRows

theorem LiveRows.update (h : LiveRows sid rows s) (id : JsString) (u : Updates) :
    LiveRows sid ((replaceById rows id u).getD rows) (updateMessageInSession c sid id u s) := by
  cases hd : s.sessionData sid with
  | none =>
    have hnil : rows = [] := by rw [← h.data, hd]; rfl
    subst hnil
    simp only [updateMessageInSession, hd]
    exact h
  | some existing =>
    have hex : existing = rows := by rw [← h.data, hd]; rfl
    subst hex
    have hbase : (if s.currentSessionId = some sid ∧ s.messages.any (·.id = id) then s.messages else existing) = existing := by
      split
      · next hc => exact h.visible hc.1
      · rfl
    simp only [updateMessageInSession, hd, hbase]
    cases replaceById existing id u with
    | none => exact h
    | some ms => exact (uniform_writeSession c sid ms s).liveRows

theorem tracked_updateMessageInSession (id : JsString) (u : Updates) :
    (updateMessageInSession c sid id u s).tracked = s.tracked := by
  unfold updateMessageInSession
  split
  · rfl
  · simp only
    split <;> rfl

end

/-! ## Both at once -/

/-- The store and the fold take an event. -/
def stepLive (sid : SessionId) (now : ℕ) (p : Store × FoldState OtherEvent) (e : Clock × Event) : Store × FoldState OtherEvent :=
  (handleSessionEvent e.1 sid p.1 (.event e.2), foldStep now p.2 (.event e.2))

def isDelta : Option AssistantEvent → Bool
  | some ⟨.textDelta, some _⟩ | some ⟨.thinkingDelta, some _⟩ => true
  | _ => false

/-- The message an update without an id is for: the one under way; after its end the fold
    takes the last assistant row, the live handler stays with the message started last. -/
def SameUntracked (ids : TrackedIds) (f : FoldState OtherEvent) : Prop :=
  f.activeMessageId = none → ∀ id ∈ ids.stored, latestAssistantMessage f.messages = storageIdIndex f.messages id

/-- What an event must meet to be read alike. -/
def ReadsAlike (sid : SessionId) (p : Store × FoldState OtherEvent) (e : Clock × Event) : Prop :=
  match e.2 with
  | .messageStart message =>
    ∃ wireId role, truthy message.id = some wireId ∧ message.role = some role ∧
      storageIdForStart p.2 wireId ∉ p.2.messages.map (·.id) ∧
      (role = userRole → ∀ m ∈ p.2.messages, isOptimistic (messageTextOf (message.content.getD (.text []))) m = false)
  | .messageUpdate id e =>
    isDelta e → match truthy id with
      | some id =>
        ((p.1.tracked sid).wire = some id ∨ lookupId p.2 id = id) ∧ OneRow p.2.messages (lookupId p.2 id)
      | none =>
        SameUntracked (p.1.tracked sid) p.2 ∧ ∀ id ∈ (p.1.tracked sid).stored, OneRow p.2.messages id
  | .messageEnd message =>
    ∀ endMessage ∈ message, endMessage.role ≠ some userRole →
      ∀ target ∈ endTarget (p.1.tracked sid) ((p.1.sessionData sid).getD []), target.role = some assistantRole →
        fillEmptyStreamedBlocksFromEnd target.content (endMessage.content.getD (.parts [])) = none
  | .toolStart raw => (∃ id, truthy raw.callId = some id) ∧ ∃ name, truthy raw.callName = some name
  | .toolEnd raw result _ =>
    ∀ id ∈ raw.callId, ∀ m ∈ p.2.messages, m.id = id →
      result ≠ .absent ∧ m.role = some toolRole ∧ lookupId p.2 id = id ∧ OneRow p.2.messages id

/-- The message started last, on both sides. -/
structure Started (ids : TrackedIds) (f : FoldState OtherEvent) (wireId storedId : JsString) : Prop where
  wire : ids.wire = some wireId
  stored : ids.stored = some storedId
  current : ids.current = some storedId
  latest : f.latestByWireId.get wireId = some storedId
  active : f.activeMessageId = none ∨ f.activeMessageId = some wireId
  row : storedId ∈ f.messages.map (·.id)
  wire_ne_nil : wireId ≠ []

/-- Nothing was started yet. -/
structure NoneStarted (ids : TrackedIds) (f : FoldState OtherEvent) : Prop where
  tracked : ids = {}
  latest : f.latestByWireId = JsMap.empty
  active : f.activeMessageId = none
  rows : ∀ m ∈ f.messages, m.role = some toolRole

structure Agrees (sid : SessionId) (p : Store × FoldState OtherEvent) : Prop where
  rows : ∃ rows, LiveRows sid rows p.1 ∧ rows.map shown = p.2.messages.map shown
  used : UsedAreIds p.2
  nonempty : ∀ m ∈ p.2.messages, m.id ≠ []
  known : ∀ k v, p.2.latestByWireId.get k = some v → k ∈ p.2.messages.map (·.id)
  started : NoneStarted (p.1.tracked sid) p.2 ∨ ∃ wireId storedId, Started (p.1.tracked sid) p.2 wireId storedId

section

variable {sid : SessionId} {now : ℕ} {s : Store} {f : FoldState OtherEvent} {rows : List Message}

variable {wireId : JsString} {c : Clock} {e : Option AssistantEvent} {id : Option JsString} {raw : ToolFields}

theorem storageCandidate_ne_nil (h : wireId ≠ []) (n : ℕ) : storageCandidate wireId n ≠ [] := by
  cases n with
  | zero => exact h
  | succ n => simp [storageCandidate, h]

theorem storageIdForStart_ne_nil (h : wireId ≠ []) (f : FoldState OtherEvent) : storageIdForStart f wireId ≠ [] := by
  obtain ⟨k, hk, -⟩ := firstFree_spec f.usedIds (storageCandidate_injective wireId)
  rw [storageIdForStart, hk]
  exact storageCandidate_ne_nil h k

/-- Both give a started message the same id. -/
theorem allocate_alike (hrows : LiveRows sid rows s) (hshown : rows.map shown = f.messages.map shown) (hused : UsedAreIds f)
    (hfree : storageIdForStart f wireId ∉ f.messages.map (·.id)) :
    allocateStoredMessageId s sid wireId = storageIdForStart f wireId := by
  rw [allocateStoredMessageId, hrows.data, ids_of_shown hshown]
  exact (firstFree_eq_iff (storageCandidate_injective wireId) hused).mpr hfree

theorem noOptimistic_of_shown (hshown : rows.map shown = f.messages.map shown) {text : JsString}
    (h : ∀ m ∈ f.messages, isOptimistic text m = false) : findOptimisticUserMatch rows text = none := by
  have hnone : rows.filter (isOptimistic text) = [] := by
    rw [filter_eq_nil_iff]
    intro r hr
    have hmem : shown r ∈ f.messages.map shown := hshown ▸ mem_map_of_mem hr
    obtain ⟨m, hm, heq⟩ := mem_map.mp hmem
    simp only [shown, ShownRow.mk.injEq] at heq
    have hm' := h m hm
    simp only [isOptimistic, heq.1, heq.2.1, heq.2.2.1] at hm'
    rw [isOptimistic, hm']
    decide
  rw [findOptimisticUserMatch, hnone]
  rfl

/-- The row a live start adds. -/
def liveRow (c : Clock) (storedId : JsString) (message : WireMessage) : Message where
  id := storedId
  role := message.role
  customType := message.customType
  content := message.initialContent
  timestamp := c.now

theorem live_messageStart {message : WireMessage} (h : LiveRows sid rows s) (hid : truthy message.id = some wireId)
    (hopt : message.role = some userRole → findOptimisticUserMatch rows (messageTextOf (message.content.getD (.text []))) = none) :
    LiveRows sid (rows ++ [liveRow c (allocateStoredMessageId s sid wireId) message]) (handleMessageStart c sid message s) ∧
      (handleMessageStart c sid message s).tracked sid =
        ⟨some (allocateStoredMessageId s sid wireId), some wireId, some (allocateStoredMessageId s sid wireId)⟩ := by
  have hmatch : (if message.role = some userRole then
      (s.sessionData sid).bind (findOptimisticUserMatch · (messageTextOf (message.content.getD (.text [])))) else none) = none := by
    split
    · next hu =>
      cases hd : s.sessionData sid with
      | none => rfl
      | some existing =>
        have hex : existing = rows := by rw [← h.data, hd]; rfl
        subst hex
        exact hopt hu
    · rfl
  simp only [handleMessageStart, hid, Option.getD_some, hmatch]
  refine ⟨((h.tracked _).add _).tracked _, ?_⟩
  simp [addMessageToSession, writeSession]

theorem agrees_messageStart {message : WireMessage} (h : Agrees sid (s, f))
    (ha : ReadsAlike sid (s, f) (c, .messageStart message)) : Agrees sid (stepLive sid now (s, f) (c, .messageStart message)) := by
  obtain ⟨⟨rows, hrows, hshown⟩, hused, hne, hknown, -⟩ := h
  obtain ⟨wireId, role, hid, hrole, hfree, hopt⟩ := ha
  dsimp only at hrows hshown hused hne hknown hfree hopt
  have hwire := ne_nil_of_truthy hid
  have halloc := allocate_alike hrows hshown hused hfree
  obtain ⟨hlive, htracked⟩ := live_messageStart (c := c) hrows hid fun hu =>
    noOptimistic_of_shown hshown (hopt (Option.some.inj (hrole.symm.trans hu)))
  rw [halloc] at hlive htracked
  have hfold : foldStep now f (.event (.messageStart message)) =
      { f with
        messages := f.messages ++ [{
          id := storageIdForStart f wireId
          role := some (message.role.getD assistantRole)
          customType := message.customType
          content := message.initialContent
          timestamp := now }]
        activeMessageId := some wireId
        usedIds := f.usedIds ++ [storageIdForStart f wireId]
        latestByWireId := f.latestByWireId.set wireId (storageIdForStart f wireId) } := by
    simp only [foldStep, foldEvent, hid, Option.getD_some]
  simp only [stepLive, hfold]
  constructor
  · refine ⟨_, hlive, ?_⟩
    simp only [map_append, hshown, map_cons, map_nil, shown, liveRow, hrole, Option.getD_some]
  · intro id hmem
    simp only [mem_append, mem_singleton, map_append, map_cons, map_nil] at hmem ⊢
    exact hmem.imp (hused id) fun heq => heq
  · exact forall_mem_append.mpr ⟨hne, forall_mem_singleton.mpr (storageIdForStart_ne_nil hwire f)⟩
  · intro k v hk
    simp only [map_append, map_cons, map_nil]
    by_cases hkw : k = wireId
    · subst hkw
      -- The id itself was taken before, or is the one given now.
      by_cases hfreeK : k ∈ f.usedIds
      · exact mem_append_left _ (hused k hfreeK)
      · have hown : storageIdForStart f k = k := firstFree_of_free hfreeK
        rw [hown]
        simp
    · have hk' : f.latestByWireId.get k = some v := (JsMap.get_set_ne _ _ hkw).symm.trans hk
      exact mem_append_left _ (hknown k v hk')
  · refine .inr ⟨wireId, storageIdForStart f wireId, ?_⟩
    constructor
    · rw [handleSessionEvent, handleFoldable, htracked]
    · rw [handleSessionEvent, handleFoldable, htracked]
    · rw [handleSessionEvent, handleFoldable, htracked]
    · exact JsMap.get_set_same _ _ _
    · exact .inr rfl
    · simp
    · exact hwire

/-- An update of a row on both sides. -/
theorem agrees_update {s' : Store} {i : Option ℕ} {g : Message → Message} (h : Agrees sid (s, f)) (hg : Respects g)
    (hid : ∀ m, (g m).id = m.id) (hrole : ∀ m, (g m).role = m.role)
    (hlive : ∀ rows, LiveRows sid rows s → rows.map shown = f.messages.map shown → LiveRows sid (updateAt rows i g) s')
    (htracked : s'.tracked = s.tracked) : Agrees sid (s', { f with messages := updateAt f.messages i g }) := by
  obtain ⟨⟨rows, hrows, hshown⟩, hused, hne, hknown, hstarted⟩ := h
  dsimp only at hrows hshown hused hne hknown hstarted
  have hids : (updateAt f.messages i g).map (·.id) = f.messages.map (·.id) := map_updateAt hid _ _
  have hroles : (updateAt f.messages i g).map (·.role) = f.messages.map (·.role) := map_updateAt hrole _ _
  constructor
  · exact ⟨_, hlive rows hrows hshown, shown_updateAt hshown i hg⟩
  · simpa only [UsedAreIds, hids] using hused
  · intro m hm
    have hmem : m.id ∈ f.messages.map (·.id) := hids ▸ mem_map_of_mem hm
    obtain ⟨m', hm', heq⟩ := mem_map.mp hmem
    rw [← heq]
    exact hne m' hm'
  · simpa only [hids] using hknown
  · dsimp only
    rw [htracked]
    rcases hstarted with hnone | ⟨wireId, storedId, hst⟩
    · refine .inl ⟨hnone.tracked, hnone.latest, hnone.active, fun m hm => ?_⟩
      have hmem : m.role ∈ f.messages.map (·.role) := hroles ▸ mem_map_of_mem hm
      obtain ⟨m', hm', heq⟩ := mem_map.mp hmem
      rw [← heq]
      exact hnone.rows m' hm'
    · refine .inr ⟨wireId, storedId, ⟨hst.wire, hst.stored, hst.current, hst.latest, hst.active, ?_, hst.wire_ne_nil⟩⟩
      simpa only [hids] using hst.row

/-! ### Updates -/

theorem appendDelta_of_not_isDelta (h : ¬isDelta e) (content : Content) : e.bind (appendDelta content) = none := by
  cases e with
  | none => rfl
  | some e =>
    obtain ⟨type, delta⟩ := e
    cases type <;> cases delta <;> first | rfl | exact absurd rfl h

theorem onDelta_of_not_isDelta (h : ¬isDelta e) (m : Message) : onDelta e m = m := by
  rw [onDelta, appendDelta_of_not_isDelta h]

/-- The live update of a row of its own is the fold's. -/
theorem live_messageUpdate {target : JsString}
    (h : LiveRows sid rows s) (ht : updateTarget (s.tracked sid) id = some target) (hone : OneRow rows target) :
    LiveRows sid (updateAt rows (storageIdIndex rows target) (onDelta e)) (handleMessageUpdate c sid id e s) := by
  simp only [handleMessageUpdate, ht, h.data, find?_storageIdIndex]
  have hat : ∀ i ∈ storageIdIndex rows target, (storageIdIndex rows target).bind (rows[·]?) = rows[i]? :=
    fun i hi => by rw [Option.mem_def.mp hi]; rfl
  cases hrow : (storageIdIndex rows target).bind (rows[·]?) with
  | none =>
    rw [updateAt_of_unchanged fun i hi m hm => by cases ((hat i hi).symm.trans hrow).symm.trans hm]
    exact h
  | some m =>
    cases hcontent : e.bind (appendDelta m.content) with
    | none =>
      rw [updateAt_of_unchanged fun i hi m' hm' => by
        cases ((hat i hi).symm.trans hrow).symm.trans hm'
        rw [onDelta, hcontent]]
      simp only [hcontent]
      exact h
    | some content =>
      have hlive := h.update (c := c) target { content := some content }
      rw [replaceById_one hone] at hlive
      rw [updateAt_congr fun i hi m' hm' => by
        cases ((hat i hi).symm.trans hrow).symm.trans hm'
        show onDelta e m = ({ content := some content } : Updates).apply m
        rw [onDelta, hcontent]
        simp [Updates.apply]]
      simp only [hcontent]
      exact hlive

theorem tracked_handleMessageUpdate (c : Clock) (id : Option JsString) (e : Option AssistantEvent) :
    (handleMessageUpdate c sid id e s).tracked = s.tracked := by
  unfold handleMessageUpdate
  split
  · rfl
  split
  · rfl
  split
  · rfl
  exact tracked_updateMessageInSession _ _

/-- Both sides' targets of a delta: one row, or none that a delta changes. -/
theorem agrees_delta {target : JsString} (h : Agrees sid (s, f))
    (ht : updateTarget (s.tracked sid) id = some target) (hone : OneRow f.messages target)
    (hfold : findTarget f ((truthy id) <|> f.activeMessageId) = storageIdIndex f.messages target) :
    Agrees sid (stepLive sid now (s, f) (c, .messageUpdate id e)) := by
  simp only [stepLive, foldStep, foldEvent, hfold]
  refine agrees_update h (respects_onDelta e) (onDelta_id e) (onDelta_role e) ?_ (tracked_handleMessageUpdate c id e)
  intro rows hrows hshown
  have hids := ids_of_shown hshown
  rw [← storageIdIndex_congr hids]
  refine live_messageUpdate hrows ht ?_
  rw [OneRow, hids]
  exact hone

theorem agrees_messageUpdate (h : Agrees sid (s, f))
    (ha : ReadsAlike sid (s, f) (c, .messageUpdate id e)) : Agrees sid (stepLive sid now (s, f) (c, .messageUpdate id e)) := by
  by_cases hd : isDelta e
  swap
  · have hlive : handleMessageUpdate c sid id e s = s := by
      unfold handleMessageUpdate
      simp only [appendDelta_of_not_isDelta hd]
      split
      · rfl
      split <;> rfl
    have hfold : foldStep now f (.event (.messageUpdate id e)) = f := by
      simp only [foldStep, foldEvent]
      rw [updateAt_of_unchanged fun _ _ m _ => onDelta_of_not_isDelta hd m]
    simp only [stepLive, handleSessionEvent, handleFoldable, hlive, hfold]
    exact h
  replace ha := ha hd
  have hstarted : NoneStarted (s.tracked sid) f ∨ ∃ w t, Started (s.tracked sid) f w t := h.started
  rcases hid : truthy id with _ | wanted
  · simp only [hid] at ha
    obtain ⟨huntracked, hone⟩ := ha
    rcases hstarted with hnone | ⟨wireId, storedId, hst⟩
    · -- Nothing was started: neither side has a target.
      have htracked : s.tracked sid = {} := hnone.tracked
      have hlive : handleMessageUpdate c sid id e s = s := by
        have : updateTarget (s.tracked sid) id = none := by rw [htracked, updateTarget, hid]; rfl
        simp only [handleMessageUpdate, this]
      have hlast : latestAssistantMessage f.messages = none := by
        have : f.messages.reverse.findIdx? (·.role = some assistantRole) = none := by
          rw [findIdx?_eq_none_iff]
          intro m hm
          rw [hnone.rows m (mem_reverse.mp hm)]
          decide
        rw [latestAssistantMessage, this]
        rfl
      have hactive : f.activeMessageId = none := hnone.active
      have hfold : foldStep now f (.event (.messageUpdate id e)) = f := by
        have htarget : findTarget f ((truthy id) <|> f.activeMessageId) = none := by
          rw [hid, hactive]
          exact hlast
        simp only [foldStep, foldEvent, htarget]
        rfl
      simp only [stepLive, handleSessionEvent, handleFoldable, hlive, hfold]
      exact h
    · obtain ⟨m, hm, hmid⟩ := mem_map.mp hst.row
      have hstored : storedId ≠ [] := hmid ▸ h.nonempty m hm
      have ht : updateTarget (s.tracked sid) id = some storedId := by
        have hpick : ((truthy id) <|> truthy (s.tracked sid).current) = some storedId := by
          rw [hid, hst.current, truthy_of_ne_nil hstored]
          rfl
        simp only [updateTarget, hpick, hst.stored, Option.getD_some, ite_self]
      refine agrees_delta h ht (hone storedId hst.stored) ?_
      rw [hid]
      rcases hst.active with hactive | hactive
      · rw [hactive]
        exact huntracked hactive storedId hst.stored
      · rw [hactive]
        have hlookup : lookupId f wireId = storedId := by rw [lookupId, hst.latest]; rfl
        show findTarget f (some wireId) = _
        simp only [findTarget, truthy_of_ne_nil hst.wire_ne_nil, hlookup]
        obtain ⟨i, hi⟩ := storageIdIndex_of_mem hst.row
        rw [hi]
        rfl
  · simp only [hid] at ha
    obtain ⟨hwanted, hone⟩ := ha
    have hfind : findTarget f ((truthy id) <|> f.activeMessageId) =
        (storageIdIndex f.messages (lookupId f wanted)).or (storageIdIndex f.messages wanted) := by
      have hself : truthy (some wanted) = some wanted := truthy_of_ne_nil (ne_nil_of_truthy hid)
      rw [hid]
      show findTarget f (some wanted) = _
      simp only [findTarget, hself]
    by_cases hwire : (s.tracked sid).wire = some wanted
    · rcases hstarted with hnone | ⟨wireId, storedId, hst⟩
      · have htracked : s.tracked sid = {} := hnone.tracked
        rw [htracked] at hwire
        cases hwire
      · obtain rfl : wireId = wanted := Option.some.inj (hst.wire.symm.trans hwire)
        have hlookup : lookupId f wireId = storedId := by rw [lookupId, hst.latest]; rfl
        rw [hlookup] at hone hfind
        have ht : updateTarget (s.tracked sid) id = some storedId := by
          simp only [updateTarget, hid]
          show (if (s.tracked sid).wire = some wireId then some ((s.tracked sid).stored.getD wireId) else some wireId) = _
          rw [if_pos hwire, hst.stored]
          rfl
        refine agrees_delta h ht hone ?_
        obtain ⟨i, hi⟩ := storageIdIndex_of_mem hst.row
        rw [hfind, hi]
        rfl
    · have hlookup : lookupId f wanted = wanted := hwanted.resolve_left hwire
      rw [hlookup] at hone hfind
      have ht : updateTarget (s.tracked sid) id = some wanted := by
        simp only [updateTarget, hid]
        show (if (s.tracked sid).wire = some wanted then some ((s.tracked sid).stored.getD wanted) else some wanted) = _
        rw [if_neg hwire]
      refine agrees_delta h ht hone ?_
      rw [hfind]
      cases storageIdIndex f.messages wanted <;> rfl

/-! ### Ends and tools -/

theorem agrees_messageEnd {message : Option WireMessage} (h : Agrees sid (s, f))
    (ha : ReadsAlike sid (s, f) (c, .messageEnd message)) : Agrees sid (stepLive sid now (s, f) (c, .messageEnd message)) := by
  have hlive : handleMessageEnd c sid message s = s := by
    unfold handleMessageEnd
    split
    · rfl
    next endMessage =>
      split
      · rfl
      next huser =>
        split
        · rfl
        next target htarget =>
          split
          · rfl
          next hrole =>
            rw [ha endMessage rfl huser target htarget (Decidable.not_not.mp hrole)]
  obtain ⟨hrows, hused, hne, hknown, hstarted⟩ := h
  simp only [stepLive, handleSessionEvent, handleFoldable, hlive]
  refine ⟨hrows, hused, hne, hknown, ?_⟩
  rcases hstarted with hnone | ⟨wireId, storedId, hst⟩
  · exact .inl ⟨hnone.tracked, hnone.latest, rfl, hnone.rows⟩
  · exact .inr ⟨wireId, storedId, hst.wire, hst.stored, hst.current, hst.latest, .inl rfl, hst.row, hst.wire_ne_nil⟩

theorem eq_of_truthy {v : Option JsString} {t : JsString} (h : truthy v = some t) : v = some t := by
  unfold truthy at h
  split at h
  · cases h
  · exact h

theorem agrees_toolStart (h : Agrees sid (s, f))
    (ha : ReadsAlike sid (s, f) (c, .toolStart raw)) : Agrees sid (stepLive sid now (s, f) (c, .toolStart raw)) := by
  obtain ⟨⟨rows, hrows, hshown⟩, hused, hne, hknown, hstarted⟩ := h
  obtain ⟨⟨id, hid⟩, name, hname⟩ := ha
  dsimp only at hrows hshown hused hne hknown hstarted
  have hsub : ∀ k ∈ f.messages.map (·.id), k ∈ (foldStep now f (.event (.toolStart raw))).messages.map (·.id) := by
    intro k hk
    simp only [foldStep, foldEvent, map_append]
    exact mem_append_left _ hk
  constructor
  · refine ⟨_, hrows.add (c := c) _, ?_⟩
    simp only [stepLive, foldStep, foldEvent, eq_of_truthy hid, eq_of_truthy hname, truthy_of_ne_nil (ne_nil_of_truthy hid),
      truthy_of_ne_nil (ne_nil_of_truthy hname), Option.getD_some, map_append, hshown, map_cons, map_nil, shown]
  · exact fun k hk => hsub k (hused k hk)
  · intro m hm
    simp only [stepLive, foldStep, foldEvent, hid, Option.getD_some, mem_append, mem_singleton] at hm
    rcases hm with hm | rfl
    · exact hne m hm
    · exact ne_nil_of_truthy hid
  · exact fun k v hk => hsub k (hknown k v hk)
  · rcases hstarted with hnone | ⟨wireId, storedId, hst⟩
    · refine .inl ⟨hnone.tracked, hnone.latest, hnone.active, ?_⟩
      intro m hm
      simp only [stepLive, foldStep, foldEvent, mem_append, mem_singleton] at hm
      rcases hm with hm | rfl
      · exact hnone.rows m hm
      · rfl
    · exact .inr ⟨wireId, storedId, hst.wire, hst.stored, hst.current, hst.latest, hst.active, hsub _ hst.row, hst.wire_ne_nil⟩

/-- What the live handler writes on a tool is what the fold does. -/
theorem apply_toolEnd {raw : ToolFields} {result : ResultValue} {isError : Bool} {m : Message} (h : m.role = some toolRole) :
    ({ content := some (.text (extractToolResultText result))
       toolResult := some ⟨extractToolResultText result, isError⟩
       toolCallArgs := raw.callArgs } : Updates).apply m = onToolEnd raw result isError m := by
  simp only [Updates.apply, onToolEnd, if_pos h, Option.getD_some, Option.getD_none, Option.none_or, Option.some_or]
  congr 1
  cases raw.callArgs <;> cases m.toolCall <;> rfl

theorem latestAssistantMessage_role {messages : List Message} {i : ℕ} (h : latestAssistantMessage messages = some i) {m : Message}
    (hm : messages[i]? = some m) : m.role = some assistantRole := by
  rw [latestAssistantMessage, Option.map_eq_some_iff] at h
  obtain ⟨k, hk, rfl⟩ := h
  obtain ⟨hlt, hrole, -⟩ := findIdx?_eq_some_iff_getElem.mp hk
  rw [length_reverse] at hlt
  have hat : messages[messages.length - 1 - k]? = some messages.reverse[k] := by
    rw [getElem_reverse, getElem?_eq_getElem]
  obtain rfl := Option.some.inj (hm.symm.trans hat)
  exact of_decide_eq_true hrole

/-- An end of no tool changes neither side. -/
theorem fold_toolEnd_none {result : ResultValue} {isError : Bool} (h : truthy raw.callId = none) :
    foldStep now f (.event (.toolEnd raw result isError)) = f := by
  have htarget : findTarget f raw.callId = latestAssistantMessage f.messages := by rw [findTarget, h]
  simp only [foldStep, foldEvent, htarget]
  rw [updateAt_of_unchanged]
  intro i hi m hm
  rw [onToolEnd, latestAssistantMessage_role hi hm, if_neg (by decide)]

theorem agrees_toolEnd {result : ResultValue} {isError : Bool} (h : Agrees sid (s, f))
    (ha : ReadsAlike sid (s, f) (c, .toolEnd raw result isError)) :
    Agrees sid (stepLive sid now (s, f) (c, .toolEnd raw result isError)) := by
  have htracked : (handleToolEnd c sid raw result isError s).tracked = s.tracked := by
    unfold handleToolEnd
    split
    · rfl
    split
    · rfl
    exact tracked_updateMessageInSession _ _
  rcases hid : raw.callId with _ | id
  · have hlive : handleToolEnd c sid raw result isError s = s := by rw [handleToolEnd, hid]
    have hfold : foldStep now f (.event (.toolEnd raw result isError)) = f := fold_toolEnd_none (by rw [hid]; rfl)
    simp only [stepLive, handleSessionEvent, handleFoldable, hlive, hfold]
    exact h
  by_cases hrow : id ∈ f.messages.map (·.id)
  · obtain ⟨m, hm, rfl⟩ := mem_map.mp hrow
    obtain ⟨hresult, hrole, hlookup, hone⟩ := ha m.id hid m hm rfl
    have htarget : findTarget f raw.callId = storageIdIndex f.messages m.id := by
      have hself : truthy raw.callId = some m.id := by rw [hid, truthy_of_ne_nil (h.nonempty m hm)]
      rw [findTarget, hself]
      dsimp only at hlookup ⊢
      rw [hlookup]
      cases storageIdIndex f.messages m.id <;> rfl
    simp only [stepLive, foldStep, foldEvent, htarget]
    refine agrees_update h (respects_onToolEnd raw result isError) (onToolEnd_id raw result isError)
      (onToolEnd_role raw result isError) ?_ htracked
    intro rows hrows hshown
    have hids := ids_of_shown hshown
    have hlive := hrows.update (c := c) m.id {
      content := some (.text (extractToolResultText result))
      toolResult := some ⟨extractToolResultText result, isError⟩
      toolCallArgs := raw.callArgs }
    rw [replaceById_one (by rw [OneRow, hids]; exact hone), storageIdIndex_congr hids] at hlive
    -- The row on the live side is the fold's tool.
    have htool : ∀ i ∈ storageIdIndex f.messages m.id, ∀ m' ∈ rows[i]?, m'.role = some toolRole := by
      intro i hi m' hm'
      obtain ⟨r, hr, hsame⟩ := shown_at hshown hm'
      simp only [shown, ShownRow.mk.injEq] at hsame
      obtain ⟨hlt, hrid, -⟩ := findIdx?_eq_some_iff_getElem.mp hi
      rw [getElem?_eq_getElem hlt] at hr
      obtain rfl := Option.some.inj hr
      rw [hsame.2.1]
      exact (ha m.id hid _ (getElem_mem hlt) (of_decide_eq_true hrid)).2.1
    rw [← updateAt_congr fun i hi m' hm' => apply_toolEnd (htool i hi m' hm')]
    simp only [handleSessionEvent, handleFoldable, handleToolEnd, hid, if_neg hresult]
    exact hlive
  · have hnone : storageIdIndex f.messages id = none := by
      rw [storageIdIndex, findIdx?_eq_none_iff]
      exact fun m hm => decide_eq_false fun heq => hrow (mem_map.mpr ⟨m, hm, heq⟩)
    have hfold : foldStep now f (.event (.toolEnd raw result isError)) = f := by
      by_cases hnil : id = []
      · exact fold_toolEnd_none (by rw [hid, hnil]; rfl)
      · have hlookup : lookupId f id = id := by
          rw [lookupId]
          cases hk : f.latestByWireId.get id with
          | none => rfl
          | some v => exact absurd (h.known id v hk) hrow
        have htarget : findTarget f raw.callId = none := by
          rw [findTarget, hid, truthy_of_ne_nil hnil]
          simp only [hlookup, hnone, Option.or_none]
        simp only [foldStep, foldEvent, htarget]
        rfl
    simp only [stepLive, hfold]
    refine agrees_update (i := none) h (g := fun m => m) (fun _ _ hm => hm) (fun _ => rfl) (fun _ => rfl) ?_ htracked
    intro rows hrows hshown
    have hids := ids_of_shown hshown
    simp only [handleSessionEvent, handleFoldable, handleToolEnd, hid]
    split
    · exact hrows
    · have hone : OneRow rows id := by
        rw [OneRow, hids, count_eq_zero_of_not_mem hrow]
        exact Nat.zero_le 1
      have hlive := hrows.update (c := c) id {
        content := some (.text (extractToolResultText result))
        toolResult := some ⟨extractToolResultText result, isError⟩
        toolCallArgs := raw.callArgs }
      rw [replaceById_one hone, storageIdIndex_congr hids, hnone] at hlive
      exact hlive

/-! ### Runs -/

/-- The session has no rows and no message under way. -/
structure EmptySession (sid : SessionId) (s : Store) : Prop where
  data : (s.sessionData sid).getD [] = []
  visible : s.currentSessionId = some sid → s.messages = []
  tracked : s.tracked sid = {}

theorem agrees_start (h : EmptySession sid s) : Agrees sid (s, .start []) := by
  constructor
  · exact ⟨[], ⟨h.data, h.visible⟩, rfl⟩
  · intro id hid
    cases hid
  · intro m hm
    cases hm
  · intro k v hk
    rw [FoldState.start, JsMap.get_empty] at hk
    cases hk
  · exact .inl ⟨h.tracked, rfl, rfl, (fun _ h => by cases h)⟩

theorem agrees_stepLive {p : Store × FoldState OtherEvent} {e : Clock × Event} (h : Agrees sid p) (ha : ReadsAlike sid p e) :
    Agrees sid (stepLive sid now p e) := by
  obtain ⟨s, f⟩ := p
  obtain ⟨c, e⟩ := e
  cases e with
  | messageStart message => exact agrees_messageStart h ha
  | messageUpdate id e => exact agrees_messageUpdate h ha
  | messageEnd message => exact agrees_messageEnd h ha
  | toolStart raw => exact agrees_toolStart h ha
  | toolEnd raw result isError => exact agrees_toolEnd h ha

end

/-- The events handled one by one. -/
def handleLive (sid : SessionId) (es : List (Clock × Event)) (s : Store) : Store :=
  es.foldl (fun s e => handleSessionEvent e.1 sid s (.event e.2)) s

def replayed (now : ℕ) (es : List (Clock × Event)) : List Message :=
  (foldSessionEvents (ρ := OtherEvent) now (es.map fun e => .event e.2) []).messages

theorem foldl_stepLive (sid : SessionId) (now : ℕ) (es : List (Clock × Event)) (s : Store) (f : FoldState OtherEvent) :
    es.foldl (stepLive sid now) (s, f) = (handleLive sid es s, (es.map fun e => .event e.2).foldl (foldStep now) f) := by
  induction es generalizing s f with
  | nil => rfl
  | cons e es ih => exact ih _ _

/-- Handled live, the session shows what a replay of the same events would. -/
theorem live_is_replayed (sid : SessionId) (now : ℕ) (s : Store) (es : List (Clock × Event)) (hs : EmptySession sid s)
    (h : Run.Along (stepLive sid now) (ReadsAlike sid) (s, .start []) es) :
    (((handleLive sid es s).sessionData sid).getD []).map shown = (replayed now es).map shown ∧
      ((handleLive sid es s).currentSessionId = some sid →
        (handleLive sid es s).messages.map shown = (replayed now es).map shown) := by
  have hagrees := Run.invariant (fun _ _ => agrees_stepLive) (agrees_start hs) h
  rw [foldl_stepLive] at hagrees
  obtain ⟨rows, hrows, hshown⟩ := hagrees.rows
  refine ⟨?_, fun hc => ?_⟩
  · rw [hrows.data]
    exact hshown
  · rw [hrows.visible hc]
    exact hshown

/-- A user's message, an answer of two deltas with its end, a tool, and the answer's id once more. -/
theorem an_answer_and_a_tool : let delta (text : String) : Option AssistantEvent := some ⟨.textDelta, some (js text)⟩
    let answer : WireMessage := { id := some (js "a"), role := some assistantRole }
    let tool : ToolFields := { toolCallId := some (js "t"), toolName := some (js "bash"), args := some .null }
    let es : List (Clock × Event) := [
      (⟨1, []⟩, .messageStart { id := some (js "u"), role := some userRole, content := some (.text (js "hi")) }),
      (⟨2, []⟩, .messageStart answer),
      (⟨3, []⟩, .messageUpdate none (delta "O")),
      (⟨4, []⟩, .messageUpdate (some (js "a")) (delta "K")),
      (⟨5, []⟩, .messageEnd (some { answer with content := some (.text (js "OK")) })),
      (⟨6, []⟩, .toolStart tool),
      (⟨7, []⟩, .toolEnd tool (.text (js "done")) false),
      (⟨8, []⟩, .messageStart answer),
      (⟨9, []⟩, .messageUpdate none (delta "!"))]
    (replayed 10 es).map (·.id) = [js "u", js "a", js "t", js "a#2"] ∧
      (((handleLive (js "s") es {}).sessionData (js "s")).getD []).map shown = (replayed 10 es).map shown := by
  intro delta answer tool es
  refine ⟨by decide +kernel, (live_is_replayed (js "s") 10 {} es ⟨rfl, fun _ => rfl, rfl⟩ ?_).1⟩
  refine ⟨?_, ?_, ?_, ?_, ?_, ?_, ?_, ?_, ?_, trivial⟩
  · exact ⟨js "u", userRole, by decide +kernel, rfl, by decide +kernel, by decide +kernel⟩
  · exact ⟨js "a", assistantRole, by decide +kernel, rfl, by decide +kernel, by decide +kernel⟩
  · exact fun _ => ⟨fun hactive => absurd hactive (by decide +kernel), by decide +kernel⟩
  · exact fun _ => ⟨.inl (by decide +kernel), by decide +kernel⟩
  · exact fun m hm _ => by
      cases hm
      decide +kernel
  · exact ⟨⟨js "t", by decide +kernel⟩, js "bash", by decide +kernel⟩
  · intro id hid m hm heq
    cases hid
    revert m
    decide +kernel
  · exact ⟨js "a", assistantRole, by decide +kernel, rfl, by decide +kernel, by decide +kernel⟩
  · exact fun _ => ⟨fun hactive => absurd hactive (by decide +kernel), by decide +kernel⟩

/-- A message without deltas is filled by its end, but only live. -/
theorem a_filled_end : let answer : WireMessage := { id := some (js "a"), role := some assistantRole }
    let es : List (Clock × Event) := [
      (⟨1, []⟩, .messageStart answer),
      (⟨2, []⟩, .messageEnd (some { answer with content := some (.text (js "OK")) }))]
    EmptySession (js "s") {} ∧
      (((handleLive (js "s") es {}).sessionData (js "s")).getD []).map (·.content) =
        [.parts [{ type := .text, text := some (js "OK") }]] ∧
      (replayed 3 es).map (·.content) = [.parts []] := by
  intro answer es
  exact ⟨⟨rfl, fun _ => rfl, rfl⟩, by decide +kernel, by decide +kernel⟩

end PiWebUi.Transcript
