/-
  PiWebUi.Transcript.Replay — replaying a session's history in a window.

  `history_start` clears `sessionMessages` and the cache entry of the session, but the
  fold at the end of the window takes its base from `sessionData`, which it leaves: what
  was there stays in front of the replay (`a_second_replay`). A window of more than a
  thousand events is folded in chunks.
-/

import PiWebUi.Transcript.Projections
import PiWebUi.Transcript.Chunks

namespace PiWebUi.Transcript

open PiWebUi.Lib PiWebUi.Lib.JsNumber List

/-! ## The rows of a window -/

section

variable (now : ℕ)

/-- The rows of bare events over a base. -/
def rowsOver (base : List Message) (es : List Event) : List Message :=
  (foldSessionEvents now (es.map (.event (ρ := OtherEvent))) base).messages

/-- The rows folded so far, and what is buffered. -/
def windowStep (w : List Message × List Event) (e : Event) : List Message × List Event :=
  if historyBufferFlushEvents ≤ (w.2 ++ [e]).length then (rowsOver now w.1 (w.2 ++ [e]), []) else (w.1, w.2 ++ [e])

def replayRows (base : List Message) (es : List Event) : List Message :=
  let w := es.foldl (windowStep now) (base, [])
  rowsOver now w.1 w.2

/-- Two folds of the history: in one piece over nothing, and in chunks. -/
structure Replaying where
  whole : FoldState OtherEvent
  chunk : FoldState OtherEvent
  buffered : ℕ

def replayStep (r : Replaying) (e : Event) : Replaying :=
  let p := stepBoth now (r.whole, r.chunk) (.event e)
  if historyBufferFlushEvents ≤ r.buffered + 1 then ⟨p.1, .start p.2.messages, 0⟩ else ⟨p.1, p.2, r.buffered + 1⟩

def replaying : Replaying := ⟨.start [], .start [], 0⟩

/-- The event's row is the same for both. -/
def HarmlessFlush (r : Replaying) (e : Event) : Prop := SameRoute now (r.whole, r.chunk) (.event e)

/-- The chunk under way is the fold of what is buffered over the rows before it. -/
theorem replaying_window (es : List Event) :
    (es.foldl (replayStep now) replaying).whole = (es.map .event).foldl (foldStep now) (.start []) ∧
    (es.foldl (replayStep now) replaying).chunk = ((es.foldl (windowStep now) ([], [])).2.map .event).foldl (foldStep now)
        (.start (es.foldl (windowStep now) ([], [])).1) ∧
    (es.foldl (replayStep now) replaying).buffered = (es.foldl (windowStep now) ([], [])).2.length := by
  induction es using List.reverseRecOn with
  | nil => exact ⟨rfl, rfl, rfl⟩
  | append_singleton es e ih =>
    obtain ⟨hw, hc, hn⟩ := ih
    simp only [foldl_append, foldl_cons, foldl_nil, map_append, map_cons, map_nil]
    simp only [replayStep, windowStep, stepBoth, hw, hc, hn, length_append, length_singleton]
    split
    · refine ⟨rfl, ?_, rfl⟩
      simp only [rowsOver, foldSessionEvents, map_append, map_cons, map_nil, foldl_append, foldl_cons,
        foldl_nil]
    · refine ⟨rfl, ?_, ?_⟩
      · simp only [map_append, map_cons, map_nil, foldl_append, foldl_cons, foldl_nil]
      · simp

/-- Both have the same rows, and what is taken for the whole is taken for the chunk. -/
structure ReplayAlongside (r : Replaying) : Prop where
  alongside : Alongside (r.whole, r.chunk)
  used : UsedAreIds r.whole

theorem replayStep_rows (r : Replaying) (e : Event) :
    (replayStep now r e).whole.messages = (stepBoth now (r.whole, r.chunk) (.event e)).1.messages ∧
    (replayStep now r e).chunk.messages = (stepBoth now (r.whole, r.chunk) (.event e)).2.messages := by
  simp only [replayStep]
  split <;> exact ⟨rfl, rfl⟩

theorem replayStep_alongside {r : Replaying} (h : ReplayAlongside r) {e : Event} (hr : HarmlessFlush now r e) :
    ReplayAlongside (replayStep now r e) := by
  have hnext := stepBoth_alongside now h.alongside hr
  have hused := used_foldStep now h.used (.event e)
  simp only [replayStep]
  split
  · refine ⟨⟨hnext.messages, fun id hid => ?_⟩, hused⟩
    simp only [FoldState.start]
    rw [hnext.messages]
    exact hused id hid
  · exact ⟨hnext, hused⟩

theorem replayRows_iff (es : List Event) : (∀ fs, fs <+: es → replayRows now [] fs = rowsOver now [] fs) ↔
      Run.Along (replayStep now) (HarmlessFlush now) replaying es := by
  have hrows : ∀ fs : List Event, replayRows now [] fs = rowsOver now [] fs ↔
      (fs.foldl (replayStep now) replaying).chunk.messages = (fs.foldl (replayStep now) replaying).whole.messages := by
    intro fs
    obtain ⟨hw, hc, -⟩ := replaying_window now fs
    rw [hw, hc]
    rfl
  have hstart : ReplayAlongside replaying := ⟨⟨rfl, fun _ h => h⟩, fun _ h => h⟩
  simp only [hrows]
  rw [← Run.along_after_iff (P := fun r : Replaying => r.chunk.messages = r.whole.messages) rfl]
  refine Run.along_iff_of_invariant (I := ReplayAlongside) ?_ ?_ hstart
  · intro r e h hr
    exact replayStep_alongside now h hr
  · intro r e h
    obtain ⟨hw, hc⟩ := replayStep_rows now r e
    rw [hw, hc]
    exact stepBoth_messages_iff now h.alongside (.event e)

/-! ## Counting rows -/

def isStart : Event → Bool
  | .messageStart _ | .toolStart _ => true
  | _ => false

theorem length_updateAt (messages : List Message) (i : Option ℕ) (f : Message → Message) :
    (updateAt messages i f).length = messages.length := by
  cases i with
  | none => rfl
  | some i => rw [updateAt, length_modify]

/-- Each start adds a row, and nothing removes one. -/
theorem length_rowsOver (base : List Message) (es : List Event) :
    (rowsOver now base es).length = base.length + es.countP isStart := by
  have hfold : ∀ (s : FoldState OtherEvent), ((es.map .event).foldl (foldStep now) s).messages.length =
      s.messages.length + es.countP isStart := by
    induction es with
    | nil => intro s; rfl
    | cons e es ih =>
      intro s
      have hone : (foldStep now s (.event e)).messages.length = s.messages.length + if isStart e then 1 else 0 := by
        cases e <;> simp [foldStep, foldEvent, length_updateAt, isStart]
      rw [map_cons, foldl_cons, ih, hone, countP_cons]
      omega
  exact hfold _

theorem base_nil_of_rowsOver {base : List Message} {es : List Event} (h : rowsOver now base es = rowsOver now [] es) :
    base = [] := by
  have hlen := congrArg List.length h
  rw [length_rowsOver, length_rowsOver] at hlen
  simp only [length_nil] at hlen
  exact length_eq_zero_iff.mp (by omega)

/-- Less than a thousand events are one chunk. -/
theorem window_short {es : List Event} (h : es.length < historyBufferFlushEvents) (base : List Message) :
    es.foldl (windowStep now) (base, []) = (base, es) := by
  induction es using List.reverseRecOn with
  | nil => rfl
  | append_singleton es e ih =>
    rw [length_append, length_singleton] at h
    have hshort : ¬ historyBufferFlushEvents ≤ (es ++ [e]).length := by
      rw [length_append, length_singleton]
      omega
    rw [foldl_append, ih (by omega), foldl_cons, foldl_nil, windowStep, if_neg hshort]

end

/-! ## The window in the store -/

section

variable (c : Clock) (sid : SessionId)

/-- `history_start`, the events, `history_end`. -/
def replay (es : List Event) (s : Store) : Store :=
  historyEnd c sid (es.foldl (fun s e => sessionEvent c sid (.event e) s) (historyStart c sid s))

/-- The session's transcript is this list: the data's rows, what is visible if it is current,
    and what is cached of it. -/
structure HasTranscript (ms : List Message) (s : Store) : Prop where
  data : (s.sessionData sid).getD [] = ms
  visible : s.currentSessionId = some sid → s.messages = ms
  cached : NothingElse (s.sessionMessages sid) ms
  cache : NothingElse ((s.sessionCache.get sid).map (·.messages)) ms

theorem Uniform.hasTranscript {sid : SessionId} {ms : List Message} {s : Store} (h : Uniform sid ms s) : HasTranscript sid ms s :=
  ⟨by rw [h.data, Option.getD_some], h.visible, .inr h.cached, .inr h.cache⟩

/-- Opening a window keeps the session's data and what is visible of it. -/
structure Opened (s t : Store) : Prop where
  current : t.currentSessionId = s.currentSessionId
  data : t.sessionData sid = s.sessionData sid
  visible : s.currentSessionId = some sid → t.messages = s.messages

theorem opened_flush (keys : List SessionId) {s t : Store} (h : Opened sid s t) : Opened sid s (keys.foldl (fun s openSessionId =>
      closeHistoryBuffer openSessionId (if openSessionId ≠ sid then applyHistoryBuffer c openSessionId s else s)) t) := by
  induction keys generalizing t with
  | nil => exact h
  | cons open_ keys ih =>
    refine ih ?_
    show Opened sid s (closeHistoryBuffer open_ (if open_ ≠ sid then applyHistoryBuffer c open_ t else t))
    by_cases ho : open_ ≠ sid
    · rw [if_pos ho]
      have hw := (folded_applyHistoryBuffer c open_ t).1
      refine ⟨hw.current.trans h.current, (hw.data sid ho.symm).trans h.data, fun hc => ?_⟩
      refine (hw.visible ?_).trans (h.visible hc)
      rw [h.current, hc]
      intro heq
      exact ho (Option.some.inj heq).symm
    · rw [if_neg ho]
      exact ⟨h.current, h.data, h.visible⟩

/-- The state a window of the session is in, from the state it was opened in. -/
structure InWindow (s : Store) (w : List Message × List Event) (t : Store) : Prop where
  current : t.currentSessionId = s.currentSessionId
  buffer : t.historyBuffers.get sid = some (w.2.map .event)
  rows : (t.sessionData sid).getD [] = w.1

theorem inWindow_start (s : Store) :
    InWindow sid s ((s.sessionData sid).getD [], []) (historyStart c sid s) ∧ Opened sid s (historyStart c sid s) ∧
      (historyStart c sid s).sessionMessages sid = none ∧ (historyStart c sid s).sessionCache.get sid = none := by
  have hopened := opened_flush c sid s.historyBuffers.keys (s := s) (t := s) ⟨rfl, rfl, fun _ => rfl⟩
  refine ⟨⟨hopened.current, JsMap.get_set_same _ _ _, ?_⟩, ⟨hopened.current, hopened.data, hopened.visible⟩,
    put_same _ _ _, JsMap.get_delete_same _ _⟩
  exact congrArg (·.getD []) hopened.data

theorem leftovers_of_events (now : ℕ) (base : List Message) (es : List Event) :
    (foldSessionEvents now (es.map (.event (ρ := OtherEvent))) base).leftovers = [] := by
  simp only [foldSessionEvents, leftovers_foldl, FoldState.start, nil_append, filter_eq_nil_iff, mem_map,
    forall_exists_index, and_imp, forall_apply_eq_imp_iff₂]
  intro e _
  simp

theorem applyHistoryBuffer_events (t : Store) (e : Event) (es : List Event)
    (h : t.historyBuffers.get sid = some ((e :: es).map .event)) : applyHistoryBuffer c sid t =
      writeSession c sid (rowsOver c.now ((t.sessionData sid).getD []) (e :: es))
        { t with historyBuffers := t.historyBuffers.delete sid } := by
  rw [map_cons] at h
  have hleft := leftovers_of_events c.now ((t.sessionData sid).getD []) (e :: es)
  rw [map_cons] at hleft
  simp only [applyHistoryBuffer, h, hleft, foldl_nil]
  rfl

/-- One event in the window: it is buffered, or the buffer is folded and written everywhere. -/
theorem inWindow_event {s : Store} {w : List Message × List Event} {t : Store} (h : InWindow sid s w t) (e : Event) :
    InWindow sid s (windowStep c.now w e) (sessionEvent c sid (.event e) t) ∧
      (SameRows t (sessionEvent c sid (.event e) t) ∧ (windowStep c.now w e).2 = w.2 ++ [e] ∨
        Uniform sid (windowStep c.now w e).1 (sessionEvent c sid (.event e) t)) := by
  obtain ⟨hcur, hbuf, hrows⟩ := h
  have hhas : t.historyBuffers.has sid = true := JsMap.has_iff_get.mpr (by rw [hbuf]; rfl)
  have hmap : w.2.map (BufferItem.event (ρ := OtherEvent)) ++ [.event e] = (w.2 ++ [e]).map .event := by simp
  have hlen : ((w.2 ++ [e]).map (BufferItem.event (ρ := OtherEvent))).length = (w.2 ++ [e]).length := length_map _
  simp only [sessionEvent, hhas, if_true, bufferHistoryEvent, hbuf, Option.getD_some, hmap, hlen, windowStep]
  split
  · next hfull =>
    obtain ⟨e', es', hsplit⟩ : ∃ e' es', w.2 ++ [e] = e' :: es' := exists_cons_of_ne_nil (by simp)
    set t' : Store := { t with historyBuffers := t.historyBuffers.set sid ((w.2 ++ [e]).map .event) } with ht'
    have happly := applyHistoryBuffer_events c sid t' e' es'
      (by rw [← hsplit]; exact JsMap.get_set_same _ _ _)
    have hbase : (t'.sessionData sid).getD [] = w.1 := hrows
    rw [hbase, ← hsplit] at happly
    have hnot : (applyHistoryBuffer c sid t').historyBuffers.has sid = false := by
      rw [happly, Bool.eq_false_iff, ne_eq]
      simp only [writeSession, JsMap.has_delete]
      exact fun h => h.1 rfl
    rw [if_neg (by rw [hnot]; decide), happly]
    have hu := uniform_writeSession c sid (rowsOver c.now w.1 (w.2 ++ [e]))
      { t' with historyBuffers := t'.historyBuffers.delete sid }
    refine ⟨⟨hcur, JsMap.get_set_same _ _ _, ?_⟩, .inr ⟨hu.visible, hu.data, hu.cached, hu.cache⟩⟩
    exact congrArg (·.getD []) hu.data
  · exact ⟨⟨hcur, JsMap.get_set_same _ _ _, hrows⟩, .inl ⟨⟨rfl, rfl, rfl, rfl, rfl⟩, rfl⟩⟩

theorem inWindow_events (s : Store) (es : List Event) :
    let t := es.foldl (fun s e => sessionEvent c sid (.event e) s) (historyStart c sid s)
    let w := es.foldl (windowStep c.now) ((s.sessionData sid).getD [], [])
    InWindow sid s w t ∧ (SameRows (historyStart c sid s) t ∧ w.2 = es ∨ Uniform sid w.1 t) := by
  induction es using List.reverseRecOn with
  | nil => exact ⟨(inWindow_start c sid s).1, .inl ⟨⟨rfl, rfl, rfl, rfl, rfl⟩, rfl⟩⟩
  | append_singleton es e ih =>
    simp only [foldl_append, foldl_cons, foldl_nil] at ih ⊢
    obtain ⟨hin, hrows⟩ := ih
    obtain ⟨hin', hrows'⟩ := inWindow_event c sid hin e
    refine ⟨hin', ?_⟩
    rcases hrows' with ⟨hsame, hbuf⟩ | hu
    · rcases hrows with ⟨hstart, hall⟩ | hu
      · refine .inl ⟨⟨hsame.current.trans hstart.current, hsame.visible.trans hstart.visible, hsame.data.trans hstart.data,
          hsame.cached.trans hstart.cached, hsame.cache.trans hstart.cache⟩, ?_⟩
        rw [hbuf, hall]
      · refine .inr ?_
        have hkept : (windowStep c.now (es.foldl (windowStep c.now) ((s.sessionData sid).getD [], [])) e).1 =
            (es.foldl (windowStep c.now) ((s.sessionData sid).getD [], [])).1 := by
          have h1 := hin'.rows
          rw [hsame.data, hin.rows] at h1
          exact h1.symm
        rw [hkept]
        exact hsame.uniform hu
    · exact .inr hu

/-- With data for the session, `history_end` only closes the window. -/
theorem historyEnd_rows {t : Store} {w : List Message × List Event} (hbuf : t.historyBuffers.get sid = some (w.2.map .event))
    (hrows : (t.sessionData sid).getD [] = w.1) : (w.2 ≠ [] → Uniform sid (rowsOver c.now w.1 w.2) (historyEnd c sid t)) ∧
    (w.2 = [] → SameRows (ensureSessionData sid t) (historyEnd c sid t)) := by
  constructor
  · intro hne
    obtain ⟨e, es, hsplit⟩ := exists_cons_of_ne_nil hne
    have happly := applyHistoryBuffer_events c sid t e es (by rw [← hsplit]; exact hbuf)
    rw [hrows, ← hsplit] at happly
    have hu := uniform_writeSession c sid (rowsOver c.now w.1 w.2) { t with historyBuffers := t.historyBuffers.delete sid }
    have hdata : (historySafety c sid t).sessionData sid = some (rowsOver c.now w.1 w.2) := by
      rw [historySafety, happly]
      exact hu.data
    rw [historyEnd, ensureSessionData_of_some hdata, historySafety, happly]
    exact ⟨hu.visible, hu.data, hu.cached, hu.cache⟩
  · intro hnil
    rw [hnil] at hbuf
    simp only [historyEnd, historySafety, applyHistoryBuffer, hbuf, map_nil, ensureSessionData, closeHistoryBuffer]
    cases t.sessionData sid <;> exact ⟨rfl, rfl, rfl, rfl, rfl⟩

theorem HasTranscript.unique {ms ms' : List Message} {s : Store} (h : HasTranscript sid ms s) (h' : HasTranscript sid ms' s) :
    ms = ms' := h.data.symm.trans h'.data

theorem ensureSessionData_getD (t : Store) : ((ensureSessionData sid t).sessionData sid).getD [] = (t.sessionData sid).getD [] := by
  unfold ensureSessionData
  split
  · rfl
  · next h => simp [h]

theorem ensureSessionData_uniform {ms : List Message} {t : Store} (h : Uniform sid ms t) : ensureSessionData sid t = t :=
  ensureSessionData_of_some h.data

/-- What a replay leaves: the rows of the window; with no events at all, what was there. -/
theorem replay_hasTranscript_iff (s : Store) (es : List Event) (ms : List Message) : HasTranscript sid ms (replay c sid es s) ↔
      replayRows c.now ((s.sessionData sid).getD []) es = ms ∧
        (es = [] → s.currentSessionId = some sid → s.messages = ms) := by
  obtain ⟨hin, hrows⟩ := inWindow_events c sid s es
  obtain ⟨hfold, hempty⟩ := historyEnd_rows c sid hin.buffer hin.rows
  set t := es.foldl (fun s e => sessionEvent c sid (.event e) s) (historyStart c sid s) with ht
  set w := es.foldl (windowStep c.now) ((s.sessionData sid).getD [], []) with hw
  have hreplay : replayRows c.now ((s.sessionData sid).getD []) es = rowsOver c.now w.1 w.2 := rfl
  have hend : replay c sid es s = historyEnd c sid t := rfl
  rw [hreplay, hend]
  by_cases hbuffered : w.2 = []
  · have hsame := hempty hbuffered
    have hrowsW : rowsOver c.now w.1 w.2 = w.1 := by rw [hbuffered]; rfl
    rw [hrowsW]
    rcases hrows with ⟨hstart, hall⟩ | hu
    · -- No events: the rows are those the window was opened over.
      have hnil : es = [] := by rw [← hall, hbuffered]
      obtain ⟨-, hopened, hm, hk⟩ := inWindow_start c sid s
      have hw1 : w.1 = (s.sessionData sid).getD [] := by rw [hw, hnil]; rfl
      have hens := within_ensureSessionData sid t
      have hcached : (ensureSessionData sid t).sessionMessages = t.sessionMessages := by
        unfold ensureSessionData
        split <;> rfl
      have hcache : (ensureSessionData sid t).sessionCache = t.sessionCache := by
        unfold ensureSessionData
        split <;> rfl
      have hvisible : (ensureSessionData sid t).messages = t.messages := by
        unfold ensureSessionData
        split <;> rfl
      have hcur : (historyEnd c sid t).currentSessionId = s.currentSessionId := by
        rw [hsame.current, hens.current, hstart.current, hopened.current]
      have hv : s.currentSessionId = some sid → (historyEnd c sid t).messages = s.messages := fun hc => by
        rw [hsame.visible, hvisible, hstart.visible, hopened.visible hc]
      have hd : ((historyEnd c sid t).sessionData sid).getD [] = w.1 := by
        rw [hsame.data, ensureSessionData_getD, hin.rows]
      constructor
      · rintro ⟨hdata, hvis, -, -⟩
        exact ⟨hd.symm.trans hdata, fun _ hc => (hv hc).symm.trans (hvis (hcur.trans hc))⟩
      · rintro ⟨hdata, hvis⟩
        refine ⟨hd.trans hdata, fun hc => ?_, .inl ?_, .inl ?_⟩
        · have hc' := hcur.symm.trans hc
          exact (hv hc').trans (hvis hnil hc')
        · rw [hsame.cached, hcached, hstart.cached]
          exact hm
        · rw [hsame.cache, hcache, hstart.cache, hk]
          rfl
    · have hu' : Uniform sid w.1 (historyEnd c sid t) := hsame.uniform (by rw [ensureSessionData_uniform sid hu]; exact hu)
      have hne : es ≠ [] := by
        rintro rfl
        have hnone : t.sessionMessages sid = none := (inWindow_start c sid s).2.2.1
        rw [hu.cached] at hnone
        cases hnone
      constructor
      · intro h
        exact ⟨hu'.hasTranscript.unique sid h, fun hnil => absurd hnil hne⟩
      · rintro ⟨rfl, -⟩
        exact hu'.hasTranscript
  · have hu := hfold hbuffered
    have hne : es ≠ [] := by
      rintro rfl
      exact hbuffered rfl
    constructor
    · intro h
      exact ⟨hu.hasTranscript.unique sid h, fun hnil => absurd hnil hne⟩
    · rintro ⟨rfl, -⟩
      exact hu.hasTranscript

theorem replayRows_short {es : List Event} (h : es.length < historyBufferFlushEvents) (now : ℕ) (base : List Message) :
    replayRows now base es = rowsOver now base es := by
  simp only [replayRows, window_short now h]

/-- After every part of the history the session's transcript is the fold of that part over
    nothing, exactly when nothing was there before and each flush is harmless. For less than
    a thousand events, which one fold takes, the same of the whole history alone. -/
theorem replay_iff (s : Store) (es : List Event) :
    ((∀ fs, fs <+: es → HasTranscript sid (rowsOver c.now [] fs) (replay c sid fs s)) ↔
      (s.sessionData sid).getD [] = [] ∧ (s.currentSessionId = some sid → s.messages = []) ∧
        Run.Along (replayStep c.now) (HarmlessFlush c.now) replaying es) ∧
    (es.length < historyBufferFlushEvents → (HasTranscript sid (rowsOver c.now [] es) (replay c sid es s) ↔
        (s.sessionData sid).getD [] = [] ∧ (es = [] → s.currentSessionId = some sid → s.messages = []))) := by
  simp only [replay_hasTranscript_iff]
  constructor
  · rw [← replayRows_iff]
    constructor
    · intro h
      obtain ⟨hbase, hv⟩ := h [] nil_prefix
      have hbase' : (s.sessionData sid).getD [] = [] := hbase
      rw [hbase'] at h
      exact ⟨hbase', hv rfl, fun fs hfs => (h fs hfs).1⟩
    · rintro ⟨hbase, hv, hrows⟩ fs hfs
      rw [hbase]
      refine ⟨hrows fs hfs, ?_⟩
      rintro rfl hc
      exact hv hc
  · intro hshort
    rw [replayRows_short hshort]
    constructor
    · rintro ⟨hrows, hv⟩
      refine ⟨base_nil_of_rowsOver c.now hrows, ?_⟩
      rintro rfl hc
      exact hv rfl hc
    · rintro ⟨hbase, hv⟩
      rw [hbase]
      refine ⟨rfl, ?_⟩
      rintro rfl hc
      exact hv rfl hc

end

/-- The history of one message is replayed twice into a fresh store: it is there twice. -/
theorem a_second_replay : let es : List Event := [.messageStart { id := some (js "m"), role := some assistantRole }]
    let once := replay { now := 1 } (js "s") es {}
    ¬ HasTranscript (js "s") (rowsOver 2 [] es) (replay { now := 2 } (js "s") es once) ∧
      ((replay { now := 2 } (js "s") es once).sessionData (js "s")).map (·.map (·.id)) = some [js "m", js "m#2"] := by
  refine ⟨fun h => ?_, by decide +kernel⟩
  exact absurd (congrArg List.length h.data) (by decide +kernel)

end PiWebUi.Transcript
