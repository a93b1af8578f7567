/-
  PiWebUi.Completion.SessionTap — the session-level completion observation
  (`completion/session-completion-tap.ts`, `completion/session-completion-registry.ts`).

  The tap keeps one final-text tracker per session key and feeds it the session's
  events, `message_start` excepted; a run keeps a tracker of its own and feeds it every
  event. Agreement is a simulation between the two trackers (`Agree`): one step keeps
  it exactly when the step is `Shared` (`agree_observe_iff`). The registry has the last
  entry of each of the keys recorded last (`SessionCompletionRegistry.keeps_recent`).
-/

import PiWebUi.Lib.JsMap
import PiWebUi.RunReceipts.Capture
import PiWebUi.Completion.SchemaProofs
import PiWebUi.Completion.LastBlock

namespace PiWebUi.Completion

open Lib RunReceipts List

def MAX_LIVE_TRACKERS : ℕ := 64

/-- `SessionCompletionSurface` with a `session_turn` source; times in milliseconds. -/
structure Surface where
  agentEndAt : ℚ
  capturedAt : ℚ
  capture : Capture
  deriving DecidableEq

/-! ## The registry -/

def DEFAULT_COMPLETION_REGISTRY_MAX_ENTRIES : ℕ := 256

structure SessionCompletionRegistry where
  entries : JsMap JsString Surface
  maxEntries : ℕ

/-- Delete keys from the front until at most `n` are left. -/
def evictOldest {β : Type} (n : ℕ) (m : JsMap JsString β) : JsMap JsString β :=
  ⟨m.entries.drop (m.size - n), m.nodup.sublist ((drop_sublist _ _).map _)⟩

def SessionCompletionRegistry.record (r : SessionCompletionRegistry) (key : JsString) (entry : Surface) :
    SessionCompletionRegistry :=
  if key = [] then r
  else { r with entries := evictOldest r.maxEntries ((r.entries.delete key).set key entry) }

/-- The last value of each key, in the order of these. -/
def recent {β : Type} : List (JsString × β) → List (JsString × β)
  | [] => []
  | e :: es => if e.1 ∈ es.map (·.1) then recent es else e :: recent es

theorem recent_concat {β : Type} (es : List (JsString × β)) (e : JsString × β) :
    recent (es ++ [e]) = (recent es).filter (·.1 ≠ e.1) ++ [e] := by
  induction es with
  | nil => rfl
  | cons d es ih =>
    simp only [cons_append, recent, map_append, map_cons, map_nil, mem_append, mem_singleton, ih]
    by_cases hd : d.1 = e.1
    · by_cases hlater : e.1 ∈ es.map (·.1) <;> simp [hd, hlater]
    · by_cases hlater : d.1 ∈ es.map (·.1) <;> simp [hd, hlater]

theorem size_le_delete {β : Type} (m : JsMap JsString β) (k : JsString) : m.size ≤ (m.delete k).size + 1 := by
  have hsum := JsMap.sum_delete m (fun _ => 1) k
  have hweight : m.weight (fun _ => 1) k ≤ 1 := by
    unfold JsMap.weight
    cases m.get k <;> simp
  simp only [JsMap.sum, map_const', sum_replicate, nsmul_eq_mul, Nat.cast_id, mul_one] at hsum
  simp only [JsMap.size]
  omega

/-- After any recordings the registry has the last of each key, of as many keys as it may have
    the ones recorded last, in the order of their recording. -/
theorem SessionCompletionRegistry.keeps_recent (maxEntries : ℕ) (es : List (JsString × Surface)) :
    let r := es.foldl (fun (r : SessionCompletionRegistry) e => r.record e.1 e.2) ⟨JsMap.empty, maxEntries⟩
    let kept := recent (es.filter (·.1 ≠ []))
    r.maxEntries = maxEntries ∧ r.entries.entries = kept.drop (kept.length - maxEntries) := by
  induction es using List.reverseRecOn with
  | nil => exact ⟨rfl, drop_nil.symm⟩
  | append_singleton es e ih =>
    simp only [foldl_append, foldl_cons, foldl_nil, filter_append]
    generalize es.foldl _ _ = r at ih
    obtain ⟨hmax, hentries⟩ := ih
    unfold record
    split
    · next he => simpa [he] using ⟨hmax, by simpa using hentries⟩
    · next he =>
      refine ⟨hmax, ?_⟩
      have hset : ((r.entries.delete e.1).set e.1 e.2).entries = r.entries.entries.filter (·.1 ≠ e.1) ++ [e] :=
        JsMap.set_entries_of_not_has (Bool.eq_false_iff.mpr fun h => ((JsMap.has_delete ..).mp h).1 rfl) _
      have hsize : r.entries.entries.length ≤ (r.entries.entries.filter (·.1 ≠ e.1)).length + 1 := size_le_delete r.entries e.1
      show drop (_ - r.maxEntries) ((r.entries.delete e.1).set e.1 e.2).entries = _
      rw [JsMap.size, hset, hmax, filter_cons_of_pos (by simpa using he), filter_nil, recent_concat]
      generalize recent (es.filter (·.1 ≠ [])) = kept at hentries
      rcases le_total kept.length maxEntries with hroom | hfull
      · rw [hentries, Nat.sub_eq_zero_of_le hroom, drop_zero]
      · have hlength : r.entries.entries.length = maxEntries := by rw [hentries, length_drop]; omega
        have hsuffix : r.entries.entries.filter (·.1 ≠ e.1) ++ [e] <:+ kept.filter (·.1 ≠ e.1) ++ [e] :=
          suffix_append_self_iff.mpr ((hentries ▸ drop_suffix _ _ : r.entries.entries <:+ kept).filter _)
        have hle := hsuffix.length_le
        refine (suffix_of_suffix_length_le ((drop_suffix _ _).trans hsuffix) (drop_suffix _ _) ?_).eq_of_length ?_
        all_goals simp only [length_drop, length_append, length_singleton] at hle ⊢; omega

/-! ## The tap -/

structure SessionCompletionTap where
  registry : SessionCompletionRegistry
  trackers : JsMap JsString FinalTextTracker

namespace SessionCompletionTap

/-- The map with a tracker for `key`, and the tracker. -/
def tracker (t : SessionCompletionTap) (key : JsString) : SessionCompletionTap × FinalTextTracker :=
  match t.trackers.get key with
  | some existing => (t, existing)
  | none =>
    ({ t with trackers := evictOldest MAX_LIVE_TRACKERS (t.trackers.set key completionTracker) }, completionTracker)

/-- A time `Date` can represent; `toISOString` throws for any other. -/
def isValidTime (ms : ℚ) : Bool := |ms| ≤ 8640000000000000

section

-- `z` and `reason` as in the parser; `dateParse` is `Date.parse`, `none` for NaN
variable (z : Zod) (reason : JsString → JsString) (dateParse : JsString → Option ℚ)

/-- `agentEndRaw`. -/
def agentEndRaw (event : NormalizedEvent) (now : ℚ) : ℚ :=
  match event.timestamp with
  | .fin ms => ms
  | _ =>
    match dateParse ((asString (member (record event.data) (js "occurredAt"))).getD []) with
    | some ms => if ms = 0 then now else ms
    | none => now

def finishTurn (t : SessionCompletionTap) (key : JsString) (event : NormalizedEvent) (now : ℚ) :
    SessionCompletionTap :=
  let t' := { t with trackers := t.trackers.delete key }
  match (t.trackers.get key).bind FinalTextTracker.snapshot with
  | none => t'
  | some snapshot =>
    if snapshot.text = [] then t'
    else
      let parsed := parseCompletionBlock z reason (some snapshot.text)
      let agentEndAt := agentEndRaw dateParse event now
      let record capture := { t' with registry := t'.registry.record key ⟨agentEndAt, now, capture⟩ }
      -- `toISOString` throws out of range, and `observe` swallows it
      if !isValidTime agentEndAt then t'
      else match parsed with
        | .ok block delimiter => record { completion := some block, completionDelimiter := some delimiter }
        | .error e => if e.code = .NO_BLOCK then t' else record { completionError := some e }

def observe (key : JsString) (t : SessionCompletionTap) (event : NormalizedEvent) (now : ℚ) : SessionCompletionTap :=
  if key = [] then t
  else
    let data := record event.data
    if event.type = NormalizedEvent.message_start then
      let roleDirect := asString (member data (js "role"))
      let roleNested := asString (member (record (member data (js "message"))) (js "role"))
      if roleDirect = some (js "user") ∨ roleNested = some (js "user") then t else (t.tracker key).1
    else if event.type = NormalizedEvent.agent_end then finishTurn z reason dateParse t key event now
    else if event.type = NormalizedEvent.message_update ∨ event.type = NormalizedEvent.message_end ∨
        event.type = NormalizedEvent.tool_execution_start then
      let (t, tracker) := t.tracker key
      { t with trackers := t.trackers.set key (tracker.observe event) }
    else t

end

/-! ## The tap's tracker of one key -/

theorem get_evictOldest {β : Type} {n : ℕ} (hn : 0 < n) {m : JsMap JsString β} {key : JsString}
    (h : m.has key = false) (v : β) : (evictOldest n (m.set key v)).get key = some v := by
  rw [JsMap.get_eq_some]
  have hs := JsMap.set_entries_of_not_has h v
  simp only [evictOldest, JsMap.size, hs, length_append, length_singleton]
  rw [drop_append_of_le_length (by omega)]
  simp

/-- The tracker the tap has for a key; a missing one is created empty. -/
def trackerOf (t : SessionCompletionTap) (key : JsString) : FinalTextTracker :=
  (t.trackers.get key).getD completionTracker

theorem tracker_fst (t : SessionCompletionTap) (key : JsString) :
    (t.tracker key).1.trackerOf key = t.trackerOf key ∧ (t.tracker key).1.registry = t.registry := by
  unfold tracker trackerOf
  cases h : t.trackers.get key with
  | some existing => simp [h]
  | none =>
    have hhas : t.trackers.has key = false := by
      rw [← Bool.not_eq_true, JsMap.has_iff_get, h]
      simp
    simp [get_evictOldest (show 0 < MAX_LIVE_TRACKERS by decide) hhas]

theorem tracker_snd (t : SessionCompletionTap) (key : JsString) : (t.tracker key).2 = t.trackerOf key := by
  unfold tracker trackerOf
  cases h : t.trackers.get key <;> simp

/-- What an event before `agent_end` does to the tap's tracker. -/
def tapObserve (tracker : FinalTextTracker) (event : NormalizedEvent) : FinalTextTracker :=
  if event.type = NormalizedEvent.message_start then tracker else tracker.observe event

theorem observe_other {tracker : FinalTextTracker} {event : NormalizedEvent}
    (h1 : event.type ≠ NormalizedEvent.message_start) (h2 : event.type ≠ NormalizedEvent.message_update)
    (h3 : event.type ≠ NormalizedEvent.message_end) (h4 : event.type ≠ NormalizedEvent.tool_execution_start) :
    tracker.observe event = tracker := by
  simp [FinalTextTracker.observe, h1, h2, h3, h4]

section

variable (z : Zod) (reason : JsString → JsString) (dateParse : JsString → Option ℚ)

variable {event : NormalizedEvent} {run tap : FinalTextTracker}

theorem observe_trackerOf (t : SessionCompletionTap) {key : JsString} (hkey : key ≠ [])
    (hend : event.type ≠ NormalizedEvent.agent_end) (now : ℚ) :
    (t.observe z reason dateParse key event now).trackerOf key = tapObserve (t.trackerOf key) event ∧
      (t.observe z reason dateParse key event now).registry = t.registry := by
  unfold observe tapObserve
  simp only [hkey, if_false, hend]
  by_cases h1 : event.type = NormalizedEvent.message_start
  · simp only [h1, if_true]
    split
    · exact ⟨rfl, rfl⟩
    · exact tracker_fst t key
  · simp only [h1, if_false]
    split
    · refine ⟨?_, (tracker_fst t key).2⟩
      simp [trackerOf, tracker_snd]
    · next h =>
      simp only [not_or] at h
      rw [observe_other h1 h.1 h.2.1 h.2.2]
      exact ⟨rfl, rfl⟩

/-! ## Agreement -/

/-- The two trackers hold the same text; the run's is well formed, and the tap's never
    learns of a user message. -/
structure Agree (run tap : FinalTextTracker) : Prop where
  bounded : run.Bounded
  maxChars : tap.maxChars = run.maxChars
  current : tap.current = run.current
  currentTruncated : tap.currentTruncated = run.currentTruncated
  previous : tap.previous = run.previous
  role : tap.role ≠ .user

/-- An event both trackers take alike: a message of the assistant starts only where no
    text is held since the last boundary, and an update inside a user message carries
    no new text. -/
structure Shared (run : FinalTextTracker) (event : NormalizedEvent) : Prop where
  start : event.type = NormalizedEvent.message_start → roleOf (record event.data) ≠ .user → run.current = []
  update : event.type = NormalizedEvent.message_update → run.role = .user →
    run.update (record event.data) = run

section

variable (h : Agree run tap)
include h

theorem agree_snapshot : tap.snapshot = run.snapshot := by
  simp [FinalTextTracker.snapshot, h.current, h.currentTruncated, h.previous]

/-- The fields a text operation writes depend on the fields the trackers share. -/
theorem setBounded_agree (text : JsString) (b : Bool) : (tap.setBounded text b).current = (run.setBounded text b).current ∧
      (tap.setBounded text b).currentTruncated = (run.setBounded text b).currentTruncated ∧
      (tap.setBounded text b).previous = (run.setBounded text b).previous ∧
      (tap.setBounded text b).role = tap.role := by
  unfold FinalTextTracker.setBounded
  rw [h.maxChars]
  split <;> exact ⟨rfl, rfl, h.previous, rfl⟩

theorem agree_setBounded {text : JsString} {b : Bool}
    (hb : (run.setBounded text b).Bounded) : Agree (run.setBounded text b) (tap.setBounded text b) := by
  obtain ⟨h1, h2, h3, h4⟩ := setBounded_agree h text b
  refine ⟨hb, ?_, h1, h2, h3, h4 ▸ h.role⟩
  rw [FinalTextTracker.setBounded_maxChars, FinalTextTracker.setBounded_maxChars, h.maxChars]

theorem agree_replace (text : JsString) : Agree (run.replace text) (tap.replace text) :=
  agree_setBounded h (FinalTextTracker.replace_bounded h.bounded text)

theorem agree_append (text : JsString) : Agree (run.append text) (tap.append text) := by
  have hb := FinalTextTracker.append_bounded h.bounded text
  unfold FinalTextTracker.append at hb ⊢
  split
  · exact h
  · next hne =>
    rw [if_neg hne] at hb
    rw [h.current, h.currentTruncated]
    exact agree_setBounded h hb

theorem agree_update (data : Option Json) : Agree (run.update data) (tap.update data) := by
  unfold FinalTextTracker.update
  repeat' split
  all_goals first | exact h | exact agree_replace h _ | exact agree_append h _

theorem agree_startSegment : Agree run.startSegment tap.startSegment := by
  refine ⟨FinalTextTracker.startSegment_bounded h.bounded, h.maxChars, rfl, rfl, ?_, h.role⟩
  simp [FinalTextTracker.startSegment, h.current, h.currentTruncated, h.previous]

theorem agree_role (role : Role) : Agree { run with role } tap :=
  ⟨FinalTextTracker.role_bounded h.bounded role, h.maxChars, h.current, h.currentTruncated, h.previous, h.role⟩

theorem agree_finishMessage (data : Option Json) :
    Agree { run.finishMessage data with role := .unknown } { tap.finishMessage data with role := .unknown } := by
  have hf : Agree (run.finishMessage data) (tap.finishMessage data) := by
    unfold FinalTextTracker.finishMessage
    dsimp only
    repeat' split
    all_goals first | exact h | exact agree_replace h _
  exact ⟨FinalTextTracker.role_bounded hf.bounded _, hf.maxChars, hf.current, hf.currentTruncated, hf.previous, by simp⟩

end

/-- A segment that starts where no text is held changes nothing but the role. -/
theorem startSegment_empty (hb : run.Bounded) (h : run.current = []) : run.startSegment = run := by
  simp [FinalTextTracker.startSegment, h, ← hb.whole h]
  cases run
  simp_all

theorem update_role (t : FinalTextTracker) (data : Option Json) : (t.update data).role = t.role := by
  unfold FinalTextTracker.update FinalTextTracker.append FinalTextTracker.replace FinalTextTracker.setBounded
  repeat' split
  all_goals rfl

/-- An update changes nothing exactly when it leaves the text. -/
theorem update_eq_self {t : FinalTextTracker} {data : Option Json} (hc : (t.update data).current = t.current)
    (ht : (t.update data).currentTruncated = t.currentTruncated) (hp : (t.update data).previous = t.previous) :
    t.update data = t := by
  have hr := update_role t data
  have hm := FinalTextTracker.update_maxChars t data
  generalize t.update data = u at *
  cases u
  cases t
  simp_all

theorem agree_message_start (h : Agree run tap) (hty : event.type = NormalizedEvent.message_start) :
    Agree (run.observe event) (tapObserve tap event) ↔ Shared run event := by
  have hne : event.type ≠ NormalizedEvent.message_update := hty ▸ by decide
  simp only [FinalTextTracker.observe, tapObserve, hty, if_true]
  set role := roleOf (record event.data) with hrole
  split
  · next hu => exact ⟨fun _ => ⟨fun _ hn => absurd hu hn, fun hup => absurd hup hne⟩, fun _ => agree_role h role⟩
  · next hu =>
    constructor
    · exact fun ha => ⟨fun _ _ => h.current.symm.trans ha.current, fun hup => absurd hup hne⟩
    · intro hs
      rw [startSegment_empty (FinalTextTracker.role_bounded h.bounded role) (hs.start hty hu)]
      exact agree_role h role

theorem agree_message_update (h : Agree run tap) (hty : event.type = NormalizedEvent.message_update) :
    Agree (run.observe event) (tapObserve tap event) ↔ Shared run event := by
  have hne : event.type ≠ NormalizedEvent.message_start := hty ▸ by decide
  have hmu : NormalizedEvent.message_update ≠ NormalizedEvent.message_start := by decide
  simp only [FinalTextTracker.observe, tapObserve, hty, hmu, if_false, if_true, h.role]
  have hboth := agree_update h (record event.data)
  split
  · constructor
    · intro ha
      refine ⟨fun hst => absurd hst hne, fun _ _ => update_eq_self ?_ ?_ ?_⟩
      · exact hboth.current.symm.trans ha.current
      · exact hboth.currentTruncated.symm.trans ha.currentTruncated
      · exact hboth.previous.symm.trans ha.previous
    · intro hs
      rw [hs.update hty ‹_›] at hboth
      exact hboth
  · next hu => exact ⟨fun _ => ⟨fun hst => absurd hst hne, fun _ hr => absurd hr hu⟩, fun _ => hboth⟩

/-- One event keeps the agreement exactly when both trackers take it alike. -/
theorem agree_observe_iff (h : Agree run tap) (event : NormalizedEvent) :
    Agree (run.observe event) (tapObserve tap event) ↔ Shared run event := by
  by_cases h1 : event.type = NormalizedEvent.message_start
  · exact agree_message_start h h1
  by_cases h2 : event.type = NormalizedEvent.message_update
  · exact agree_message_update h h2
  have hshared : Shared run event := ⟨fun h => absurd h h1, fun h => absurd h h2⟩
  refine ⟨fun _ => hshared, fun _ => ?_⟩
  simp only [FinalTextTracker.observe, tapObserve, h1, h2, if_false]
  split
  · exact agree_finishMessage h _
  · split
    · exact agree_startSegment h
    · exact h

theorem agree_new : Agree completionTracker completionTracker :=
  ⟨FinalTextTracker.new_bounded _, rfl, rfl, rfl, rfl, by decide⟩

/-! ## A whole turn -/

/-- The tap after a turn's events, each with the time it is observed at. -/
def afterEvents (t : SessionCompletionTap) (key : JsString) (events : List (NormalizedEvent × ℚ)) :
    SessionCompletionTap :=
  events.foldl (fun t e => t.observe z reason dateParse key e.1 e.2) t

theorem afterEvents_trackerOf (t : SessionCompletionTap) {key : JsString} (hkey : key ≠ [])
    {events : List (NormalizedEvent × ℚ)} (hend : ∀ e ∈ events, e.1.type ≠ NormalizedEvent.agent_end) :
    (afterEvents z reason dateParse t key events).trackerOf key = (events.map (·.1)).foldl tapObserve (t.trackerOf key) ∧
      (afterEvents z reason dateParse t key events).registry = t.registry := by
  induction events generalizing t with
  | nil => exact ⟨rfl, rfl⟩
  | cons e events ih =>
    obtain ⟨h1, h2⟩ := observe_trackerOf z reason dateParse t hkey (hend e (by simp)) e.2
    obtain ⟨h3, h4⟩ := ih (t.observe z reason dateParse key e.1 e.2) (fun f hf => hend f (by simp [hf]))
    exact ⟨by rw [afterEvents, foldl_cons, map_cons, foldl_cons, ← h1]; exact h3, h4.trans h2⟩

/-- The text held for a key: none without a tracker. -/
theorem snapshot_trackerOf (t : SessionCompletionTap) (key : JsString) :
    (t.trackers.get key).bind FinalTextTracker.snapshot = (t.trackerOf key).snapshot := by
  unfold trackerOf
  cases t.trackers.get key <;> rfl

/-- `agent_end` records what the run would capture from the same text. -/
theorem finishTurn_registry (t : SessionCompletionTap) (key : JsString) (event : NormalizedEvent) (now : ℚ)
    (hs : (t.trackerOf key).snapshot = run.snapshot) (htime : isValidTime (agentEndRaw dateParse event now) = true) :
    (finishTurn z reason dateParse t key event now).registry = if completionFromSnapshot z reason run = {} then t.registry
      else t.registry.record key ⟨agentEndRaw dateParse event now, now, completionFromSnapshot z reason run⟩ := by
  unfold finishTurn completionFromSnapshot
  rw [snapshot_trackerOf, hs]
  cases run.snapshot with
  | none => simp
  | some snapshot =>
    by_cases hempty : snapshot.text = []
    · simp [hempty]
    · simp only [hempty, if_false, htime, Bool.not_true, Bool.false_eq_true]
      cases parseCompletionBlock z reason (some snapshot.text) with
      | ok block delimiter => simp [capture]
      | error e => by_cases hno : e.code = .NO_BLOCK <;> simp [capture, hno]

/-- Over every turn of shared events the tap holds the run's text at every point, and
    `agent_end` records the run's capture; one event keeps the trackers in agreement
    exactly when it is shared. -/
theorem tap_agrees : (∀ (t : SessionCompletionTap) (key : JsString) (events : List (NormalizedEvent × ℚ)), key ≠ [] →
      t.trackers.get key = none → (∀ e ∈ events, e.1.type ≠ NormalizedEvent.agent_end) →
      Run.Along FinalTextTracker.observe Shared completionTracker (events.map (·.1)) →
        ((afterEvents z reason dateParse t key events).trackers.get key).bind FinalTextTracker.snapshot =
            ((events.map (·.1)).foldl FinalTextTracker.observe completionTracker).snapshot ∧
        ∀ (e : NormalizedEvent) (now : ℚ), e.type = NormalizedEvent.agent_end →
          isValidTime (agentEndRaw dateParse e now) = true →
          let derived := completionFromSnapshot z reason
            ((events.map (·.1) ++ [e]).foldl FinalTextTracker.observe completionTracker)
          ((afterEvents z reason dateParse t key events).observe z reason dateParse key e now).registry =
            if derived = {} then t.registry else t.registry.record key ⟨agentEndRaw dateParse e now, now, derived⟩) ∧
    (∀ (run tap : FinalTextTracker) (e : NormalizedEvent), Agree run tap →
      (Agree (run.observe e) (tapObserve tap e) ↔ Shared run e)) := by
  refine ⟨fun t key events hkey hnew hend hshared => ?_, fun run tap e h => agree_observe_iff h e⟩
  obtain ⟨htr, hreg⟩ := afterEvents_trackerOf z reason dateParse t hkey hend
  have h0 : t.trackerOf key = completionTracker := by simp [trackerOf, hnew]
  have hagree := Run.simulation (R := Agree) (fun run tap e h hs => (agree_observe_iff h e).mpr hs) agree_new hshared
  rw [← h0, ← htr, h0] at hagree
  refine ⟨by rw [snapshot_trackerOf]; exact agree_snapshot hagree, fun e now hty htime => ?_⟩
  have hne : e.type ≠ NormalizedEvent.message_start := hty ▸ by decide
  have hstay : ∀ r : FinalTextTracker, r.observe e = r := fun r =>
    observe_other hne (hty ▸ by decide) (hty ▸ by decide) (hty ▸ by decide)
  simp only [foldl_append, foldl_cons, foldl_nil, hstay, observe, hkey, if_false, hty, if_true]
  rw [← hreg]
  exact finishTurn_registry z reason dateParse _ key e now (agree_snapshot hagree) htime

end

/-- A tap that has seen nothing. -/
def fresh : SessionCompletionTap := ⟨⟨.empty, DEFAULT_COMPLETION_REGISTRY_MAX_ENTRIES⟩, .empty⟩

def assistantTurn : List (NormalizedEvent × ℚ) :=
  [({ type := NormalizedEvent.message_start, data := some (.obj [(js "role", .str (js "assistant"))]) }, 0),
    (FinalTextTracker.textDelta (js "Done."), 1)]

theorem assistant_text_is_shared :
    ((afterEvents schemaZod id (fun _ => none) fresh (js "s") assistantTurn).trackers.get (js "s")).bind
      FinalTextTracker.snapshot = some ⟨js "Done.", false⟩ := by
  have h := (tap_agrees schemaZod id fun _ => none).1 fresh (js "s") assistantTurn (by decide) rfl (by decide)
    ⟨⟨fun _ _ => rfl, fun hty => absurd hty (by decide)⟩, ⟨fun hty => absurd hty (by decide), fun _ hr => absurd hr (by decide)⟩,
      trivial⟩
  rw [h.1]
  decide

/-- The user's prompt shows a completion block, and the assistant says nothing. -/
def echoedTurn : List (NormalizedEvent × ℚ) :=
  [({ type := NormalizedEvent.message_start, data := some (.obj [(js "role", .str (js "user"))]) }, 0),
    (FinalTextTracker.textDelta (fenced doneBlock.toJson []), 1)]

def turnEnd : NormalizedEvent := { type := NormalizedEvent.agent_end, timestamp := .fin 2 }

/-- The block the user's prompt shows becomes the session's completion; the run derives none. -/
theorem echoed_prompt_is_captured : ¬ ∀ (events : List (NormalizedEvent × ℚ)) (e : NormalizedEvent) (now : ℚ),
      (∀ ev ∈ events, ev.1.type ≠ NormalizedEvent.agent_end) → e.type = NormalizedEvent.agent_end →
      isValidTime (agentEndRaw (fun _ => none) e now) = true →
        (((afterEvents schemaZod id (fun _ => none) fresh (js "s") events).observe schemaZod id (fun _ => none)
          (js "s") e now).registry.entries.get (js "s")).map Surface.capture =
        let derived := completionFromSnapshot schemaZod id
          ((events.map (·.1) ++ [e]).foldl FinalTextTracker.observe completionTracker)
        if derived = {} then none else some derived := by
  intro h
  have hc := h echoedTurn turnEnd 3 (by decide) rfl (by decide +kernel)
  have htap : (((afterEvents schemaZod id (fun _ => none) fresh (js "s") echoedTurn).observe schemaZod id
      (fun _ => none) (js "s") turnEnd 3).registry.entries.get (js "s")).map Surface.capture =
        some { completion := some doneBlock, completionDelimiter := some .completion } := by
    decide +kernel
  have hrun : completionFromSnapshot schemaZod id
      ((echoedTurn.map (·.1) ++ [turnEnd]).foldl FinalTextTracker.observe completionTracker) = {} := by
    decide +kernel
  rw [htap] at hc
  simp only [hrun, if_true] at hc
  cases hc

end SessionCompletionTap

end PiWebUi.Completion
