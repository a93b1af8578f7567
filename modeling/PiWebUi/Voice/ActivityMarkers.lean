/-
  PiWebUi.Voice.ActivityMarkers — the activity markers that the bridge sends
  (gemini-live-bridge.ts: activityStart, activityEnd, sendMarker).

  Whether a span is open is one flag of the bridge, and `delivered` keeps beside it what was
  written to which provider session. `replaced`, which the code has not got, says that a
  session was put in place since the last `activityStart`: the flag is left as it is then.
  A session is put in place once, so no marker was written to it before
  (`follows_step`). Hence a span that is open is open in the session that is there, or
  that session has seen nothing (`Inv`), and the ends are matched exactly if none is
  written after such a replacement (`ends_matched_iff`).
-/

import PiWebUi.Lib.Run
import PiWebUi.Voice.GeminiLiveBridge

namespace PiWebUi.Voice

open Lib List Option

inductive Marker where
  | activityStart
  | activityEnd
  deriving DecidableEq

structure ActivityBridge where
  bridge : GeminiLiveBridge
  activityOpen : Bool := false
  /-- The markers written, each with the place of its session. -/
  delivered : List (ℕ × Marker) := []
  replaced : Bool := false
  deriving DecidableEq

/-- `fails` is the error of the write. -/
inductive ActivityEvent where
  | bridge (event : BridgeEvent)
  | activityStart (fails : Option JsString)
  | activityEnd (fails : Option JsString)
  deriving DecidableEq

namespace ActivityBridge

def sendMarker (s : ActivityBridge) (kind : Marker) (fails : Option JsString) : ActivityBridge × Bool :=
  match s.bridge.session with
  | none => (s, false)
  | some session =>
    if s.bridge.isLive then
      match fails with
      | some message => ({ s with bridge := s.bridge.deliver (.onError .voiceProviderUnavailable message false) }, false)
      | none => ({ s with delivered := s.delivered ++ [(session, kind)] }, true)
    else (s, false)

variable (c : BridgeConfig) (manualActivityDetection : Bool)

def activityStart (s : ActivityBridge) (fails : Option JsString) : ActivityBridge :=
  if manualActivityDetection then
    { (s.sendMarker .activityStart fails).1 with
      activityOpen := (s.sendMarker .activityStart fails).2
      replaced := false }
  else s

def activityEnd (s : ActivityBridge) (fails : Option JsString) : ActivityBridge :=
  if manualActivityDetection && s.activityOpen then ({ s with activityOpen := false }.sendMarker .activityEnd fails).1 else s

/-- Another session is in place. -/
def placed (s t : GeminiLiveBridge) : Bool := t.session.isSome && t.session ≠ s.session

def step (s : ActivityBridge) : ActivityEvent → ActivityBridge
  | .bridge event =>
    { s with
      bridge := s.bridge.step c event
      replaced := s.replaced || placed s.bridge (s.bridge.step c event) }
  | .activityStart fails => s.activityStart manualActivityDetection fails
  | .activityEnd fails => s.activityEnd manualActivityDetection fails

def new (resumptionHandle : Option JsString) : ActivityBridge := { bridge := .new resumptionHandle }

end ActivityBridge

/-! ## What is claimed -/

/-- The last marker that was written to the session. -/
def lastMarker (delivered : List (ℕ × Marker)) (session : ℕ) : Option Marker :=
  ((delivered.filter (·.1 = session)).getLast?).map (·.2)

/-- Every end is preceded, in its session, by a start with no end in between. -/
def Matched (delivered : List (ℕ × Marker)) : Prop :=
  ∀ before session after, delivered = before ++ (session, .activityEnd) :: after →
    lastMarker before session = some .activityStart

/-- No end is written to a session that was put in place since the last `activityStart`. -/
def Unreplaced (manualActivityDetection : Bool) (s : ActivityBridge) (e : ActivityEvent) : Prop :=
  e = .activityEnd none → (manualActivityDetection && s.activityOpen && s.bridge.isLive) = true → s.replaced = false

theorem lastMarker_concat (delivered : List (ℕ × Marker)) (k session : ℕ) (kind : Marker) :
    lastMarker (delivered ++ [(k, kind)]) session = if k = session then some kind else lastMarker delivered session := by
  by_cases h : k = session <;> simp [lastMarker, filter_append, h]

theorem lastMarker_of_not_mem {delivered : List (ℕ × Marker)} {session : ℕ} (h : ∀ kind, (session, kind) ∉ delivered) :
    lastMarker delivered session = none := by
  have hnone : delivered.filter (·.1 = session) = [] := by
    refine filter_eq_nil_iff.mpr fun m hm hsession => ?_
    obtain ⟨k, kind⟩ := m
    obtain rfl : k = session := by simpa using hsession
    exact h kind hm
  simp [lastMarker, hnone]

theorem matched_concat {delivered : List (ℕ × Marker)} {k : ℕ} {kind : Marker} : Matched (delivered ++ [(k, kind)]) ↔
      Matched delivered ∧ (kind = .activityEnd → lastMarker delivered k = some .activityStart) := by
  constructor
  · intro h
    refine ⟨fun before session after hsplit => ?_, fun hkind => ?_⟩
    · apply h before session (after ++ [(k, kind)])
      rw [hsplit]
      simp
    · exact h delivered k [] (by rw [hkind])
  · rintro ⟨h, hlast⟩ before session after hsplit
    rcases eq_nil_or_concat after with rfl | ⟨rest, m, rfl⟩
    · obtain ⟨rfl, hm⟩ := append_inj' hsplit rfl
      obtain ⟨rfl, hkind⟩ := Prod.mk.inj (singleton_inj.mp hm)
      exact hlast hkind
    · rw [concat_eq_append, ← List.cons_append, ← append_assoc] at hsplit
      exact h before session rest (append_inj_left' hsplit rfl)

/-! ## Sessions are put in place once -/

namespace GeminiLiveBridge

/-- The promise of the session has resolved. -/
def Settled (s : GeminiLiveBridge) (k : ℕ) : Prop := (s.sessions[k]?.map (·.promise)) = some .resolved

/-- What a step does to the sessions: none comes back, and one that is put in place was
    pending. -/
structure Follows (s t : GeminiLiveBridge) : Prop where
  settled : ∀ k, s.Settled k → t.Settled k
  session : t.session = s.session ∨ t.session = none ∨ ∃ k, t.session = some k ∧ ¬ s.Settled k ∧ t.Settled k

theorem Follows.of_kept {s t : GeminiLiveBridge} (hsessions : t.sessions = s.sessions)
    (hsession : t.session = s.session ∨ t.session = none) : Follows s t := by
  refine ⟨fun k hk => ?_, ?_⟩
  · rw [Settled, hsessions]
    exact hk
  · rcases hsession with h | h
    · exact .inl h
    · exact .inr (.inl h)

theorem Follows.refl (s : GeminiLiveBridge) : Follows s s := .of_kept rfl (.inl rfl)

theorem Follows.trans {s t u : GeminiLiveBridge} (h : Follows s t) (h' : Follows t u) : Follows s u := by
  refine ⟨fun k hk => h'.settled k (h.settled k hk), ?_⟩
  rcases h'.session with hsame | hnone | ⟨k, hk, hfresh, hset⟩
  · rcases h.session with h1 | h1 | ⟨k, hk, hfresh, hset⟩
    · exact .inl (hsame.trans h1)
    · exact .inr (.inl (hsame.trans h1))
    · exact .inr (.inr ⟨k, hsame.trans hk, hfresh, h'.settled k hset⟩)
  · exact .inr (.inl hnone)
  · exact .inr (.inr ⟨k, hk, fun hs => hfresh (h.settled k hs), hset⟩)

/-- A step that goes on from a state with the same sessions. -/
theorem Follows.after {s t u : GeminiLiveBridge} (h : Follows t u) (hsessions : t.sessions = s.sessions)
    (hsession : t.session = s.session ∨ t.session = none) : Follows s u := (Follows.of_kept hsessions hsession).trans h

theorem promise_modify (l : List ProviderSession) (i k : ℕ) (f : ProviderSession → ProviderSession) :
    ((l.modify i f)[k]?).map (·.promise) = (l[k]?).map fun p => if i = k then (f p).promise else p.promise := by
  rw [getElem?_modify]
  cases l[k]? with
  | none => rfl
  | some p =>
    by_cases hik : i = k <;> simp [hik]

theorem settled_modify {s : GeminiLiveBridge} {i k : ℕ} {p : ProviderSession} (hp : s.sessions[i]? = some p)
    (hpending : p.promise = .pending) (hk : s.Settled k) (f : ProviderSession → ProviderSession) :
    ((s.sessions.modify i f)[k]?).map (·.promise) = some .resolved := by
  have hne : i ≠ k := by
    rintro rfl
    simp [Settled, hp, hpending] at hk
  simp only [promise_modify, if_neg hne]
  exact hk

/-- Each session keeps its promise. -/
theorem Follows.of_modify {s t : GeminiLiveBridge} {i : ℕ} {f : ProviderSession → ProviderSession}
    (hf : ∀ p, (f p).promise = p.promise) (hsessions : t.sessions = s.sessions.modify i f)
    (hsession : t.session = s.session ∨ t.session = none) : Follows s t := by
  refine ⟨fun k hk => ?_, ?_⟩
  · simp only [Settled, hsessions, promise_modify, hf, ite_self]
    exact hk
  · rcases hsession with h | h
    · exact .inl h
    · exact .inr (.inl h)

theorem follows_dropSession (s : GeminiLiveBridge) : Follows s s.dropSession := by
  cases hs : s.session with
  | none => exact .of_kept (by simp [dropSession, hs]) (.inr rfl)
  | some k =>
    have hsessions : s.dropSession.sessions = s.sessions.modify k fun p => { p with closed := true } := by
      simp only [dropSession, hs, elim_some]
    exact @Follows.of_modify s _ k (fun p => { p with closed := true }) (fun _ => rfl) hsessions (.inr rfl)

theorem follows_openSession (s : GeminiLiveBridge) (reconnect : Bool) : Follows s (s.openSession reconnect) := by
  refine ⟨fun k hk => ?_, .inl rfl⟩
  have hlt : k < s.sessions.length := by
    by_contra hge
    simp [Settled, getElem?_eq_none (Nat.le_of_not_lt hge)] at hk
  rw [Settled, openSession, getElem?_append_left hlt]
  exact hk

theorem follows_beginReconnect (c : BridgeConfig) (s : GeminiLiveBridge) (reason : JsString) :
    Follows s (s.beginReconnect c reason) := by
  rw [beginReconnect]
  split
  · exact .refl s
  · split
    · exact .of_kept rfl (.inl rfl)
    · split
      · exact .of_kept rfl (.inl rfl)
      · exact (follows_dropSession s).trans (.of_kept rfl (.inl rfl))

theorem follows_resolve (s : GeminiLiveBridge) (i : ℕ) : Follows s (s.resolve i) := by
  rw [resolve]
  cases hp : s.sessions[i]? with
  | none => exact .refl s
  | some p =>
    by_cases hpending : p.promise = .pending
    · simp only [hpending, if_true]
      by_cases hclosing : s.closing = true
      · rw [if_pos hclosing]
        exact ⟨fun k hk => settled_modify hp hpending hk _, .inl rfl⟩
      · rw [if_neg hclosing]
        refine ⟨fun k hk => settled_modify hp hpending hk _, .inr (.inr ⟨i, rfl, ?_, ?_⟩)⟩
        · simp [Settled, hp, hpending]
        · simp [Settled, hp]
    · simp only [hpending, if_false]
      exact .refl s

theorem follows_perform (c : BridgeConfig) (s : GeminiLiveBridge) (ackFails : Option JsString) (action : Action) :
    Follows s (s.perform c ackFails action) := by
  cases action with
  | callback callback | setState state detail | setup | schedule | toolCalls calls | awaitTools => exact .of_kept rfl (.inl rfl)
  | resumptionUpdate newHandle resumable =>
    rw [perform]
    split
    · exact .refl s
    · exact .of_kept rfl (.inl rfl)
  | beginReconnect reason => exact follows_beginReconnect c s reason
  | acknowledge =>
    by_cases hgone : (s.session.isNone || s.closing) = true
    · simp only [perform, acknowledge, hgone, if_true]
      exact .refl s
    · simp only [perform, acknowledge, hgone]
      cases ackFails with
      | none => exact .refl s
      | some message => exact .of_kept rfl (.inl rfl)

theorem follows_close (s : GeminiLiveBridge) : Follows s s.close := by
  rw [close]
  split
  · exact .refl s
  · have hclosing : Follows s
        { s with closing := true, reconnecting := false, resumingSession := false, pendingReconnect := false } :=
      .of_kept rfl (.inl rfl)
    exact (hclosing.trans (follows_dropSession _)).trans (.of_kept rfl (.inl rfl))

theorem follows_reject (s : GeminiLiveBridge) (i : ℕ) (message : JsString) : Follows s (s.reject i message) := by
  rw [reject]
  cases hp : s.sessions[i]? with
  | none => exact .refl s
  | some p =>
    by_cases hpending : p.promise = .pending
    · simp only [hpending, if_true]
      exact ⟨fun k hk => settled_modify hp hpending hk _, .inl rfl⟩
    · simp only [hpending, if_false]
      exact .refl s

theorem follows_handleSocketClose (c : BridgeConfig) (s : GeminiLiveBridge) (i : ℕ) : Follows s (s.handleSocketClose c i) := by
  have hended : Follows s { s with sessions := s.sessions.modify i fun p => { p with ended := true } } := by
    exact @Follows.of_modify s _ i (fun p => { p with ended := true }) (fun _ => rfl) rfl (.inl rfl)
  have hdropped : Follows s { s with sessions := s.sessions.modify i fun p => { p with ended := true }, session := none } :=
    hended.trans (.of_kept rfl (.inr rfl))
  simp only [handleSocketClose]
  split
  · exact hended.trans (.of_kept rfl (.inl rfl))
  · split
    · exact hdropped
    · exact hdropped.trans ((follows_beginReconnect c _ _).after rfl (.inl rfl))

theorem follows_timer (s : GeminiLiveBridge) : Follows s s.timer := by
  by_cases hpending : s.pendingReconnect = true
  · by_cases hclosing : s.closing = true
    · simp only [timer, hpending, hclosing, if_true]
      exact .of_kept rfl (.inl rfl)
    · simp only [timer, hpending, hclosing, if_true, Bool.false_eq_true, if_false]
      exact (follows_openSession _ true).after rfl (.inl rfl)
  · simp only [timer, hpending]
    exact .refl s

theorem follows_step (c : BridgeConfig) (s : GeminiLiveBridge) (e : BridgeEvent) : Follows s (s.step c e) := by
  cases e with
  | connect =>
    simp only [step, connect]
    split
    · exact .refl s
    · split
      · exact .refl s
      · exact follows_openSession s false
  | close => exact follows_close s
  | go ackFails =>
    simp only [step, go]
    cases s.todo with
    | nil => exact .refl s
    | cons action rest => exact (follows_perform c _ ackFails action).after rfl (.inl rfl)
  | send fails =>
    simp only [step, send]
    cases fails with
    | none => exact .refl s
    | some message =>
      by_cases hlive : s.isLive = true
      · simp only [hlive, if_true]
        exact .of_kept rfl (.inl rfl)
      · simp only [hlive]
        exact .refl s
  | resolve i =>
    simp only [step]
    split
    · exact follows_resolve s i
    · exact .refl s
  | reject i message =>
    simp only [step]
    split
    · exact follows_reject s i message
    · exact .refl s
  | socketError i message =>
    simp only [step, handleSocketError]
    split
    · split
      · exact .refl s
      · exact .of_kept rfl (.inl rfl)
    · exact .refl s
  | socketClose i =>
    simp only [step]
    split
    · exact follows_handleSocketClose c s i
    · exact .refl s
  | message i m =>
    simp only [step]
    split
    · exact .of_kept rfl (.inl rfl)
    · exact .refl s
  | timer =>
    simp only [step]
    split
    · exact follows_timer s
    · exact .refl s
  | toolsSettled failed =>
    simp only [step, toolsSettled]
    split
    · split
      · exact .of_kept rfl (.inl rfl)
      · exact .refl s
    · exact .refl s

end GeminiLiveBridge

/-! ## The invariant -/

namespace ActivityBridge

/-- An open span was started in the session that is in place, or nothing was written to
    that session. -/
structure Inv (s : ActivityBridge) : Prop where
  current : ∀ k, s.bridge.session = some k → s.bridge.Settled k
  delivered : ∀ m ∈ s.delivered, s.bridge.Settled m.1
  started : s.activityOpen = true → s.replaced = false → ∀ k, s.bridge.session = some k →
    lastMarker s.delivered k = some .activityStart
  fresh : s.activityOpen = true → s.replaced = true → ∀ k, s.bridge.session = some k → ∀ kind, (k, kind) ∉ s.delivered

theorem inv_new (handle : Option JsString) : Inv (new handle) where
  current k hk := (by cases hk)
  delivered m hm := (by cases hm)
  started h := (by cases h)
  fresh h := (by cases h)

variable {c : BridgeConfig} {manualActivityDetection : Bool} {s : ActivityBridge}

theorem inv_bridge (h : Inv s) (e : BridgeEvent) : Inv (step c manualActivityDetection s (.bridge e)) := by
  have hfollows := GeminiLiveBridge.follows_step c s.bridge e
  have hdelivered : ∀ m ∈ s.delivered, (s.bridge.step c e).Settled m.1 := fun m hm => hfollows.settled m.1 (h.delivered m hm)
  rcases hfollows.session with hsame | hnone | ⟨k, hk, hfresh, hsettled⟩
  · have hplaced : placed s.bridge (s.bridge.step c e) = false := by simp [placed, hsame]
    constructor
    · intro k hk
      exact hfollows.settled k (h.current k (hsame ▸ hk))
    · exact hdelivered
    · intro hopen hreplaced k hk
      exact h.started hopen (by simpa [step, hplaced] using hreplaced) k (hsame ▸ hk)
    · intro hopen hreplaced k hk
      exact h.fresh hopen (by simpa [step, hplaced] using hreplaced) k (hsame ▸ hk)
  · constructor
    · intro k hk
      cases hnone.symm.trans hk
    · exact hdelivered
    · intro _ _ k hk
      cases hnone.symm.trans hk
    · intro _ _ k hk
      cases hnone.symm.trans hk
  · -- The new session was pending, and what was written went to sessions that were not.
    have hplaced : placed s.bridge (s.bridge.step c e) = true := by
      have hne : s.bridge.session ≠ some k := fun hs => hfresh (h.current k hs)
      simp only [placed, hk, isSome_some, Bool.true_and, decide_eq_true_eq]
      exact fun hs => hne hs.symm
    constructor
    · intro j hj
      obtain rfl := some.inj (hk.symm.trans hj)
      exact hsettled
    · exact hdelivered
    · intro _ hreplaced
      simp [step, hplaced] at hreplaced
    · intro _ _ j hj kind hmem
      obtain rfl := some.inj (hk.symm.trans hj)
      exact hfresh (h.delivered _ hmem)

/-- What a marker's sending does: nothing, a report of the failed write, or the write. -/
theorem sendMarker_cases (s : ActivityBridge) (kind : Marker) (fails : Option JsString) :
    ((s.sendMarker kind fails).2 = false ∧ (s.sendMarker kind fails).1.delivered = s.delivered ∧
      (s.bridge.isLive = true → fails ≠ none)) ∨
    ∃ k, s.bridge.session = some k ∧ s.bridge.isLive = true ∧ fails = none ∧ (s.sendMarker kind fails).2 = true ∧
      (s.sendMarker kind fails).1.delivered = s.delivered ++ [(k, kind)] := by
  cases hsession : s.bridge.session with
  | none =>
    refine .inl ⟨by simp [sendMarker, hsession], by simp [sendMarker, hsession], ?_⟩
    simp [GeminiLiveBridge.isLive, hsession]
  | some k =>
    by_cases hlive : s.bridge.isLive = true
    · cases fails with
      | some message => exact .inl ⟨by simp [sendMarker, hsession, hlive], by simp [sendMarker, hsession, hlive], by simp⟩
      | none => exact .inr ⟨k, rfl, hlive, rfl, by simp [sendMarker, hsession, hlive], by simp [sendMarker, hsession, hlive]⟩
    · exact .inl ⟨by simp [sendMarker, hsession, hlive], by simp [sendMarker, hsession, hlive], by simp [hlive]⟩

/-- It leaves the sessions and the flags alone. -/
theorem sendMarker_frame (s : ActivityBridge) (kind : Marker) (fails : Option JsString) :
    (s.sendMarker kind fails).1.bridge.session = s.bridge.session ∧
      (s.sendMarker kind fails).1.bridge.sessions = s.bridge.sessions ∧
      (s.sendMarker kind fails).1.activityOpen = s.activityOpen ∧ (s.sendMarker kind fails).1.replaced = s.replaced := by
  rw [sendMarker]
  cases hsession : s.bridge.session with
  | none => exact ⟨hsession, rfl, rfl, rfl⟩
  | some k =>
    by_cases hlive : s.bridge.isLive = true
    · cases fails with
      | some message => simp [hlive, GeminiLiveBridge.deliver, hsession]
      | none => simp [hlive, hsession]
    · simp [hlive, hsession]

theorem settled_sendMarker {kind : Marker} {fails : Option JsString} {k : ℕ} :
    (s.sendMarker kind fails).1.bridge.Settled k ↔ s.bridge.Settled k := by
  simp only [GeminiLiveBridge.Settled, (sendMarker_frame s kind fails).2.1]

theorem delivered_settled (h : Inv s) {kind : Marker} {fails : Option JsString} :
    ∀ m ∈ (s.sendMarker kind fails).1.delivered, s.bridge.Settled m.1 := by
  intro m hm
  rcases sendMarker_cases s kind fails with ⟨-, hsame, -⟩ | ⟨k, hk, -, -, -, hwritten⟩
  · exact h.delivered m (hsame ▸ hm)
  · rw [hwritten] at hm
    rcases mem_append.mp hm with hm | hm
    · exact h.delivered m hm
    · rw [mem_singleton.mp hm]
      exact h.current k hk

theorem inv_activityStart (h : Inv s) (fails : Option JsString) : Inv (s.activityStart manualActivityDetection fails) := by
  rw [activityStart]
  split
  · obtain ⟨hsession, -, -, -⟩ := sendMarker_frame s .activityStart fails
    constructor
    · intro k hk
      exact settled_sendMarker.mpr (h.current k (hsession ▸ hk))
    · intro m hm
      exact settled_sendMarker.mpr (delivered_settled h m hm)
    · intro hopen _ k hk
      rcases sendMarker_cases s .activityStart fails with ⟨hfalse, -, -⟩ | ⟨j, hj, -, -, -, hwritten⟩
      · cases hfalse.symm.trans hopen
      · obtain rfl : j = k := some.inj (hj.symm.trans (hsession ▸ hk))
        simp [hwritten, lastMarker_concat]
    · intro _ hreplaced
      cases hreplaced
  · exact h

theorem inv_activityEnd (h : Inv s) (fails : Option JsString) : Inv (s.activityEnd manualActivityDetection fails) := by
  rw [activityEnd]
  split
  · have hclosed : Inv { s with activityOpen := false } :=
      ⟨h.current, h.delivered, nofun, nofun⟩
    obtain ⟨hsession, -, hopen, -⟩ := sendMarker_frame { s with activityOpen := false } .activityEnd fails
    constructor
    · intro k hk
      exact settled_sendMarker.mpr (h.current k (hsession ▸ hk))
    · intro m hm
      exact settled_sendMarker.mpr (delivered_settled hclosed m hm)
    · intro hopen'
      cases hopen.symm.trans hopen'
    · intro hopen'
      cases hopen.symm.trans hopen'
  · exact h

theorem inv_step (s : ActivityBridge) (e : ActivityEvent) (h : Inv s) : Inv (step c manualActivityDetection s e) := by
  cases e with
  | bridge event => exact inv_bridge h event
  | activityStart fails => exact inv_activityStart h fails
  | activityEnd fails => exact inv_activityEnd h fails

/-! ## Matched ends -/

/-- A step keeps the ends matched exactly if it is not a write of an end after a
    replacement. -/
theorem matched_step (s : ActivityBridge) (e : ActivityEvent) (h : Inv s) : Matched (step c manualActivityDetection s e).delivered ↔
      Matched s.delivered ∧ Unreplaced manualActivityDetection s e := by
  cases e with
  | bridge event => simp [step, Unreplaced]
  | activityStart fails =>
    simp only [step, activityStart, Unreplaced, reduceCtorEq, false_implies, and_true]
    cases manualActivityDetection with
    | false => rfl
    | true =>
      rcases sendMarker_cases s .activityStart fails with ⟨-, hsame, -⟩ | ⟨k, -, -, -, -, hwritten⟩
      · simp [hsame]
      · simp [hwritten, matched_concat]
  | activityEnd fails =>
    simp only [step, activityEnd, Unreplaced, ActivityEvent.activityEnd.injEq]
    by_cases hguard : (manualActivityDetection && s.activityOpen) = true
    · rw [if_pos hguard]
      have hopen : s.activityOpen = true := by
        rw [Bool.and_eq_true] at hguard
        exact hguard.2
      rcases sendMarker_cases { s with activityOpen := false } .activityEnd fails with
        ⟨-, hsame, hlost⟩ | ⟨k, hk, hlive, rfl, -, hwritten⟩
      · rw [hsame]
        constructor
        · intro hm
          refine ⟨hm, fun hfails hlive => absurd hfails (hlost ?_)⟩
          rw [Bool.and_eq_true] at hlive
          exact hlive.2
        · exact fun hm => hm.1
      · rw [hwritten, matched_concat]
        have hlive' : s.bridge.isLive = true := hlive
        simp only [hguard, hlive', Bool.and_self, true_implies]
        have hiff : lastMarker s.delivered k = some .activityStart ↔ s.replaced = false := by
          cases hreplaced : s.replaced with
          | false => simp [h.started hopen hreplaced k hk]
          | true => simp [lastMarker_of_not_mem (h.fresh hopen hreplaced k hk)]
        rw [← hiff]
    · rw [if_neg hguard]
      simp [hguard]

end ActivityBridge

open ActivityBridge in
/-- In every run, the ends that reach a provider session are matched by starts in it exactly
    if none is written after a session was put in place that the last start did not go to. -/
theorem ends_matched_iff (c : BridgeConfig) (manualActivityDetection : Bool) (handle : Option JsString) (es : List ActivityEvent) :
    Matched (es.foldl (step c manualActivityDetection) (new handle)).delivered ↔
      Run.Along (step c manualActivityDetection) (Unreplaced manualActivityDetection) (new handle) es := by
  have hstep : ∀ (s : ActivityBridge) (e : ActivityEvent), Inv s →
      (Matched (step c manualActivityDetection s e).delivered ↔ Matched s.delivered ∧ Unreplaced manualActivityDetection s e) :=
    fun s e h => matched_step s e h
  rw [Run.holds_iff_along (I := Inv) (P := fun s => Matched s.delivered) inv_step hstep (inv_new handle)]
  have hstart : Matched (new handle).delivered := by
    intro before session after hsplit
    simp [new] at hsplit
  exact and_iff_right hstart

/-- The operator speaks, the provider asks for a reconnect, the operator stops. -/
def spokenAcrossReconnect : List ActivityEvent :=
  [.bridge .connect, .bridge (.resolve 0),
    .bridge (.message 0 { setupComplete := true, newHandle := js "h", resumable := true }),
    .bridge (.go none), .bridge (.go none), .bridge (.go none), .bridge (.go none),
    .activityStart none,
    .bridge (.message 0 { goAway := some none }),
    .bridge (.go none), .bridge (.go none), .bridge (.go none), .bridge (.go none), .bridge (.go none),
    .bridge .timer, .bridge (.resolve 1),
    .bridge (.message 1 { setupComplete := true }),
    .bridge (.go none), .bridge (.go none), .bridge (.go none), .bridge (.go none),
    .activityEnd none]

/-- The end reaches the second session, which never saw a start. -/
theorem end_unmatched : (spokenAcrossReconnect.foldl (ActivityBridge.step ⟨3, true⟩ true) (.new none)).delivered =
        [(0, .activityStart), (1, .activityEnd)] ∧
      ¬ Matched (spokenAcrossReconnect.foldl (ActivityBridge.step ⟨3, true⟩ true) (.new none)).delivered := by
  have hdelivered : (spokenAcrossReconnect.foldl (ActivityBridge.step ⟨3, true⟩ true) (.new none)).delivered =
      [(0, .activityStart), (1, .activityEnd)] := by decide +kernel
  refine ⟨hdelivered, fun h => ?_⟩
  have hlast := h [(0, .activityStart)] 1 [] hdelivered
  revert hlast
  decide

end PiWebUi.Voice
