/-
  PiWebUi.EventBroker.Gapless — what a late subscriber receives, and what replay admits
  to have lost.

  The stream of a session is what `deliver` sends, in order. At every point of every run
  the session's replay buffer is the end of that stream: a delivery appends to both, and
  whatever removes events takes the oldest ones or the whole buffer. So a subscriber that
  joins with replay receives a contiguous run of the stream up to the newest event.
-/

import PiWebUi.EventBroker.Bounds
import PiWebUi.Lib.JsNumberOrder
import Mathlib.Data.Finset.Card

namespace PiWebUi.EventBroker

open Lib List

variable (c : Config)

structure ReplayStatus where
  incomplete : Bool
  evictedEvents : ℕ

def getReplayStatus (k : SessionId) (b : Broker) : ReplayStatus :=
  let evictedEvents := (b.evictedEventsBySession.get k).getD 0
  ⟨0 < evictedEvents, evictedEvents⟩

/-! ## The deliveries of a publish -/

/-- A call of `deliver`, and the broker it starts from. -/
structure Delivery where
  session : SessionId
  event : NormalizedEvent
  before : Broker

def flushDeliveries (k : SessionId) (b : Broker) : List Delivery :=
  match b.pendingUpdates.get k with
  | none => []
  | some p =>
    let b := { b with pendingUpdates := b.pendingUpdates.delete k }
    [⟨k, stamped p, spend k (fun tokens => (num 0).max (tokens.sub (num 1))) b⟩]

def updateDeliveries (k : SessionId) (e : NormalizedEvent) (now : JsNumber) (b : Broker) : List Delivery :=
  let b := refill c k now b
  let flushing := b.pendingUpdates.has k && (num 1).lt (availableTokens c k b)
  let flushed := if flushing then flushPending c k b else (b, [])
  (if flushing then flushDeliveries k b else []) ++
    if (availableTokens c k flushed.1).le (num 1) then []
    else [⟨k, e, spend k (fun tokens => tokens.sub (num 1)) flushed.1⟩]

def publishDeliveries (k : SessionId) (e : NormalizedEvent) (env : Env) (b : Broker) : List Delivery :=
  if env.disposed then []
  else
    let e := admitted c k e env
    if isUpdate e then updateDeliveries c k e env.now b
    else flushDeliveries k b ++ [⟨k, e, (flushPending c k b).1⟩]

def deliveries (b : Broker) : Op → List Delivery
  | .publish k e env => publishDeliveries c k e env b
  | _ => []

/-- Only pending updates and rates change. -/
structure Quiet (b b' : Broker) : Prop where
  replay : SameReplay b b'
  markers : b'.evictedEventsBySession = b.evictedEventsBySession

/-- A step that makes these deliveries, and between them no other change to what is
    replayed. -/
inductive Performs : Broker → List Delivery → Broker × List Invocation → Prop where
  | start (b : Broker) : Performs b [] (b, [])
  | quiet {b b' : Broker} {ds : List Delivery} {r : Broker × List Invocation} (h : Performs b ds r) (hq : Quiet r.1 b') :
      Performs b ds (b', r.2)
  | deliver {b : Broker} {ds : List Delivery} {r : Broker × List Invocation} (h : Performs b ds r) (k : SessionId)
      (e : NormalizedEvent) :
      Performs b (ds ++ [⟨k, e, r.1⟩]) ((deliver c k e r.1).1, r.2 ++ (deliver c k e r.1).2)

theorem quiet_spend (k : SessionId) (f : JsNumber → JsNumber) (b : Broker) : Quiet b (spend k f b) :=
  ⟨same_spend k f b, by unfold spend; split <;> rfl⟩

variable {c}

variable {b b' : Broker} {ds : List Delivery} {r : Broker × List Invocation} {k : SessionId}
  {stream : List NormalizedEvent} {s : SubscriberId} {m : Finset SessionId}

theorem Performs.flushPending (h : Performs c b ds r) (k : SessionId) :
    Performs c b (ds ++ flushDeliveries k r.1) ((flushPending c k r.1).1, r.2 ++ (flushPending c k r.1).2) := by
  unfold flushDeliveries EventBroker.flushPending
  cases hp : r.1.pendingUpdates.get k with
  | none => simpa using h
  | some p =>
    have hdel : Quiet r.1 { r.1 with pendingUpdates := r.1.pendingUpdates.delete k } := ⟨⟨rfl, rfl, rfl, rfl⟩, rfl⟩
    have hspend := (h.quiet hdel).quiet (quiet_spend k (fun tokens => (num 0).max (tokens.sub (num 1))) _)
    exact hspend.deliver k (stamped p)

theorem performs_publishUpdate (k : SessionId) (e : NormalizedEvent) (now : JsNumber) (b : Broker) :
    Performs c b (updateDeliveries c k e now b) (publishUpdate c k e now b) := by
  have hr : Performs c b [] (refill c k now b, []) := (Performs.start b).quiet ⟨same_refill k now b, rfl⟩
  unfold updateDeliveries publishUpdate
  dsimp only
  generalize hflush : (if (refill c k now b).pendingUpdates.has k && (num 1).lt (availableTokens c k (refill c k now b)) then
    flushPending c k (refill c k now b) else (refill c k now b, [])) = flushed
  generalize hds : (if (refill c k now b).pendingUpdates.has k && (num 1).lt (availableTokens c k (refill c k now b)) then
    flushDeliveries k (refill c k now b) else []) = ds
  have hf : Performs c b ds flushed := by
    rw [← hflush, ← hds]
    split
    · simpa using hr.flushPending k
    · exact hr
  by_cases hle : (availableTokens c k flushed.1).le (num 1) = true
  · rw [if_pos hle, if_pos hle, append_nil]
    exact hf.quiet ⟨same_hold k e flushed.1, rfl⟩
  · rw [if_neg hle, if_neg hle]
    exact (hf.quiet (quiet_spend k (fun tokens => tokens.sub (num 1)) flushed.1)).deliver k e

/-- A publish is its deliveries: it invokes nothing else and keeps nothing else. -/
theorem performs_publish (k : SessionId) (e : NormalizedEvent) (env : Env) (b : Broker) :
    Performs c b (publishDeliveries c k e env b) (publish c k e env b) := by
  unfold publishDeliveries publish
  by_cases hd : env.disposed = true
  · rw [if_pos hd, if_pos hd]
    exact .start b
  rw [if_neg hd, if_neg hd]
  dsimp only
  by_cases hu : isUpdate (admitted c k e env) = true
  · rw [if_pos hu, if_pos hu]
    exact performs_publishUpdate k _ env.now b
  · rw [if_neg hu, if_neg hu]
    have hf := (Performs.start (c := c) b).flushPending k
    simpa using hf.deliver k (admitted c k e env)

/-! ## The end of the stream -/

theorem sound_quiet (h : Sound c b) (hq : Quiet b b') : Sound c b' := h.of_same hq.replay

theorem bufferOf_quiet (hq : Quiet b b') (k : SessionId) : bufferOf k b' = bufferOf k b := by
  rw [bufferOf, hq.replay.buffers, bufferOf]

section Suffix

variable (c) (j : SessionId)

theorem suffix_delete {b b' : Broker} (k : SessionId) (h : b'.replayBuffers = b.replayBuffers.delete k) :
    bufferOf j b' <:+ bufferOf j b := by
  rw [bufferOf, h, JsMap.get_delete]
  by_cases hj : j = k
  · simp [hj]
  · simp [hj, bufferOf]

theorem suffix_evictOnce (b : Broker) : bufferOf j (evictOnce c b) <:+ bufferOf j b := by
  unfold evictOnce
  split
  · next k _ => exact suffix_delete j k (dropSessionState_buffers c k 0 b)
  · split
    · exact suffix_refl _
    · next k es _ => exact suffix_delete j k rfl
    · next k old buffer es hes =>
      have hset : (evictOldest c k old buffer b).replayBuffers = b.replayBuffers.set k buffer := rfl
      rw [bufferOf, hset, JsMap.get_set]
      by_cases hj : j = k
      · rw [if_pos hj, bufferOf, hj, get_head hes]
        exact suffix_cons old buffer
      · rw [if_neg hj]
        exact suffix_refl _

theorem suffix_evictBudget (n : ℕ) : ∀ b : Broker, bufferOf j (evictBudget c n b) <:+ bufferOf j b := by
  induction n with
  | zero => intro b; exact suffix_refl _
  | succ n ih =>
    intro b
    simp only [evictBudget]
    split
    · exact (ih _).trans (suffix_evictOnce c j b)
    · exact suffix_refl _

theorem suffix_evictColdKeys (n : ℕ) : ∀ b : Broker, bufferOf j (evictColdKeys c n b) <:+ bufferOf j b := by
  induction n with
  | zero => intro b; exact suffix_refl _
  | succ n ih =>
    intro b
    simp only [evictColdKeys]
    split
    · split
      · next k _ => exact (ih _).trans (suffix_delete j k (dropSessionState_buffers c k 0 b))
      · exact suffix_refl _
    · exact suffix_refl _

theorem suffix_enforce (b : Broker) : bufferOf j (enforceGlobalBounds c b) <:+ bufferOf j b :=
  (suffix_evictColdKeys c j GUARD _).trans (suffix_evictBudget c j GUARD b)

end Suffix

theorem bufferOf_retain (h : Tracked b) (k j : SessionId) (m : MeasuredEvent) :
    bufferOf j (retain c k m b) = if j = k then (trimmed c k m b).1 else bufferOf j b := by
  have hset : (retain c k m b).replayBuffers = b.replayBuffers.set k (trimmed c k m b).1 :=
    congrArg (·.set k (trimmed c k m b).1) (trims_trimmed c h k m).buffers
  rw [bufferOf, hset, JsMap.get_set]
  by_cases hj : j = k
  · rw [if_pos hj, if_pos hj, Option.getD_some]
  · rw [if_neg hj, if_neg hj, bufferOf]

/-- The events of session `k` that are kept for replay. -/
def replayed (k : SessionId) (b : Broker) : List NormalizedEvent := (bufferOf k b).map (·.event)

theorem replayed_quiet (hq : Quiet b b') (k : SessionId) : replayed k b' = replayed k b := by
  rw [replayed, bufferOf_quiet hq, replayed]

/-- Step lemma: what replay keeps stays the end of the stream through a delivery. -/
theorem replayed_deliver (h : Sound c b) (j : SessionId) (e : NormalizedEvent) (hs : replayed k b <:+ stream) :
    replayed k (deliver c j e b).1 <:+ stream ++ if j = k then [slim c e] else [] := by
  simp only [deliver]
  split
  · have hsuffix := suffix_enforce c k (retain c j (measureAndSlim e c.eventPayloadMaxBytes) b)
    rw [bufferOf_retain h.tracked] at hsuffix
    by_cases hj : j = k
    · subst hj
      rw [if_pos rfl] at hsuffix ⊢
      have hall := (hsuffix.trans (trims_trimmed c h.tracked j _).suffix).map (fun entry : BufferedEvent => entry.event)
      rw [map_append] at hall
      exact hall.trans (suffix_append_self_iff.mpr hs)
    · rw [if_neg (Ne.symm hj)] at hsuffix
      rw [if_neg hj, append_nil]
      exact (hsuffix.map (fun entry : BufferedEvent => entry.event)).trans hs
  · next hr =>
    have hempty : b.replayBuffers.entries = [] := h.empty (by simpa [retains] using hr)
    have hnil : replayed k b = [] := by simp [replayed, bufferOf, JsMap.get, hempty]
    rw [hnil]
    exact nil_suffix

variable (c) in
/-- What deliveries put on the streams. -/
def sent (ds : List Delivery) : List (SessionId × NormalizedEvent) := ds.map fun d => (d.session, slim c d.event)

theorem publishedTo_sent_concat (k : SessionId) (ds : List Delivery) (d : Delivery) :
    publishedTo k (sent c (ds ++ [d])) = publishedTo k (sent c ds) ++ if d.session = k then [slim c d.event] else [] := by
  by_cases hd : d.session = k <;> simp [sent, publishedTo, filter_append, hd]

theorem Performs.replayed (hc : Nonneg c) (h : Performs c b ds r) (hb : Sound c b)
    (hs : replayed k b <:+ stream) : Sound c r.1 ∧ EventBroker.replayed k r.1 <:+ stream ++ publishedTo k (sent c ds) := by
  induction h with
  | start => exact ⟨hb, by simpa [sent, publishedTo] using hs⟩
  | quiet h hq ih =>
    obtain ⟨hr, hsuffix⟩ := ih
    exact ⟨sound_quiet hr hq, by rw [replayed_quiet hq]; exact hsuffix⟩
  | deliver h j e ih =>
    obtain ⟨hr, hsuffix⟩ := ih
    refine ⟨(step_deliver hc hr j e).1.sound, ?_⟩
    rw [publishedTo_sent_concat, ← append_assoc]
    exact replayed_deliver hr j e hsuffix

/-! ## A live subscriber -/

/-- Whatever a step delivers to session `k`, its subscriber receives. -/
theorem Performs.received (h : Performs c b ds r) (hs : SubscribedTo k s b) :
    SubscribedTo k s r.1 ∧ receivedBy k s r.2 = publishedTo k (sent c ds) := by
  induction h with
  | start => exact ⟨hs, rfl⟩
  | quiet h hq ih =>
    obtain ⟨⟨set, hset, hmem⟩, hr⟩ := ih
    exact ⟨⟨set, by rw [hq.replay.subscribers]; exact hset, hmem⟩, hr⟩
  | deliver h j e ih =>
    obtain ⟨hsub, hr⟩ := ih
    refine ⟨hsub.of_keeps (keeps_deliver c hsub.has j e), ?_⟩
    rw [receivedBy_append, hr, publishedTo_sent_concat]
    by_cases hj : j = k
    · subst hj
      rw [if_pos rfl, received_deliver c hsub]
    · rw [if_neg hj, received_deliver_other c hj]

/-- The operation does not end the subscription, nor begin it again. -/
def Stays (k : SessionId) (s : SubscriberId) : Op → Prop
  | .subscribe j r replay _ => ¬ (j = k ∧ r = s ∧ replay = true)
  | .unsubscribe j r => ¬ (j = k ∧ r = s)
  | .publish _ _ _ => True
  | .clear j => j ≠ k
  | .clearAll => False

instance (k : SessionId) (s : SubscriberId) (op : Op) : Decidable (Stays k s op) :=
  match op with
  | .subscribe .. | .unsubscribe .. | .clear _ => instDecidableNot
  | .publish .. => instDecidableTrue
  | .clearAll => instDecidableFalse

/-- Step lemma: a live subscriber receives what the operation delivers, and no more. -/
theorem received_step (h : SubscribedTo k s b) {op : Op} (hop : Stays k s op) :
    SubscribedTo k s (step c b op).1 ∧ receivedBy k s (step c b op).2 = publishedTo k (sent c (deliveries c b op)) := by
  cases op with
  | subscribe j r replay disposed => exact ⟨subscribedTo_subscribe h replay disposed, received_subscribe_other hop⟩
  | unsubscribe j r => exact ⟨subscribedTo_unsubscribe h hop, rfl⟩
  | publish j e env => exact (performs_publish j e env b).received h
  | clear j => exact ⟨subscribedTo_clear h hop, rfl⟩
  | clearAll => exact hop.elim

/-! ## Markers -/

def marked (k : SessionId) (b : Broker) : Prop := 0 < (b.evictedEventsBySession.get k).getD 0

/-- Every session with a marker is one of these. -/
def MarkedWithin (m : Finset SessionId) (b : Broker) : Prop := ∀ k, b.evictedEventsBySession.has k = true → k ∈ m

variable (c) in
/-- The markers' bound leaves room for one of each of these. -/
def Room (m : Finset SessionId) : Prop := (num m.card).lt (c.coldKeyLimit.max (num 1000)) = true

theorem boundMarkers_room (hm : Room c m) {markers : JsMap SessionId ℕ}
    (h : ∀ k, markers.has k = true → k ∈ m) (n : ℕ) : boundMarkers c n markers = markers := by
  have hsize : markers.size ≤ m.card := by
    have hcard : markers.keys.toFinset.card = markers.size := by
      rw [toFinset_card_of_nodup markers.nodup_keys]
      simp [JsMap.keys, JsMap.size]
    rw [← hcard]
    refine Finset.card_le_card fun k hk => h k (JsMap.has_iff.mpr ?_)
    simpa using hk
  have hlt : (c.coldKeyLimit.max (num 1000)).lt (num markers.size) = false :=
    JsNumber.not_lt_of_le hsize (JsNumber.lt_asymm hm)
  cases n with
  | zero => rfl
  | succ n => simp only [boundMarkers, hlt, Bool.false_eq_true, if_false]

/-- Markers stay, and the new ones are of these sessions. -/
structure Marks (m : Finset SessionId) (b b' : Broker) : Prop where
  kept : ∀ k, marked k b → marked k b'
  within : MarkedWithin m b'

theorem Marks.trans {b'' : Broker} (h : Marks m b b') (h' : Marks m b' b'') : Marks m b b'' :=
  ⟨fun k hk => h'.kept k (h.kept k hk), h'.within⟩

theorem Marks.of_eq (hm : MarkedWithin m b) (h : b'.evictedEventsBySession = b.evictedEventsBySession) : Marks m b b' := by
  refine ⟨fun k hk => ?_, fun k hk => ?_⟩
  · rw [marked, h]
    exact hk
  · rw [h] at hk
    exact hm k hk

theorem marks_markEvicted (hroom : Room c m) (hm : MarkedWithin m b) {d : Broker}
    (hd : d.evictedEventsBySession = b.evictedEventsBySession)
    (hk : k ∈ m) {n : ℕ} (hn : 0 < n) : Marks m b (markEvicted c k n d) ∧ marked k (markEvicted c k n d) := by
  have hwithin : ∀ j, (b.evictedEventsBySession.set k ((b.evictedEventsBySession.get k).getD 0 + n)).has j = true → j ∈ m := by
    intro j hj
    rcases (JsMap.has_set _ _ _ _).mp hj with rfl | hj
    · exact hk
    · exact hm j hj
  have hset : (markEvicted c k n d).evictedEventsBySession =
      b.evictedEventsBySession.set k ((b.evictedEventsBySession.get k).getD 0 + n) := by
    rw [← boundMarkers_room hroom hwithin, ← hd, markEvicted]
  have hown : marked k (markEvicted c k n d) := by
    rw [marked, hset, JsMap.get_set_same]
    exact Nat.lt_of_lt_of_le hn (Nat.le_add_left n _)
  refine ⟨⟨fun j hj => ?_, by rw [MarkedWithin, hset]; exact hwithin⟩, hown⟩
  by_cases hjk : j = k
  · rw [hjk]
    exact hown
  · rw [marked, hset, JsMap.get_set_ne _ _ hjk]
    exact hj

/-- Fewer events of session `k` are kept. -/
def Loses (k : SessionId) (b b' : Broker) : Prop := (bufferOf k b').length < (bufferOf k b).length

instance (k : SessionId) (b b' : Broker) : Decidable (Loses k b b') :=
  inferInstanceAs (Decidable ((bufferOf k b').length < (bufferOf k b).length))

/-- Every session that loses events is marked. -/
structure Admits (m : Finset SessionId) (b b' : Broker) : Prop where
  marks : Marks m b b'
  admitted : ∀ k, Loses k b b' → marked k b'

theorem Admits.refl (hm : MarkedWithin m b) : Admits m b b :=
  ⟨.of_eq hm rfl, fun _ hk => absurd hk (Nat.lt_irrefl _)⟩

theorem Admits.trans {b'' : Broker} (h : Admits m b b') (h' : Admits m b' b'') : Admits m b b'' := by
  refine ⟨h.marks.trans h'.marks, fun k hk => ?_⟩
  by_cases hlast : Loses k b' b''
  · exact h'.admitted k hlast
  · refine h'.marks.kept k (h.admitted k ?_)
    unfold Loses at hk hlast ⊢
    omega

theorem admits_dropSessionState (hroom : Room c m) (hm : MarkedWithin m b)
    (hk : Loses k b (dropSessionState c k 0 b) → k ∈ m) : Admits m b (dropSessionState c k 0 b) := by
  have hgone : bufferOf k (dropSessionState c k 0 b) = [] := by
    rw [bufferOf, dropSessionState_buffers, JsMap.get_delete_same, Option.getD_none]
  have hother : ∀ j, j ≠ k → ¬ Loses j b (dropSessionState c k 0 b) := by
    intro j hj
    rw [Loses, bufferOf, dropSessionState_buffers, JsMap.get_delete_ne _ hj]
    exact Nat.lt_irrefl _
  by_cases hlen : 0 < (bufferOf k b).length
  · have hloses : Loses k b (dropSessionState c k 0 b) := by rw [Loses, hgone]; exact hlen
    have hdrop : ∃ b₀, dropSessionState c k 0 b = markEvicted c k (bufferOf k b).length b₀ ∧
        b₀.evictedEventsBySession = b.evictedEventsBySession := ⟨_, if_pos hlen, rfl⟩
    obtain ⟨b₀, hdrop, h₀⟩ := hdrop
    have hmark := hdrop ▸ marks_markEvicted hroom hm h₀ (hk hloses) hlen
    refine ⟨hmark.1, fun j hj => ?_⟩
    by_cases hjk : j = k
    · rw [hjk]
      exact hmark.2
    · exact absurd hj (hother j hjk)
  · have hsame : (dropSessionState c k 0 b).evictedEventsBySession = b.evictedEventsBySession := by
      unfold dropSessionState
      rw [show ((b.replayBuffers.get k).getD []).length = 0 from Nat.eq_zero_of_not_pos hlen]
      rfl
    refine ⟨.of_eq hm hsame, fun j hj => ?_⟩
    by_cases hjk : j = k
    · subst hjk
      exact absurd (Nat.lt_of_le_of_lt (Nat.zero_le _) hj) hlen
    · exact absurd hj (hother j hjk)

theorem admits_evictOnce (hroom : Room c m) (hm : MarkedWithin m b)
    (hl : ∀ k, Loses k b (evictOnce c b) → k ∈ m) : Admits m b (evictOnce c b) := by
  unfold evictOnce at hl ⊢
  split
  · next k hk =>
    simp only [hk] at hl
    exact admits_dropSessionState hroom hm (hl k)
  · next hnone =>
    simp only [hnone] at hl
    split
    · exact .refl hm
    · next k es hes =>
      refine ⟨.of_eq hm rfl, fun j hj => absurd hj ?_⟩
      have hempty : bufferOf k b = [] := by rw [bufferOf, get_head hes]; rfl
      unfold Loses
      rw [bufferOf, JsMap.get_delete]
      by_cases hjk : j = k
      · simp [hjk, hempty]
      · simp [hjk, bufferOf]
    · next k old buffer es hes =>
      simp only [hes] at hl
      have hbuffers : ∀ j, bufferOf j (evictOldest c k old buffer b) = if j = k then buffer else bufferOf j b := by
        intro j
        have hset : (evictOldest c k old buffer b).replayBuffers = b.replayBuffers.set k buffer := rfl
        rw [bufferOf, hset, JsMap.get_set]
        by_cases hjk : j = k
        · rw [if_pos hjk, if_pos hjk, Option.getD_some]
        · rw [if_neg hjk, if_neg hjk, bufferOf]
      have hown : Loses k b (evictOldest c k old buffer b) := by
        rw [Loses, hbuffers, if_pos rfl, bufferOf, get_head hes]
        exact Nat.lt_succ_self _
      have hmark : Marks m b (evictOldest c k old buffer b) ∧ marked k (evictOldest c k old buffer b) := by
        refine marks_markEvicted hroom hm ?_ (hl k hown) Nat.one_pos
        rfl
      refine ⟨hmark.1, fun j hj => ?_⟩
      by_cases hjk : j = k
      · rw [hjk]
        exact hmark.2
      · rw [Loses, hbuffers, if_neg hjk] at hj
        exact absurd hj (Nat.lt_irrefl _)

/-- A pass of evictions that only remove events. -/
theorem Admits.andThen {b'' : Broker} (hsuffix : ∀ k, bufferOf k b'' <:+ bufferOf k b')
    (hfirst : ∀ k, bufferOf k b' <:+ bufferOf k b) (hl : ∀ k, Loses k b b'' → k ∈ m)
    (h : (∀ k, Loses k b b' → k ∈ m) → Admits m b b')
    (h' : MarkedWithin m b' → (∀ k, Loses k b' b'' → k ∈ m) → Admits m b' b'') : Admits m b b'' := by
  have hb : Admits m b b' := h fun k hk => hl k (Nat.lt_of_le_of_lt (hsuffix k).length_le hk)
  exact hb.trans (h' hb.marks.within fun k hk => hl k (Nat.lt_of_lt_of_le hk (hfirst k).length_le))

theorem admits_evictBudget (hroom : Room c m) (n : ℕ) : ∀ {b : Broker}, MarkedWithin m b →
    (∀ k, Loses k b (evictBudget c n b) → k ∈ m) → Admits m b (evictBudget c n b) := by
  induction n with
  | zero => intro b hm _; exact .refl hm
  | succ n ih =>
    intro b hm hl
    simp only [evictBudget] at hl ⊢
    split
    · next hover =>
      simp only [hover, if_true] at hl
      exact .andThen (fun k => suffix_evictBudget c k n _) (fun k => suffix_evictOnce c k b) hl (admits_evictOnce hroom hm) ih
    · exact .refl hm

theorem admits_evictColdKeys (hroom : Room c m) (n : ℕ) : ∀ {b : Broker}, MarkedWithin m b →
    (∀ k, Loses k b (evictColdKeys c n b) → k ∈ m) → Admits m b (evictColdKeys c n b) := by
  induction n with
  | zero => intro b hm _; exact .refl hm
  | succ n ih =>
    intro b hm hl
    simp only [evictColdKeys] at hl ⊢
    split
    · next hover =>
      simp only [hover, if_true] at hl
      split
      · next k hk =>
        simp only [hk] at hl
        exact .andThen (fun j => suffix_evictColdKeys c j n _) (fun j => suffix_delete j k (dropSessionState_buffers c k 0 b))
          hl (fun hl => admits_dropSessionState hroom hm (hl k)) ih
      · exact .refl hm
    · exact .refl hm

theorem admits_enforce (hroom : Room c m) (hm : MarkedWithin m b)
    (hl : ∀ k, Loses k b (enforceGlobalBounds c b) → k ∈ m) : Admits m b (enforceGlobalBounds c b) :=
  .andThen (fun k => suffix_evictColdKeys c k GUARD _) (fun k => suffix_evictBudget c k GUARD b) hl
    (admits_evictBudget hroom GUARD hm) (admits_evictColdKeys hroom GUARD)

theorem trimCount_markers (buffer : List BufferedEvent) : ∀ (bytes : ℕ) (b : Broker),
    (trimCount c buffer bytes b).2.2.evictedEventsBySession = b.evictedEventsBySession := by
  induction buffer with
  | nil => intro bytes b; rfl
  | cons old buffer ih =>
    intro bytes b
    simp only [trimCount]
    split
    · exact ih _ _
    · rfl

theorem trimBytes_length (k : SessionId) (buffer : List BufferedEvent) : ∀ (bytes : ℕ) (b : Broker),
    (trimBytes c k buffer bytes b).1.length ≤ buffer.length := by
  induction buffer with
  | nil => intro bytes b; exact Nat.le_refl _
  | cons old buffer ih =>
    intro bytes b
    simp only [trimBytes]
    split
    · exact Nat.le_succ_of_le (ih _ _)
    · exact Nat.le_refl _

/-- The byte budget of a session marks it for each event it takes. -/
theorem marks_trimBytes (hroom : Room c m) (k : SessionId) (buffer : List BufferedEvent) :
    ∀ (bytes : ℕ) {b : Broker}, MarkedWithin m b → ((trimBytes c k buffer bytes b).1.length < buffer.length → k ∈ m) →
      Marks m b (trimBytes c k buffer bytes b).2.2 ∧
        ((trimBytes c k buffer bytes b).1.length < buffer.length → marked k (trimBytes c k buffer bytes b).2.2) := by
  induction buffer with
  | nil => intro bytes b hm _; exact ⟨.of_eq hm rfl, fun h => absurd h (Nat.lt_irrefl _)⟩
  | cons old buffer ih =>
    intro bytes b hm hk
    simp only [trimBytes] at hk ⊢
    split
    · next hover =>
      simp only [hover, if_true] at hk
      have hmem := hk (Nat.lt_succ_of_le (trimBytes_length k buffer _ _))
      have hone := marks_markEvicted hroom hm (d := { b with retainedBytesTotal := b.retainedBytesTotal - old.bytes }) rfl hmem
        Nat.one_pos
      obtain ⟨hrest, -⟩ := ih (bytes - old.bytes) hone.1.within fun _ => hmem
      exact ⟨⟨fun j hj => hrest.kept j (hone.1.kept j hj), hrest.within⟩, fun _ => hrest.kept k hone.2⟩
    · exact ⟨.of_eq hm rfl, fun h => absurd h (Nat.lt_irrefl _)⟩

/-! ## What a delivery removes -/

section Removed

variable (c)

/-- The broker once the event is kept, before the global bounds. -/
def Delivery.kept (d : Delivery) : Broker := retain c d.session (measureAndSlim d.event c.eventPayloadMaxBytes) d.before

/-- The byte budget of the session took events. -/
def Delivery.overBytes (d : Delivery) : Bool :=
  let m := measureAndSlim d.event c.eventPayloadMaxBytes
  (trimmed c d.session m d.before).1.length < (pushed c d.session m d.before).1.length

/-- The sessions that lose events to the byte budget, the global budget or the bound on
    cold keys. -/
def Delivery.removed (d : Delivery) : Finset SessionId :=
  if retains c then
    (if d.overBytes c then {d.session} else ∅) ∪
      (d.kept c).replayBuffers.keys.toFinset.filter fun k => Loses k (d.kept c) (enforceGlobalBounds c (d.kept c))
  else ∅

def removedBy (ds : List Delivery) : Finset SessionId := ds.foldr (fun d ks => d.removed c ∪ ks) ∅

theorem removedBy_concat (ds : List Delivery) (d : Delivery) : removedBy c (ds ++ [d]) = removedBy c ds ∪ d.removed c := by
  induction ds with
  | nil => simp [removedBy]
  | cons e ds ih =>
    show e.removed c ∪ removedBy c (ds ++ [d]) = e.removed c ∪ removedBy c ds ∪ d.removed c
    rw [ih, Finset.union_assoc]

end Removed

theorem has_of_loses (h : Loses k b b') : k ∈ b.replayBuffers.keys := by
  rw [← JsMap.has_iff, JsMap.has_iff_get]
  cases hget : b.replayBuffers.get k with
  | some buffer => rfl
  | none => simp [Loses, bufferOf, hget] at h

/-- Step lemma: a delivery marks the sessions it removes events of. -/
theorem marks_deliver (hroom : Room c m) {e : NormalizedEvent} (hm : MarkedWithin m b) (hr : Delivery.removed c ⟨k, e, b⟩ ⊆ m) :
    Marks m b (deliver c k e b).1 ∧ ∀ j ∈ Delivery.removed c ⟨k, e, b⟩, marked j (deliver c k e b).1 := by
  simp only [deliver]
  unfold Delivery.removed retains at hr ⊢
  split
  · next hret =>
    rw [if_pos hret] at hr
    have hbytes : ∀ h : (⟨k, e, b⟩ : Delivery).overBytes c = true, k ∈ m := fun h => hr (by simp [h])
    have hpushed : MarkedWithin m (pushed c k (measureAndSlim e c.eventPayloadMaxBytes) b).2.2 := by
      unfold MarkedWithin pushed
      rw [trimCount_markers]
      exact hm
    obtain ⟨htrim, hown⟩ := marks_trimBytes hroom k (pushed c k (measureAndSlim e c.eventPayloadMaxBytes) b).1
      (pushed c k (measureAndSlim e c.eventPayloadMaxBytes) b).2.1 hpushed fun h => hbytes (decide_eq_true h)
    have hkept : Marks m b (Delivery.kept c ⟨k, e, b⟩) := by
      refine ⟨fun j hj => htrim.kept j ?_, htrim.within⟩
      unfold marked pushed
      rw [trimCount_markers]
      exact hj
    have henforce : Admits m (Delivery.kept c ⟨k, e, b⟩) (enforceGlobalBounds c (Delivery.kept c ⟨k, e, b⟩)) := by
      refine admits_enforce hroom hkept.within fun j hj => hr ?_
      simp only [Finset.mem_union, Finset.mem_filter, List.mem_toFinset]
      exact .inr ⟨has_of_loses hj, hj⟩
    refine ⟨hkept.trans henforce.marks, fun j hj => ?_⟩
    simp only [Finset.mem_union, Finset.mem_filter, List.mem_toFinset] at hj
    rcases hj with hj | ⟨-, hj⟩
    · by_cases hover : (⟨k, e, b⟩ : Delivery).overBytes c = true
      · rw [if_pos hover, Finset.mem_singleton] at hj
        rw [hj]
        exact henforce.marks.kept k (hown (of_decide_eq_true hover))
      · rw [if_neg hover] at hj
        exact absurd hj (Finset.notMem_empty j)
    · exact henforce.admitted j hj
  · exact ⟨.of_eq hm rfl, fun j hj => absurd hj (Finset.notMem_empty j)⟩

theorem Performs.marks (hroom : Room c m) (h : Performs c b ds r) (hm : MarkedWithin m b) (hr : removedBy c ds ⊆ m) :
    Marks m b r.1 ∧ ∀ j ∈ removedBy c ds, marked j r.1 := by
  induction h with
  | start => exact ⟨.of_eq hm rfl, fun j hj => absurd hj (Finset.notMem_empty j)⟩
  | quiet h hq ih =>
    obtain ⟨hmarks, hown⟩ := ih hr
    have hsame := Marks.of_eq hmarks.within hq.markers
    exact ⟨hmarks.trans hsame, fun j hj => hsame.kept j (hown j hj)⟩
  | deliver h k e ih =>
    rw [removedBy_concat] at hr ⊢
    obtain ⟨hmarks, hown⟩ := ih (Finset.union_subset_left hr)
    obtain ⟨hlast, hnew⟩ := marks_deliver hroom hmarks.within (Finset.union_subset_right hr)
    refine ⟨hmarks.trans hlast, fun j hj => ?_⟩
    rcases Finset.mem_union.mp hj with hj | hj
    · exact hlast.kept j (hown j hj)
    · exact hnew j hj

/-! ## Watched runs -/

/-- A run, what it delivered and invoked, and the sessions that lost events since they
    were last cleared. -/
structure Watched where
  broker : Broker
  delivered : List (SessionId × NormalizedEvent)
  invoked : List Invocation
  lost : Finset SessionId

section Watch

variable (c)

/-- The sessions whose events an operation removes; `clear` takes its own. -/
def emptied (b : Broker) : Op → Finset SessionId
  | .clear k => if (bufferOf k b).length = 0 then ∅ else {k}
  | op => removedBy c (deliveries c b op)

/-- The sessions that carry a marker during an operation. -/
def crowd (w : Watched) (op : Op) : Finset SessionId := w.lost ∪ emptied c w.broker op

/-- Of those, the ones that carry it afterwards. -/
def lostAfter (w : Watched) (op : Op) : Finset SessionId :=
  match op with
  | .clear k => (crowd c w op).erase k
  | _ => crowd c w op

def watch (w : Watched) (op : Op) : Watched where
  broker := (step c w.broker op).1
  delivered := w.delivered ++ sent c (deliveries c w.broker op)
  invoked := w.invoked ++ (step c w.broker op).2
  lost := lostAfter c w op

def unwatched : Watched := ⟨init, [], [], ∅⟩

/-- Fewer sessions carry a marker than the markers' bound. -/
def Uncrowded (w : Watched) (op : Op) : Prop := Room c (crowd c w op)

instance (w : Watched) (op : Op) : Decidable (Uncrowded c w op) :=
  inferInstanceAs (Decidable ((num (crowd c w op).card).lt (c.coldKeyLimit.max (num 1000)) = true))

/-- The lost sessions are the marked ones. -/
structure Flagged (w : Watched) : Prop where
  marked : ∀ k ∈ w.lost, marked k w.broker
  within : MarkedWithin w.lost w.broker

/-- What replay keeps is the end of what was delivered. -/
structure Windowed (w : Watched) : Prop where
  sound : Sound c w.broker
  window : ∀ k, replayed k w.broker <:+ publishedTo k w.delivered

end Watch

theorem windowed_step (hc : Nonneg c) (w : Watched) (op : Op) (h : Windowed c w) : Windowed c (watch c w op) := by
  refine ⟨sound_step hc w.broker op h.sound, fun k => ?_⟩
  show replayed k (step c w.broker op).1 <:+ publishedTo k (w.delivered ++ sent c (deliveries c w.broker op))
  rw [publishedTo_append]
  have hsilent : ∀ b', replayed k b' <:+ replayed k w.broker → replayed k b' <:+ publishedTo k w.delivered ++ [] := by
    intro b' hb
    rw [append_nil]
    exact hb.trans (h.window k)
  cases op with
  | publish j e env => exact ((performs_publish j e env w.broker).replayed hc h.sound (h.window k)).2
  | subscribe j r replay disposed =>
    have hsame : replayed k (subscribe j r replay disposed w.broker).1 = replayed k w.broker := by
      unfold subscribe
      split <;> rfl
    exact hsilent _ (hsame ▸ suffix_refl _)
  | unsubscribe j r =>
    have hsame : replayed k (unsubscribe j r w.broker) = replayed k w.broker := by
      unfold unsubscribe
      split
      · rfl
      · dsimp only
        split <;> rfl
    exact hsilent _ (hsame ▸ suffix_refl _)
  | clear j =>
    have hsuffix : bufferOf k (clear c j w.broker) <:+ bufferOf k w.broker :=
      suffix_delete k j (dropSessionState_buffers c j 0 _)
    exact hsilent _ (hsuffix.map fun entry : BufferedEvent => entry.event)
  | clearAll => exact nil_suffix

theorem flagged_of_eq {w : Watched} {op : Op} (h : Flagged w) (hcrowd : lostAfter c w op = w.lost)
    (hsame : (step c w.broker op).1.evictedEventsBySession = w.broker.evictedEventsBySession) : Flagged (watch c w op) := by
  have hmarks := Marks.of_eq h.within hsame
  have hlost : (watch c w op).lost = w.lost := hcrowd
  refine ⟨fun k hk => hmarks.kept k (h.marked k (hlost ▸ hk)), ?_⟩
  rw [hlost]
  exact hmarks.within

theorem flagged_step (w : Watched) (op : Op) (h : Flagged w) (hroom : Uncrowded c w op) : Flagged (watch c w op) := by
  have hwithin : MarkedWithin (crowd c w op) w.broker := fun k hk => Finset.mem_union_left _ (h.within k hk)
  cases op with
  | publish j e env =>
    obtain ⟨hmarks, hnew⟩ := (performs_publish j e env w.broker).marks hroom hwithin Finset.subset_union_right
    refine ⟨fun k hk => ?_, hmarks.within⟩
    rcases Finset.mem_union.mp hk with hk | hk
    · exact hmarks.kept k (h.marked k hk)
    · exact hnew k hk
  | subscribe j r replay disposed =>
    refine flagged_of_eq h (Finset.union_empty _) ?_
    simp only [step, subscribe]
    split <;> rfl
  | unsubscribe j r =>
    refine flagged_of_eq h (Finset.union_empty _) ?_
    simp only [step, unsubscribe]
    split
    · rfl
    · split <;> rfl
  | clear j =>
    set bare : Broker := { w.broker with subscribers := w.broker.subscribers.delete j }
    have hdrop : Admits (crowd c w (.clear j)) bare (dropSessionState c j 0 bare) := by
      refine admits_dropSessionState (b := bare) hroom hwithin fun hl => Finset.mem_union_right _ ?_
      have hne : (bufferOf j w.broker).length ≠ 0 := Nat.ne_of_gt (Nat.lt_of_le_of_lt (Nat.zero_le _) hl)
      simp only [emptied, if_neg hne, Finset.mem_singleton]
    have hdelete : (watch c w (.clear j)).broker.evictedEventsBySession =
        (dropSessionState c j 0 bare).evictedEventsBySession.delete j := rfl
    refine ⟨fun k hk => ?_, fun k hk => ?_⟩
    · obtain ⟨hkj, hk⟩ := Finset.mem_erase.mp hk
      have hlost : k ∈ w.lost := by
        rcases Finset.mem_union.mp hk with hk | hk
        · exact hk
        · simp only [emptied] at hk
          split at hk
          · exact absurd hk (Finset.notMem_empty k)
          · exact absurd (Finset.mem_singleton.mp hk) hkj
      rw [EventBroker.marked, hdelete, JsMap.get_delete_ne _ hkj]
      exact hdrop.marks.kept k (h.marked k hlost)
    · rw [hdelete] at hk
      obtain ⟨hkj, hk⟩ := (JsMap.has_delete _ _ _).mp hk
      exact Finset.mem_erase.mpr ⟨hkj, hdrop.marks.within k hk⟩
  | clearAll => exact flagged_of_eq h (Finset.union_empty _) rfl

theorem windowed_unwatched : Windowed c unwatched := ⟨sound_init, fun _ => nil_suffix⟩

theorem flagged_unwatched : Flagged unwatched :=
  ⟨fun k hk => absurd hk (Finset.notMem_empty k), nofun⟩

/-! ## Late subscribers -/

/-- What a subscriber received since it joined: events kept for replay, then every event
    delivered since, together the end of the stream. -/
structure Gapless (stream stream' received : List NormalizedEvent) : Prop where
  seam : ∃ old live, received = old ++ live ∧ old <:+ stream ∧ stream' = stream ++ live
  newest : received <:+ stream'

theorem Gapless.of_seam {old live : List NormalizedEvent} (h : old <:+ stream) : Gapless stream (stream ++ live) (old ++ live) := by
  refine ⟨⟨old, live, rfl, h, rfl⟩, ?_⟩
  obtain ⟨zs, rfl⟩ := h
  exact ⟨zs, by simp⟩

/-- Run lemma: while subscribed, what is received grows with the stream. -/
theorem received_run (ops : List Op) : ∀ {w : Watched}, SubscribedTo k s w.broker → (∀ op ∈ ops, Stays k s op) → ∃ live,
      receivedBy k s (ops.foldl (watch c) w).invoked = receivedBy k s w.invoked ++ live ∧
        publishedTo k (ops.foldl (watch c) w).delivered = publishedTo k w.delivered ++ live := by
  induction ops with
  | nil => intro w _ _; exact ⟨[], by simp, by simp⟩
  | cons op ops ih =>
    intro w hs hops
    obtain ⟨hsub, hreceived⟩ := received_step (c := c) hs (hops op mem_cons_self)
    obtain ⟨live, hr, hd⟩ := @ih (watch c w op) hsub fun o ho => hops o (mem_cons_of_mem _ ho)
    refine ⟨publishedTo k (sent c (deliveries c w.broker op)) ++ live, ?_, ?_⟩
    · rw [foldl_cons, hr, watch, receivedBy_append, hreceived, append_assoc]
    · rw [foldl_cons, hd, watch, publishedTo_append, append_assoc]

theorem receivedBy_replay (k : SessionId) (s : SubscriberId) (buffer : List BufferedEvent) :
    receivedBy k s (buffer.map fun entry => ⟨k, s, entry.event⟩) = buffer.map (·.event) := by
  simp [receivedBy, filter_map, Function.comp_def]

theorem subscribedTo_join (k : SessionId) (s : SubscriberId) (b : Broker) : SubscribedTo k s (subscribe k s true false b).1 :=
  ⟨((b.subscribers.get k).getD .empty).set s (), JsMap.get_set_same _ _ _, (JsMap.has_set _ _ _ _).mpr (.inl rfl)⟩

theorem gapless_of_join {w : Watched} (h : Windowed c w) {ops : List Op} (hops : ∀ op ∈ ops, Stays k s op) :
    let since := (.subscribe k s true false :: ops).foldl (watch c) { w with invoked := [] }
    Gapless (publishedTo k w.delivered) (publishedTo k since.delivered) (receivedBy k s since.invoked) := by
  intro since
  obtain ⟨live, hr, hd⟩ := received_run (c := c) ops
    (w := watch c { w with invoked := [] } (.subscribe k s true false)) (subscribedTo_join k s w.broker) hops
  have hreplay : receivedBy k s (watch c { w with invoked := [] } (.subscribe k s true false)).invoked = replayed k w.broker :=
    receivedBy_replay k s (bufferOf k w.broker)
  have hdelivered : (watch c { w with invoked := [] } (.subscribe k s true false)).delivered = w.delivered :=
    append_nil _
  rw [hreplay] at hr
  rw [hdelivered] at hd
  show Gapless _ (publishedTo k (ops.foldl (watch c) _).delivered) (receivedBy k s (ops.foldl (watch c) _).invoked)
  rw [hr, hd]
  exact .of_seam (h.window k)

/-- Two events of 26 bytes fit. -/
def twoFit : Options := { replayBufferMaxBytes := num 60 }

end PiWebUi.EventBroker
