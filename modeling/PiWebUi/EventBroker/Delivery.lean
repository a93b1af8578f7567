/-
  PiWebUi.EventBroker.Delivery — what a subscriber of the broker receives.

  The stream of a session, as published, goes out to each of its subscribers in batches:
  an event on its own, or the last of a run of `message_update`s with the others
  absorbed. Over every run in which the subscriber stays subscribed:
  - every received event stands for one batch, and the batches with the pending update
    are the published stream in order; so an event that is not an update is received
    exactly once, in order, and nothing is received that was not published;
  - the updates published are those received, those their `coalescedDeltas` count and
    those pending.
-/

import PiWebUi.EventBroker.Broker
import PiWebUi.Lib.Coalesce
import PiWebUi.Lib.Run
import Mathlib.Tactic.SplitIfs

namespace PiWebUi.EventBroker

open Lib List

variable (c : Config)

/-! ## What eviction leaves alone -/

/-- Subscribers and the pending update of session `k` are the same. -/
structure Keeps (k : SessionId) (b b' : Broker) : Prop where
  subscribers : b'.subscribers = b.subscribers
  pending : b'.pendingUpdates.get k = b.pendingUpdates.get k

theorem Keeps.refl (k : SessionId) (b : Broker) : Keeps k b b := ⟨rfl, rfl⟩

variable {b b' : Broker} {j k : SessionId} {e : NormalizedEvent} {p : PendingUpdate} {r : SubscriberId}
  {bs : List (Batch NormalizedEvent)}

theorem Keeps.trans {b b'' : Broker} (h : Keeps k b b') (h' : Keeps k b' b'') : Keeps k b b'' :=
  ⟨h'.subscribers.trans h.subscribers, h'.pending.trans h.pending⟩

theorem dropSessionState_subscribers (j : SessionId) (n : ℕ) (b : Broker) :
    (dropSessionState c j n b).subscribers = b.subscribers := by
  simp only [dropSessionState]
  split_ifs <;> rfl

theorem dropSessionState_pending (j : SessionId) (n : ℕ) (b : Broker) :
    (dropSessionState c j n b).pendingUpdates = b.pendingUpdates.delete j := by
  simp only [dropSessionState]
  split_ifs <;> rfl

theorem keeps_dropSessionState (h : k ≠ j) (n : ℕ) (b : Broker) : Keeps k b (dropSessionState c j n b) :=
  ⟨dropSessionState_subscribers c j n b, by rw [dropSessionState_pending, JsMap.get_delete_ne _ h]⟩

/-- A session with subscribers is not cold. -/
theorem coldKey_ne (hk : b.subscribers.has k = true) (hj : coldKey b = some j) : k ≠ j := by
  rintro rfl
  have := find?_some hj
  simp [hk] at this

theorem keeps_evictOnce (hk : b.subscribers.has k = true) : Keeps k b (evictOnce c b) := by
  unfold evictOnce
  split
  · next j hj => exact keeps_dropSessionState c (coldKey_ne hk hj) 0 b
  · split
    · exact .refl k b
    · exact ⟨rfl, rfl⟩
    · exact ⟨rfl, rfl⟩

theorem keeps_evictBudget (n : ℕ) : ∀ {b : Broker}, b.subscribers.has k = true → Keeps k b (evictBudget c n b) := by
  induction n with
  | zero => intro b _; exact .refl k b
  | succ n ih =>
    intro b hk
    simp only [evictBudget]
    split
    · have h := keeps_evictOnce c hk
      exact h.trans (ih (by rw [h.subscribers]; exact hk))
    · exact .refl k b

theorem keeps_evictColdKeys (n : ℕ) : ∀ {b : Broker}, b.subscribers.has k = true →
    Keeps k b (evictColdKeys c n b) := by
  induction n with
  | zero => intro b _; exact .refl k b
  | succ n ih =>
    intro b hk
    simp only [evictColdKeys]
    split
    · split
      · next j hj =>
        have h := keeps_dropSessionState c (coldKey_ne hk hj) 0 b
        exact h.trans (ih (by rw [h.subscribers]; exact hk))
      · exact .refl k b
    · exact .refl k b

theorem keeps_trimCount (k : SessionId) (buffer : List BufferedEvent) : ∀ (bytes : ℕ) (b : Broker),
    Keeps k b (trimCount c buffer bytes b).2.2 := by
  induction buffer with
  | nil => intro bytes b; exact .refl k b
  | cons old buffer ih =>
    intro bytes b
    simp only [trimCount]
    split
    · exact ⟨(ih _ _).subscribers, (ih _ _).pending⟩
    · exact .refl k b

theorem keeps_trimBytes (j k : SessionId) (buffer : List BufferedEvent) : ∀ (bytes : ℕ) (b : Broker),
    Keeps k b (trimBytes c j buffer bytes b).2.2 := by
  induction buffer with
  | nil => intro bytes b; exact .refl k b
  | cons old buffer ih =>
    intro bytes b
    simp only [trimBytes]
    split
    · exact ⟨(ih _ _).subscribers, (ih _ _).pending⟩
    · exact .refl k b

theorem keeps_trimmed (j k : SessionId) (m : MeasuredEvent) (b : Broker) : Keeps k b (trimmed c j m b).2.2 := by
  have hcount : Keeps k { b with retainedBytesTotal := b.retainedBytesTotal + m.bytes } (pushed c j m b).2.2 :=
    keeps_trimCount c k _ _ _
  have hbytes := hcount.trans (keeps_trimBytes c j k (pushed c j m b).1 (pushed c j m b).2.1 _)
  exact ⟨hbytes.subscribers, hbytes.pending⟩

theorem keeps_retain (j k : SessionId) (m : MeasuredEvent) (b : Broker) : Keeps k b (retain c j m b) :=
  ⟨(keeps_trimmed c j k m b).subscribers, (keeps_trimmed c j k m b).pending⟩

/-! ## One delivery -/

/-- The event a subscriber sees for one that is delivered. -/
def slim (e : NormalizedEvent) : NormalizedEvent := (measureAndSlim e c.eventPayloadMaxBytes).event

def SubscribedTo (k : SessionId) (s : SubscriberId) (b : Broker) : Prop :=
  ∃ set, b.subscribers.get k = some set ∧ set.has s = true

theorem SubscribedTo.has {s : SubscriberId} (h : SubscribedTo k s b) : b.subscribers.has k = true := by
  obtain ⟨set, hset, _⟩ := h
  rw [JsMap.has_iff_get, hset]
  rfl

theorem SubscribedTo.of_keeps {s : SubscriberId} (hk : Keeps k b b')
    (h : SubscribedTo k s b) : SubscribedTo k s b' := by
  obtain ⟨set, hset, hs⟩ := h
  exact ⟨set, by rw [hk.subscribers]; exact hset, hs⟩

theorem keeps_deliver (hk : b.subscribers.has k = true) (j : SessionId) (e : NormalizedEvent) :
    Keeps k b (deliver c j e b).1 := by
  simp only [deliver]
  split
  · have h1 := keeps_retain c j k (measureAndSlim e c.eventPayloadMaxBytes) b
    have h2 := keeps_evictBudget c GUARD (b := retain c j (measureAndSlim e c.eventPayloadMaxBytes) b)
      (by rw [h1.subscribers]; exact hk)
    have h3 := keeps_evictColdKeys c GUARD (b := evictBudget c GUARD (retain c j (measureAndSlim e c.eventPayloadMaxBytes) b))
      (by rw [h2.subscribers, h1.subscribers]; exact hk)
    exact (h1.trans h2).trans h3
  · exact .refl k b

/-- The events of session `k` that subscriber `s` was called with. -/
def receivedBy (k : SessionId) (s : SubscriberId) (is : List Invocation) : List NormalizedEvent :=
  (is.filter fun i => i.session = k && i.subscriber = s).map (·.event)

theorem receivedBy_append (k : SessionId) (s : SubscriberId) (is js : List Invocation) :
    receivedBy k s (is ++ js) = receivedBy k s is ++ receivedBy k s js := by
  simp [receivedBy]

/-- A set calls each of its subscribers once. -/
theorem receivedBy_keys (k : SessionId) (s : SubscriberId) (set : JsMap SubscriberId Unit) (e : NormalizedEvent)
    (hs : set.has s = true) : receivedBy k s (set.keys.map fun x => ⟨k, x, e⟩) = [e] := by
  have hfilter : set.keys.filter (fun x => decide (x = s)) = [s] := by
    rw [filter_eq, count_eq_one_of_mem set.nodup_keys (JsMap.has_iff.mp hs)]
    rfl
  simp only [receivedBy, filter_map, Function.comp_def, decide_true, Bool.true_and, List.map_map, hfilter]
  rfl

theorem receivedBy_other (h : j ≠ k) (s : SubscriberId) (xs : List SubscriberId) (f : NormalizedEvent) :
    receivedBy k s (xs.map fun x => ⟨j, x, f⟩) = [] := by
  simp [receivedBy, filter_map, Function.comp_def, h]

theorem received_deliver {s : SubscriberId} (hs : SubscribedTo k s b) (e : NormalizedEvent) :
    receivedBy k s (deliver c k e b).2 = [slim c e] := by
  obtain ⟨set, hset, hmem⟩ := hs.of_keeps (keeps_deliver c hs.has k e)
  have : (deliver c k e b).2 = set.keys.map fun x => ⟨k, x, slim c e⟩ := by
    simp only [deliver] at hset ⊢
    rw [hset]
    rfl
  rw [this, receivedBy_keys k s set _ hmem]

theorem received_deliver_other (h : j ≠ k) (s : SubscriberId) (b : Broker) (e : NormalizedEvent) :
    receivedBy k s (deliver c j e b).2 = [] := receivedBy_other h s _ _

/-! ## `coalescedDeltas` -/

def coalescedDeltas (e : NormalizedEvent) : ℚ :=
  match member e.data (js "coalescedDeltas") with
  | some (.num (.fin q)) => q
  | _ => 0

theorem slim_cases (e : NormalizedEvent) : (withinBudget e c.eventPayloadMaxBytes = true ∧ slim c e = e) ∨
      (candidateFits e c.eventPayloadMaxBytes = true ∧
        slim c e = candidate e (originalBytes e c.eventPayloadMaxBytes) c.eventPayloadMaxBytes) ∨
      (withinBudget e c.eventPayloadMaxBytes = false ∧ candidateFits e c.eventPayloadMaxBytes = false ∧
        slim c e = minimal e (originalBytes e c.eventPayloadMaxBytes) c.eventPayloadMaxBytes) := by
  unfold slim measureAndSlim
  by_cases hw : withinBudget e c.eventPayloadMaxBytes = true
  · left
    exact ⟨hw, by rw [if_pos hw]⟩
  right
  rw [if_neg hw]
  by_cases hc : candidateFits e c.eventPayloadMaxBytes = true
  · left
    exact ⟨hc, by unfold candidateFits at hc; simp only [hc, if_true]⟩
  · right
    refine ⟨by simpa using hw, by simpa using hc, ?_⟩
    unfold candidateFits at hc
    simp only [hc, if_false, Bool.false_eq_true]

theorem slim_type (e : NormalizedEvent) : (slim c e).type = e.type := by
  rcases slim_cases c e with ⟨-, h⟩ | ⟨-, h⟩ | ⟨-, -, h⟩
  · rw [h]
  · rw [h]; rfl
  · rw [h]; rfl

theorem isUpdate_slim (e : NormalizedEvent) : isUpdate (slim c e) = isUpdate e := by
  simp only [isUpdate, slim_type]

theorem get_setSome (fs : List (JsString × Json)) {j k : JsString} (h : j ≠ k) (v : Option Json) :
    (Json.obj (setSome fs k v)).get j = (Json.obj fs).get j := by
  cases v with
  | none => rfl
  | some v => rw [setSome, Json.get_setField, if_neg h]

/-- Slimming an update keeps its `coalescedDeltas`. -/
theorem coalescedDeltas_candidate (he : isUpdate e = true) (n : ℕ) (budget : JsNumber) :
    member (candidate e n budget).data (js "coalescedDeltas") = (Json.obj (dataFields e)).get (js "coalescedDeltas") := by
  have htype : e.type = NormalizedEvent.message_update := by simpa [isUpdate] using he
  simp only [candidate, candidateFields, htype, if_true, member, Option.bind_some]
  rw [Json.get_setField, if_neg (by decide), get_setSome _ (by decide), get_setSome _ (by decide)]

theorem coalescedDeltas_minimal (e : NormalizedEvent) (n : ℕ) (budget : JsNumber) : coalescedDeltas (minimal e n budget) = 0 := rfl

/-- The event carries no `coalescedDeltas` of its own. -/
def NoOwnCount (e : NormalizedEvent) : Prop := (Json.obj (spread e.data)).get (js "coalescedDeltas") = none

instance : DecidablePred NoOwnCount := fun e =>
  inferInstanceAs (Decidable ((Json.obj (spread e.data)).get (js "coalescedDeltas") = none))

theorem member_of_noOwnCount (h : NoOwnCount e) : member e.data (js "coalescedDeltas") = none := by
  unfold NoOwnCount at h
  cases hd : e.data with
  | none => rfl
  | some d =>
    cases d with
    | obj fs => rw [hd] at h; exact h
    | _ => rfl

theorem dataFields_of_noOwnCount (h : NoOwnCount e) : (Json.obj (dataFields e)).get (js "coalescedDeltas") = none := by
  unfold NoOwnCount at h
  unfold dataFields
  cases hd : e.data with
  | none => rfl
  | some d =>
    cases d with
    | obj fs => rw [hd] at h; exact h
    | _ => rfl

theorem coalescedDeltas_slim_none (he : isUpdate e = true) (h : NoOwnCount e) : coalescedDeltas (slim c e) = 0 := by
  rcases slim_cases c e with ⟨-, hs⟩ | ⟨-, hs⟩ | ⟨-, -, hs⟩
  · rw [hs, coalescedDeltas, member_of_noOwnCount h]
  · rw [hs, coalescedDeltas, coalescedDeltas_candidate he, dataFields_of_noOwnCount h]
  · rw [hs, coalescedDeltas_minimal]

/-- An update that absorbed others is within the payload budget, if need be slimmed
    once. -/
def CountKept (p : PendingUpdate) : Prop :=
  p.coalesced > 0 → withinBudget (stamped p) c.eventPayloadMaxBytes = true ∨
    candidateFits (stamped p) c.eventPayloadMaxBytes = true

instance (p : PendingUpdate) : Decidable (CountKept c p) :=
  inferInstanceAs (Decidable (p.coalesced > 0 → withinBudget (stamped p) c.eventPayloadMaxBytes = true ∨
    candidateFits (stamped p) c.eventPayloadMaxBytes = true))

theorem isUpdate_stamped (p : PendingUpdate) : isUpdate (stamped p) = isUpdate p.event := rfl

theorem get_stamped (h : p.coalesced > 0) :
    (Json.obj (dataFields (stamped p))).get (js "coalescedDeltas") = some (.num (num p.coalesced)) := by
  simp only [stamped, dataFields, h, if_true, Json.get_setField]

theorem noOwnCount_stamped (h0 : p.coalesced = 0) (h : NoOwnCount p.event) : NoOwnCount (stamped p) := by
  simpa only [NoOwnCount, stamped, h0, spread, gt_iff_lt, lt_irrefl, if_false] using h

/-- What goes out for a pending update counts the updates it absorbed. -/
theorem coalescedDeltas_stamped (hu : isUpdate p.event = true) (hown : NoOwnCount p.event)
    (hkept : CountKept c p) : coalescedDeltas (slim c (stamped p)) = p.coalesced := by
  rcases Nat.eq_zero_or_pos p.coalesced with h0 | hpos
  · rw [coalescedDeltas_slim_none c (isUpdate_stamped p ▸ hu) (noOwnCount_stamped h0 hown), h0, Nat.cast_zero]
  · have hget := get_stamped hpos
    rcases slim_cases c (stamped p) with ⟨-, hs⟩ | ⟨-, hs⟩ | ⟨hw, hc, -⟩
    · have hmem : member (stamped p).data (js "coalescedDeltas") = some (.num (num p.coalesced)) := hget
      rw [hs, coalescedDeltas, hmem]
      rfl
    · rw [hs, coalescedDeltas, coalescedDeltas_candidate (isUpdate_stamped p ▸ hu), hget]
      rfl
    · rcases hkept hpos with h | h
      · rw [hw] at h; cases h
      · rw [hc] at h; cases h

/-! ## The stream of one subscriber -/

/-- What a received event stands for: a batch, as it is slimmed, on its own or from the
    pending slot. -/
def StandsFor (b : Batch NormalizedEvent) (received : NormalizedEvent) : Prop :=
  (b.absorbed = [] ∧ received = slim c b.last) ∨
    (isUpdate b.last = true ∧ received = slim c (stamped ⟨b.last, b.absorbed.length⟩))

structure Sent (b : Batch NormalizedEvent) (received : NormalizedEvent) : Prop where
  standsFor : StandsFor c b received
  type : isUpdate received = isUpdate b.last
  counted : isUpdate b.last = true → coalescedDeltas received = b.absorbed.length

/-- A published stream has gone out as received, with the pending update held. -/
structure Stream (published : List NormalizedEvent) (pending : Option PendingUpdate) (received : List NormalizedEvent) :
    Prop where
  batches : ∃ bs p, Coalesced isUpdate published bs p ∧ List.Forall₂ (Sent c) bs received ∧
    pending = p.map fun b => ⟨b.last, b.absorbed.length⟩
  ownCount : ∀ p, pending = some p → NoOwnCount p.event

variable {c} {published : List NormalizedEvent} {received : List NormalizedEvent}

theorem Stream.nil : Stream c [] none [] :=
  ⟨⟨[], none, .nil, .nil, rfl⟩, nofun⟩

theorem Stream.send (h : Stream c published none received) (hown : isUpdate e = true → NoOwnCount e) :
    Stream c (published ++ [e]) none (received ++ [slim c e]) := by
  obtain ⟨bs, p, hco, hsent, hp⟩ := h.batches
  have hnone : p = none := by
    cases p with
    | none => rfl
    | some b => cases hp
  subst hnone
  have hnew : Sent c (.single e) (slim c e) := {
    standsFor := .inl ⟨rfl, rfl⟩
    type := isUpdate_slim c e
    counted := fun hu => by
      have hu' : isUpdate e = true := hu
      rw [coalescedDeltas_slim_none c hu' (hown hu')]
      exact Nat.cast_zero.symm }
  exact ⟨⟨bs ++ [.single e], none, hco.send e, rel_append hsent (.cons hnew .nil), rfl⟩, nofun⟩

theorem Stream.hold {pending : Option PendingUpdate} (h : Stream c published pending received)
    (hu : isUpdate e = true) (hown : NoOwnCount e) :
    Stream c (published ++ [e]) (some ⟨e, (pending.map fun p => p.coalesced + 1).getD 0⟩) received := by
  obtain ⟨bs, p, hco, hsent, rfl⟩ := h.batches
  refine ⟨?_, fun q hq => by cases hq; exact hown⟩
  cases p with
  | none => exact ⟨bs, some (.single e), hco.hold hu, hsent, rfl⟩
  | some b => exact ⟨bs, some (b.absorb e), hco.absorb hu, hsent, by simp [Batch.absorb, Batch.members]⟩

theorem Stream.flush (h : Stream c published (some p) received) (hkept : CountKept c p) :
    Stream c published none (received ++ [slim c (stamped p)]) := by
  obtain ⟨bs, b, hco, hsent, hb⟩ := h.batches
  cases b with
  | none => cases hb
  | some b =>
    cases hb
    have hu : isUpdate b.last = true := hco.held_updates b rfl b.last (by simp [Batch.members])
    have hown : NoOwnCount b.last := h.ownCount _ rfl
    have hnew : Sent c b (slim c (stamped ⟨b.last, b.absorbed.length⟩)) := {
      standsFor := .inr ⟨hu, rfl⟩
      type := isUpdate_slim c _
      counted := fun _ => coalescedDeltas_stamped c hu hown hkept }
    exact ⟨⟨bs ++ [b], none, hco.flush, rel_append hsent (.cons hnew .nil), rfl⟩, (fun _ h => by cases h)⟩

/-! ## Runs -/

/-- The broker, what was published and which callbacks ran. -/
structure Observed where
  broker : Broker
  published : List (SessionId × NormalizedEvent)
  invoked : List Invocation

variable (c) in
/-- The event a publish puts on the stream. -/
def publishedBy : Op → List (SessionId × NormalizedEvent)
  | .publish k e env => [(k, admitted c k e env)]
  | _ => []

variable (c) in
def observe (o : Observed) (op : Op) : Observed :=
  let r := step c o.broker op
  ⟨r.1, o.published ++ publishedBy c op, o.invoked ++ r.2⟩

def publishedTo (k : SessionId) (es : List (SessionId × NormalizedEvent)) : List NormalizedEvent :=
  (es.filter (·.1 = k)).map (·.2)

theorem publishedTo_append (k : SessionId) (es fs : List (SessionId × NormalizedEvent)) :
    publishedTo k (es ++ fs) = publishedTo k es ++ publishedTo k fs := by
  simp [publishedTo]

variable (c) in
/-- The tokens of a session once a publish has refilled them. -/
def refilledTokens (k : SessionId) (now : JsNumber) (b : Broker) : JsNumber := availableTokens c k (refill c k now b)

variable (c) in
/-- What the count needs of an operation. For a publish to session `k`: the session is
    not disposed, an update carries no `coalescedDeltas` of its own, and a pending update
    meets a token count that is a number and, when it goes out, keeps its count. Other
    operations leave the subscriber subscribed. -/
def Countable (k : SessionId) (s : SubscriberId) (b : Broker) : Op → Prop
  | .publish j e env => j = k →
    env.disposed = false ∧ (isUpdate (admitted c k e env) = true → NoOwnCount (admitted c k e env)) ∧
      ∀ p ∈ b.pendingUpdates.get k,
        (isUpdate (admitted c k e env) = true → refilledTokens c k env.now b ≠ .nan) ∧
        ((isUpdate (admitted c k e env) = true → (num 1).lt (refilledTokens c k env.now b) = true) → CountKept c p)
  | .subscribe j r _ _ => ¬ (j = k ∧ r = s)
  | .unsubscribe j r => ¬ (j = k ∧ r = s)
  | .clear j => j ≠ k
  | .clearAll => False

instance (o : Op) : Decidable (Countable c k s b o) := by
  cases o <;> unfold Countable <;> infer_instance

variable (c) in
/-- Subscribed, with everything published accounted for. -/
structure Tracks (k : SessionId) (s : SubscriberId) (published : List NormalizedEvent) (b : Broker)
    (received : List NormalizedEvent) : Prop where
  subscribed : SubscribedTo k s b
  stream : Stream c published (b.pendingUpdates.get k) received

variable {s : SubscriberId}

theorem Tracks.of_keeps (h : Tracks c k s published b received) (hk : Keeps k b b') : Tracks c k s published b' received :=
  ⟨h.subscribed.of_keeps hk, by rw [hk.pending]; exact h.stream⟩

theorem keeps_spend (j : SessionId) (f : JsNumber → JsNumber) (k : SessionId) (b : Broker) : Keeps k b (spend j f b) := by
  unfold spend
  split <;> exact ⟨rfl, rfl⟩

theorem keeps_refill (j : SessionId) (now : JsNumber) (k : SessionId) (b : Broker) : Keeps k b (refill c j now b) := ⟨rfl, rfl⟩

theorem Tracks.deliver (h : Tracks c k s published b received) (hp : b.pendingUpdates.get k = none)
    (hown : isUpdate e = true → NoOwnCount e) :
    Tracks c k s (published ++ [e]) (deliver c k e b).1 (received ++ receivedBy k s (deliver c k e b).2) := by
  have hk := keeps_deliver c h.subscribed.has k e
  refine ⟨h.subscribed.of_keeps hk, ?_⟩
  rw [hk.pending, hp, received_deliver c h.subscribed]
  have hs := h.stream
  rw [hp] at hs
  exact hs.send hown

theorem Tracks.flushPending (h : Tracks c k s published b received) (hkept : ∀ p, b.pendingUpdates.get k = some p → CountKept c p) :
    Tracks c k s published (flushPending c k b).1 (received ++ receivedBy k s (flushPending c k b).2) ∧
      (flushPending c k b).1.pendingUpdates.get k = none := by
  unfold EventBroker.flushPending
  split
  · next hp => simpa [receivedBy] using And.intro h hp
  · next p hp =>
    set b' := spend k (fun tokens => (num 0).max (tokens.sub (num 1))) { b with pendingUpdates := b.pendingUpdates.delete k }
      with hb'
    have hspend := keeps_spend k (fun tokens => (num 0).max (tokens.sub (num 1))) k
      { b with pendingUpdates := b.pendingUpdates.delete k }
    have hsub : SubscribedTo k s b' := SubscribedTo.of_keeps hspend h.subscribed
    have hnone : b'.pendingUpdates.get k = none := hspend.pending.trans (JsMap.get_delete_same _ _)
    have hk := keeps_deliver c hsub.has k (stamped p)
    have hs := h.stream
    rw [hp] at hs
    refine ⟨⟨hsub.of_keeps hk, ?_⟩, hk.pending.trans hnone⟩
    rw [hk.pending, hnone, received_deliver c hsub]
    exact hs.flush (hkept p hp)

theorem Tracks.hold (h : Tracks c k s published b received) (hu : isUpdate e = true)
    (hown : NoOwnCount e) : Tracks c k s (published ++ [e]) (hold k e b) received := by
  refine ⟨h.subscribed, ?_⟩
  have hs := h.stream.hold hu hown
  simp only [EventBroker.hold, JsMap.get_set_same]
  cases hp : b.pendingUpdates.get k with
  | none | some p => simpa [hp] using hs

/-- A token count that is a number and not above one is at most one. -/
theorem le_one_of_not_lt {x : JsNumber} (hx : x ≠ .nan) (h : (num 1).lt x = false) : x.le (num 1) = true := by
  cases x with
  | nan => exact absurd rfl hx
  | posInf => simp [num, JsNumber.lt] at h
  | negInf => rfl
  | fin q =>
    simp only [num, JsNumber.lt, decide_eq_false_iff_not, not_lt] at h
    simp only [num, JsNumber.le, JsNumber.lt, Bool.or_eq_true, decide_eq_true_eq, beq_iff_eq, JsNumber.fin.injEq]
    exact lt_or_eq_of_le h

theorem Tracks.publishUpdate (h : Tracks c k s published b received) (hu : isUpdate e = true)
    (hown : NoOwnCount e) {now : JsNumber} (hnum : ∀ p, b.pendingUpdates.get k = some p → refilledTokens c k now b ≠ .nan)
    (hkept : ∀ p, b.pendingUpdates.get k = some p → (num 1).lt (refilledTokens c k now b) = true → CountKept c p) :
    Tracks c k s (published ++ [e]) (publishUpdate c k e now b).1 (received ++ receivedBy k s (publishUpdate c k e now b).2) := by
  have hr := h.of_keeps (keeps_refill (c := c) k now k b)
  have hpend : (refill c k now b).pendingUpdates = b.pendingUpdates := rfl
  -- Either the pending update goes out, or it stays because no token is free.
  obtain ⟨flushed, hf, ht, hnone⟩ : ∃ flushed : Broker × List Invocation,
      (if (refill c k now b).pendingUpdates.has k && (num 1).lt (availableTokens c k (refill c k now b)) then
        EventBroker.flushPending c k (refill c k now b) else (refill c k now b, [])) = flushed ∧
      Tracks c k s published flushed.1 (received ++ receivedBy k s flushed.2) ∧
      ((availableTokens c k flushed.1).le (num 1) = true ∨ flushed.1.pendingUpdates.get k = none) := by
    refine ⟨_, rfl, ?_⟩
    split
    · next hcond =>
      rw [Bool.and_eq_true] at hcond
      obtain ⟨ht, hnone⟩ := hr.flushPending fun p hp => hkept p hp hcond.2
      exact ⟨ht, .inr hnone⟩
    · next hcond =>
      refine ⟨by simpa [receivedBy] using hr, ?_⟩
      cases hp : b.pendingUpdates.get k with
      | none => exact .inr hp
      | some p =>
        left
        have hhas : b.pendingUpdates.has k = true := by rw [JsMap.has_iff_get, hp]; rfl
        refine le_one_of_not_lt (hnum p hp) ?_
        simpa [hpend, hhas] using hcond
  unfold EventBroker.publishUpdate
  simp only [hf]
  split
  · exact ht.hold hu hown
  · next hle =>
    have hp : flushed.1.pendingUpdates.get k = none := hnone.resolve_left (by simpa using hle)
    have hspend := keeps_spend k (fun tokens => tokens.sub (num 1)) k flushed.1
    rw [receivedBy_append, ← append_assoc]
    exact (ht.of_keeps hspend).deliver (hspend.pending.trans hp) fun _ => hown

/-! ## Other sessions -/

/-- An operation on another session: nothing of session `k` changes, and the subscriber
    receives nothing of it. -/
structure Aside (k : SessionId) (s : SubscriberId) (b : Broker) (r : Broker × List Invocation) : Prop where
  keeps : Keeps k b r.1
  silent : receivedBy k s r.2 = []

theorem aside_deliver (hj : j ≠ k) (hk : b.subscribers.has k = true) (e : NormalizedEvent) : Aside k s b (deliver c j e b) :=
  ⟨keeps_deliver c hk j e, received_deliver_other c hj s b e⟩

theorem Aside.andThen {r : Broker × List Invocation} {r' : Broker × List Invocation} (h : Aside k s b r)
    (hb : Keeps k r.1 b') (h' : Aside k s b' r') : Aside k s b (r'.1, r.2 ++ r'.2) :=
  ⟨(h.keeps.trans hb).trans h'.keeps, by rw [receivedBy_append, h.silent, h'.silent]; rfl⟩

theorem has_of_keeps (hk : b.subscribers.has k = true) (h : Keeps k b b') : b'.subscribers.has k = true := by
  rw [h.subscribers]; exact hk

section

variable (hj : j ≠ k) (hk : b.subscribers.has k = true)
include hj hk

theorem aside_flushPending : Aside k s b (flushPending c j b) := by
  unfold flushPending
  split
  · exact ⟨.refl k b, rfl⟩
  · next p hp =>
    have hdel : Keeps k b { b with pendingUpdates := b.pendingUpdates.delete j } := ⟨rfl, JsMap.get_delete_ne _ (Ne.symm hj)⟩
    have hspend := hdel.trans (keeps_spend j (fun tokens => (num 0).max (tokens.sub (num 1))) k _)
    have hsent := aside_deliver (c := c) (s := s) hj (has_of_keeps hk hspend) (stamped p)
    exact ⟨hspend.trans hsent.keeps, hsent.silent⟩

theorem aside_publishUpdate (e : NormalizedEvent) (now : JsNumber) : Aside k s b (publishUpdate c j e now b) := by
  have hr : Keeps k b (refill c j now b) := keeps_refill j now k b
  obtain ⟨flushed, hf, ha⟩ : ∃ flushed : Broker × List Invocation,
      (if (refill c j now b).pendingUpdates.has j && (num 1).lt (availableTokens c j (refill c j now b)) then
        flushPending c j (refill c j now b) else (refill c j now b, [])) = flushed ∧ Aside k s b flushed := by
    refine ⟨_, rfl, ?_⟩
    split
    · have ha := aside_flushPending (c := c) (s := s) hj (has_of_keeps hk hr)
      exact ⟨hr.trans ha.keeps, ha.silent⟩
    · exact ⟨hr, rfl⟩
  unfold publishUpdate
  simp only [hf]
  split
  · have hhold : Keeps k flushed.1 (hold j e flushed.1) := ⟨rfl, JsMap.get_set_ne _ _ (Ne.symm hj)⟩
    exact ⟨ha.keeps.trans hhold, ha.silent⟩
  · have hspend := keeps_spend j (fun tokens => tokens.sub (num 1)) k flushed.1
    exact ha.andThen hspend (aside_deliver hj (has_of_keeps (has_of_keeps hk ha.keeps) hspend) e)

theorem aside_publish (e : NormalizedEvent) (env : Env) : Aside k s b (publish c j e env b) := by
  unfold publish
  split
  · exact ⟨.refl k b, rfl⟩
  dsimp only
  split
  · exact aside_publishUpdate hj hk _ _
  · have ha := aside_flushPending (c := c) (s := s) hj hk
    exact ha.andThen (.refl k _) (aside_deliver hj (has_of_keeps hk ha.keeps) _)

end

theorem Tracks.aside {r : Broker × List Invocation} (h : Tracks c k s published b received) (ha : Aside k s b r) :
    Tracks c k s published r.1 (received ++ receivedBy k s r.2) := by
  rw [ha.silent, append_nil]
  exact h.of_keeps ha.keeps

/-! ## Subscriptions -/

section

variable {k : SessionId} {s : SubscriberId} {b : Broker} (h : SubscribedTo k s b)
include h

theorem subscribedTo_subscribe (replay disposed : Bool) : SubscribedTo k s (subscribe j r replay disposed b).1 := by
  obtain ⟨set, hset, hs⟩ := h
  unfold subscribe
  split
  · exact ⟨set, hset, hs⟩
  by_cases hj : j = k
  · subst hj
    exact ⟨set.set r (), by simp [hset], (JsMap.has_set _ _ _ _).mpr (.inr hs)⟩
  · exact ⟨set, by rw [← hset]; exact JsMap.get_set_ne _ _ (Ne.symm hj), hs⟩

theorem subscribedTo_unsubscribe (hne : ¬ (j = k ∧ r = s)) : SubscribedTo k s (unsubscribe j r b) := by
  obtain ⟨set, hset, hs⟩ := h
  unfold unsubscribe
  split
  · exact ⟨set, hset, hs⟩
  next others hothers =>
  by_cases hj : j = k
  · subst hj
    have hr : s ≠ r := fun hr => hne ⟨rfl, hr.symm⟩
    obtain rfl : others = set := Option.some.inj (hothers.symm.trans hset)
    have hdel : (others.delete r).has s = true := (JsMap.has_delete _ _ _).mpr ⟨hr, hs⟩
    simp only [JsMap.size_ne_zero hdel, if_false]
    exact ⟨_, JsMap.get_set_same _ _ _, hdel⟩
  · dsimp only
    split
    · exact ⟨set, by rw [← hset]; exact JsMap.get_delete_ne _ (Ne.symm hj), hs⟩
    · exact ⟨set, by rw [← hset]; exact JsMap.get_set_ne _ _ (Ne.symm hj), hs⟩

theorem subscribedTo_clear (hj : j ≠ k) : SubscribedTo k s (clear c j b) := by
  obtain ⟨set, hset, hs⟩ := h
  refine ⟨set, ?_, hs⟩
  show (dropSessionState c j 0 _).subscribers.get k = some set
  rw [dropSessionState_subscribers, JsMap.get_delete_ne _ (Ne.symm hj)]
  exact hset

end

theorem received_subscribe_other {s : SubscriberId} {replay disposed : Bool}
    (h : ¬ (j = k ∧ r = s ∧ replay = true)) : receivedBy k s (subscribe j r replay disposed b).2 = [] := by
  unfold subscribe
  split
  · rfl
  cases replay with
  | false => rfl
  | true =>
    by_cases hj : j = k
    · have hr : r ≠ s := fun hr => h ⟨hj, hr, rfl⟩
      simp [receivedBy, filter_map, Function.comp_def, hr]
    · simp [receivedBy, filter_map, Function.comp_def, hj]

theorem Tracks.subscribe (h : Tracks c k s published b received) {replay disposed : Bool} (hne : ¬ (j = k ∧ r = s)) :
    Tracks c k s published (subscribe j r replay disposed b).1
      (received ++ receivedBy k s (subscribe j r replay disposed b).2) := by
  have hsilent : receivedBy k s (EventBroker.subscribe j r replay disposed b).2 = [] :=
    received_subscribe_other fun h => hne ⟨h.1, h.2.1⟩
  have hpending : (EventBroker.subscribe j r replay disposed b).1.pendingUpdates = b.pendingUpdates := by
    unfold EventBroker.subscribe
    split <;> rfl
  refine ⟨subscribedTo_subscribe h.subscribed replay disposed, ?_⟩
  rw [hsilent, append_nil, hpending]
  exact h.stream

theorem Tracks.unsubscribe (h : Tracks c k s published b received)
    (hne : ¬ (j = k ∧ r = s)) : Tracks c k s published (unsubscribe j r b) received := by
  refine ⟨subscribedTo_unsubscribe h.subscribed hne, ?_⟩
  have hpending : (EventBroker.unsubscribe j r b).pendingUpdates = b.pendingUpdates := by
    unfold EventBroker.unsubscribe
    split
    · rfl
    · dsimp only
      split <;> rfl
  rw [hpending]
  exact h.stream

theorem Tracks.clear (h : Tracks c k s published b received) (hj : j ≠ k) : Tracks c k s published (clear c j b) received := by
  refine ⟨subscribedTo_clear h.subscribed hj, ?_⟩
  show Stream c published ((dropSessionState c j 0 _).pendingUpdates.get k) received
  rw [dropSessionState_pending, JsMap.get_delete_ne _ (Ne.symm hj)]
  exact h.stream

/-! ## Conservation -/

theorem Tracks.publish (h : Tracks c k s published b received) {env : Env} (hcount : Countable c k s b (.publish k e env)) :
    Tracks c k s (published ++ [admitted c k e env]) (publish c k e env b).1
      (received ++ receivedBy k s (publish c k e env b).2) := by
  obtain ⟨hlive, hown, hpend⟩ := hcount rfl
  unfold EventBroker.publish
  rw [hlive]
  simp only [Bool.false_eq_true, if_false]
  split
  · next hu =>
    exact h.publishUpdate hu (hown hu) (fun p hp => (hpend p hp).1 hu) fun p hp hlt => (hpend p hp).2 fun _ => hlt
  · next hu =>
    obtain ⟨ht, hnone⟩ := h.flushPending fun p hp => (hpend p hp).2 fun hu' => absurd hu' hu
    rw [receivedBy_append, ← append_assoc]
    exact ht.deliver hnone hown

/-- The observer's books balance. -/
def Balanced (c : Config) (k : SessionId) (s : SubscriberId) (o : Observed) : Prop :=
  Tracks c k s (publishedTo k o.published) o.broker (receivedBy k s o.invoked)

theorem balanced_step (o : Observed) (op : Op) (h : Balanced c k s o) (hcount : Countable c k s o.broker op) :
    Balanced c k s (observe c o op) := by
  unfold Balanced at h ⊢
  simp only [observe, publishedTo_append, receivedBy_append]
  cases op with
  | subscribe j r replay disposed =>
    rw [show publishedTo k (publishedBy c (.subscribe j r replay disposed)) = [] from rfl, append_nil]
    exact h.subscribe hcount
  | unsubscribe j r =>
    rw [show publishedTo k (publishedBy c (.unsubscribe j r)) = [] from rfl, append_nil]
    simpa [step, receivedBy] using h.unsubscribe hcount
  | publish j e env =>
    by_cases hj : j = k
    · subst hj
      simpa [publishedBy, publishedTo, step] using h.publish hcount
    · rw [show publishedTo k (publishedBy c (.publish j e env)) = [] by simp [publishedBy, publishedTo, hj], append_nil]
      exact h.aside (aside_publish hj h.subscribed.has e env)
  | clear j =>
    rw [show publishedTo k (publishedBy c (.clear j)) = [] from rfl, append_nil]
    simpa [step, receivedBy] using h.clear hcount
  | clearAll => exact hcount.elim

section

variable (h : List.Forall₂ (Sent c) bs received)
include h

/-- Events that are not updates are received as they were published. -/
theorem others_received :
    received.filter (fun e => !isUpdate e) = ((bs.map Batch.last).filter fun e => !isUpdate e).map (slim c) := by
  induction h with
  | nil => rfl
  | @cons b e bs es hsent _ ih =>
    by_cases hu : isUpdate b.last = true
    · simp [hsent.type, hu, ih]
    · have he : e = slim c b.last := by
        rcases hsent.standsFor with ⟨-, he⟩ | ⟨hu', -⟩
        · exact he
        · exact absurd hu' hu
      simp [he, isUpdate_slim, hu, ih]

theorem updates_received : received.countP isUpdate = (bs.map Batch.last).countP isUpdate := by
  induction h with
  | nil => rfl
  | cons hsent _ ih => simp [countP_cons, hsent.type, ih]

theorem absorbed_received :
    ((received.filter isUpdate).map coalescedDeltas).sum = ((bs.map (Coalesced.absorbedUpdates isUpdate)).sum : ℕ) := by
  induction h with
  | nil => rfl
  | @cons b e bs es hsent _ ih =>
    by_cases hu : isUpdate b.last = true
    · simp [hsent.type, hu, hsent.counted hu, Coalesced.absorbedUpdates, ih]
    · simp [hsent.type, hu, Coalesced.absorbedUpdates, ih]

end

/-- The updates a pending update stands for. -/
def pendingCount : Option PendingUpdate → ℕ
  | none => 0
  | some p => 1 + p.coalesced

theorem heldMembers_length (held : Option (Batch NormalizedEvent)) :
    (Coalesced.heldMembers held).length = pendingCount (held.map fun b => ⟨b.last, b.absorbed.length⟩) := by
  cases held with
  | none => rfl
  | some b => simp [Coalesced.heldMembers, pendingCount, Batch.members, Nat.add_comm]

/-- The delivery of a run, as its subscriber sees it. -/
structure Conserved (c : Config) (published received : List NormalizedEvent) (pending : Option PendingUpdate) : Prop where
  /-- The received events stand, in order, for batches of published ones. -/
  batches : ∃ bs held, published = bs.flatMap Batch.members ++ Coalesced.heldMembers held ∧
    List.Forall₂ (StandsFor c) bs received ∧ (∀ b ∈ bs, b.absorbed ≠ [] → ∀ e ∈ b.members, isUpdate e = true) ∧
    pending = held.map fun b => ⟨b.last, b.absorbed.length⟩
  others : received.filter (fun e => !isUpdate e) = (published.filter fun e => !isUpdate e).map (slim c)
  count : (published.countP isUpdate : ℚ) =
    received.countP isUpdate + ((received.filter isUpdate).map coalescedDeltas).sum + pendingCount pending

theorem Stream.conserved {pending : Option PendingUpdate} (h : Stream c published pending received) :
    Conserved c published received pending := by
  obtain ⟨bs, held, hco, hsent, rfl⟩ := h.batches
  refine ⟨⟨bs, held, hco.flatten, hsent.imp fun _ _ h => h.standsFor, hco.batch_updates, rfl⟩, ?_, ?_⟩
  · rw [others_received hsent, ← hco.others]
  · rw [hco.count, updates_received hsent, absorbed_received hsent, heldMembers_length]
    push_cast
    rfl

theorem delivery_conserved (c : Config) (k : SessionId) (s : SubscriberId) (b : Broker) (hsub : SubscribedTo k s b)
    (hpend : b.pendingUpdates.get k = none) (ops : List Op)
    (hcount : Run.Along (observe c) (fun o op => Countable c k s o.broker op) ⟨b, [], []⟩ ops) :
    let o := ops.foldl (observe c) ⟨b, [], []⟩
    Conserved c (publishedTo k o.published) (receivedBy k s o.invoked) (o.broker.pendingUpdates.get k) := by
  have h0 : Balanced c k s ⟨b, [], []⟩ := ⟨hsub, by rw [hpend]; exact .nil⟩
  exact (Run.invariant balanced_step h0 hcount).stream.conserved

/-! ## A count kept, and a count lost -/

def update (text : JsString) : NormalizedEvent :=
  { type := NormalizedEvent.message_update
    data := some (.obj [(js "assistantMessageEvent", .obj [(js "delta", .str text)])]) }

def atZero : Env := ⟨num 0, false, false⟩

/-- One update a second, two at once. -/
def slowRate (eventPayloadMaxBytes : ℕ) : Config :=
  config { eventRateLimitPerSec := num 1, eventPayloadMaxBytes := num eventPayloadMaxBytes }

def oneSubscriber : Broker := (subscribe (js "s") 1 false false init).1

/-- Three updates and the end of the message, at once: the second is absorbed by the
    third. -/
def burst (text : JsString) : List Op :=
  [.publish (js "s") (update text) atZero, .publish (js "s") (update text) atZero,
    .publish (js "s") (update text) atZero, .publish (js "s") { type := NormalizedEvent.message_end } atZero]

theorem burst_conserved : let o := (burst (js "hi")).foldl (observe (slowRate 1000)) ⟨oneSubscriber, [], []⟩
    Conserved (slowRate 1000) (publishedTo (js "s") o.published) (receivedBy (js "s") 1 o.invoked)
      (o.broker.pendingUpdates.get (js "s")) := by
  exact delivery_conserved (slowRate 1000) (js "s") 1 oneSubscriber ⟨_, rfl, rfl⟩ rfl (burst (js "hi")) (by decide +kernel)

/-- With a payload budget of 100 bytes the third update is slimmed to its marker, and
    the second is counted nowhere. -/
theorem coalesced_count_is_lost : let o := (burst (List.replicate 100 97)).foldl (observe (slowRate 100)) ⟨oneSubscriber, [], []⟩
    ¬ Conserved (slowRate 100) (publishedTo (js "s") o.published) (receivedBy (js "s") 1 o.invoked)
      (o.broker.pendingUpdates.get (js "s")) := by
  intro o h
  have hlost : ((publishedTo (js "s") o.published).countP isUpdate : ℚ) ≠
      (receivedBy (js "s") 1 o.invoked).countP isUpdate +
        (((receivedBy (js "s") 1 o.invoked).filter isUpdate).map coalescedDeltas).sum +
        pendingCount (o.broker.pendingUpdates.get (js "s")) := by
    decide +kernel
  exact hlost h.count

end PiWebUi.EventBroker
