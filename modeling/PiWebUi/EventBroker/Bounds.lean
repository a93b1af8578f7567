/-
  PiWebUi.EventBroker.Bounds — the memory the broker keeps for replay.

  Over every run of subscribes, unsubscribes, publishes and clears:
  - `Tracked`: `retainedBytesTotal` is the bytes of every buffered event, and each
    session's counter the bytes of its buffer;
  - `SessionBounded`: each buffer is within its count and its bytes.
  After a publish that delivered, the total is within the global budget and the cold
  sessions within their limit (`Within`), unless the eviction passes ran into their
  iteration guard: then ten thousand events and buffers have just been evicted
  (`memory_bounded`). Both happen: `guard_stops_eviction` fills a budget with small
  events of one live session and then publishes one that is as large.
-/

import PiWebUi.EventBroker.Delivery

namespace PiWebUi.EventBroker

open Lib List Option

/-! ## Accounting -/

def bytesOf (buffer : List BufferedEvent) : ℕ := (buffer.map (·.bytes)).sum

def bufferOf (k : SessionId) (b : Broker) : List BufferedEvent := (b.replayBuffers.get k).getD []

/-- The running totals are the sums they stand for. -/
structure Tracked (b : Broker) : Prop where
  total : b.retainedBytesTotal = b.replayBuffers.sum fun e => bytesOf e.2
  session : ∀ k, (b.replayBufferBytes.get k).getD 0 = bytesOf (bufferOf k b)

/-- What replay keeps is the same, and so are the subscribers. -/
structure SameReplay (b b' : Broker) : Prop where
  subscribers : b'.subscribers = b.subscribers
  buffers : b'.replayBuffers = b.replayBuffers
  bytes : b'.replayBufferBytes = b.replayBufferBytes
  total : b'.retainedBytesTotal = b.retainedBytesTotal

variable {b b' : Broker} {buffer : List BufferedEvent} {k : SessionId} {e : NormalizedEvent}

theorem Tracked.of_same (h : Tracked b) (hs : SameReplay b b') : Tracked b' := by
  refine ⟨by rw [hs.total, hs.buffers]; exact h.total, fun k => ?_⟩
  rw [hs.bytes, bufferOf, hs.buffers]
  exact h.session k

theorem weight_bytes (b : Broker) (k : SessionId) : (b.replayBuffers.weight (fun e => bytesOf e.2) k) = bytesOf (bufferOf k b) := by
  unfold JsMap.weight bufferOf
  cases b.replayBuffers.get k <;> rfl

/-- Events and buffers held for replay. -/
def held (b : Broker) : ℕ := b.replayBuffers.sum fun e => e.2.length + 1

variable (c : Config)

section Drop

variable (j : SessionId) (n : ℕ) (b : Broker)

theorem dropSessionState_buffers : (dropSessionState c j n b).replayBuffers = b.replayBuffers.delete j := by
  simp only [dropSessionState]
  split_ifs <;> rfl

theorem dropSessionState_bytes : (dropSessionState c j n b).replayBufferBytes = b.replayBufferBytes.delete j := by
  simp only [dropSessionState]
  split_ifs <;> rfl

theorem dropSessionState_total :
    (dropSessionState c j n b).retainedBytesTotal = b.retainedBytesTotal - (b.replayBufferBytes.get j).getD 0 := by
  simp only [dropSessionState]
  split_ifs <;> rfl

end Drop

theorem tracked_dropSessionState (h : Tracked b) (j : SessionId) (n : ℕ) : Tracked (dropSessionState c j n b) := by
  refine ⟨?_, fun k => ?_⟩
  · have hsum := JsMap.sum_delete b.replayBuffers (fun e => bytesOf e.2) j
    rw [dropSessionState_total, dropSessionState_buffers, h.total, h.session j]
    rw [weight_bytes] at hsum
    omega
  · rw [dropSessionState_bytes, bufferOf, dropSessionState_buffers, JsMap.get_delete, JsMap.get_delete]
    by_cases hk : k = j
    · simp [hk, bytesOf]
    · simpa [hk, bufferOf] using h.session k

/-- Replacing one buffer, with its counter and the total moved alike. -/
theorem tracked_set (h : Tracked b) (k : SessionId) (buffer : List BufferedEvent)
    (hbuffers : b'.replayBuffers = b.replayBuffers.set k buffer)
    (hbytes : b'.replayBufferBytes = b.replayBufferBytes.set k (bytesOf buffer))
    (htotal : b'.retainedBytesTotal + bytesOf (bufferOf k b) = b.retainedBytesTotal + bytesOf buffer) : Tracked b' := by
  refine ⟨?_, fun j => ?_⟩
  · have hsum := JsMap.sum_set b.replayBuffers (fun e => bytesOf e.2) k buffer
    rw [weight_bytes] at hsum
    dsimp only at hsum
    rw [hbuffers]
    have := h.total
    omega
  · rw [hbytes, bufferOf, hbuffers, JsMap.get_set, JsMap.get_set]
    by_cases hj : j = k
    · simp [hj]
    · simpa [hj, bufferOf] using h.session j

theorem get_head {es : List (SessionId × List BufferedEvent)}
    (h : b.replayBuffers.entries = (k, buffer) :: es) : b.replayBuffers.get k = some buffer :=
  JsMap.get_eq_some.mpr (by simp [h])

theorem tracked_evictOnce (h : Tracked b) : Tracked (evictOnce c b) := by
  unfold evictOnce
  split
  · exact tracked_dropSessionState c h _ 0
  · split
    · exact h
    · next k es hes =>
      have hget := get_head hes
      have hsum := JsMap.sum_delete b.replayBuffers (fun e => bytesOf e.2) k
      rw [weight_bytes, bufferOf, hget] at hsum
      refine ⟨?_, fun j => ?_⟩
      · show b.retainedBytesTotal = (b.replayBuffers.delete k).sum fun e => bytesOf e.2
        simp only [getD_some, bytesOf, map_nil, sum_nil] at hsum
        rw [h.total]
        exact hsum.symm
      · rw [h.session j, bufferOf, bufferOf, JsMap.get_delete]
        by_cases hj : j = k
        · simp [hj, hget]
        · simp [hj]
    · next k old buffer es hes =>
      have hbuffer : bytesOf (bufferOf k b) = old.bytes + bytesOf buffer := by
        simp [bufferOf, get_head hes, bytesOf]
      have hle : bytesOf (bufferOf k b) ≤ b.retainedBytesTotal := by
        rw [h.total, ← weight_bytes, ← JsMap.sum_delete b.replayBuffers (fun e => bytesOf e.2) k]
        exact Nat.le_add_left _ _
      refine tracked_set h k buffer rfl ?_ ?_
      · show b.replayBufferBytes.set k ((b.replayBufferBytes.get k).getD 0 - old.bytes) = _
        rw [h.session k, hbuffer, Nat.add_sub_cancel_left]
      · show b.retainedBytesTotal - old.bytes + bytesOf (bufferOf k b) = b.retainedBytesTotal + bytesOf buffer
        omega

theorem tracked_evictBudget (n : ℕ) : ∀ {b : Broker}, Tracked b → Tracked (evictBudget c n b) := by
  induction n with
  | zero => intro b h; exact h
  | succ n ih =>
    intro b h
    simp only [evictBudget]
    split
    · exact ih (tracked_evictOnce c h)
    · exact h

theorem tracked_evictColdKeys (n : ℕ) : ∀ {b : Broker}, Tracked b → Tracked (evictColdKeys c n b) := by
  induction n with
  | zero => intro b h; exact h
  | succ n ih =>
    intro b h
    simp only [evictColdKeys]
    split
    · split
      · exact ih (tracked_dropSessionState c h _ 0)
      · exact h
    · exact h

/-- What a trimming loop leaves: the newest events, their bytes, and a total that moved
    with them. -/
structure Trims (buffer : List BufferedEvent) (bytes : ℕ) (b : Broker) (r : List BufferedEvent × ℕ × Broker) : Prop where
  suffix : r.1 <:+ buffer
  counted : r.2.1 = bytesOf r.1
  total : r.2.2.retainedBytesTotal + bytes = b.retainedBytesTotal + r.2.1
  subscribers : r.2.2.subscribers = b.subscribers
  buffers : r.2.2.replayBuffers = b.replayBuffers
  bufferBytes : r.2.2.replayBufferBytes = b.replayBufferBytes

theorem Trims.refl {bytes : ℕ} (h : bytes = bytesOf buffer) : Trims buffer bytes b (buffer, bytes, b) :=
  ⟨suffix_refl _, h, rfl, rfl, rfl, rfl⟩

theorem Trims.trans {bytes : ℕ} {r r' : List BufferedEvent × ℕ × Broker}
    (h : Trims buffer bytes b r) (h' : Trims r.1 r.2.1 r.2.2 r') : Trims buffer bytes b r' :=
  ⟨h'.suffix.trans h.suffix, h'.counted, by have := h.total; have := h'.total; omega, h'.subscribers.trans h.subscribers,
    h'.buffers.trans h.buffers, h'.bufferBytes.trans h.bufferBytes⟩

/-- One trimmed event. -/
theorem Trims.shift {old : BufferedEvent} {bytes : ℕ}
    (h : bytes = bytesOf (old :: buffer)) (hle : bytes ≤ b.retainedBytesTotal)
    (hsubscribers : b'.subscribers = b.subscribers) (hbuffers : b'.replayBuffers = b.replayBuffers)
    (hbytes : b'.replayBufferBytes = b.replayBufferBytes) (htotal : b'.retainedBytesTotal = b.retainedBytesTotal - old.bytes) :
    Trims (old :: buffer) bytes b (buffer, bytes - old.bytes, b') := by
  have hold : bytes = old.bytes + bytesOf buffer := by simpa [bytesOf] using h
  refine ⟨suffix_cons _ _, ?_, ?_, hsubscribers, hbuffers, hbytes⟩
  · show bytes - old.bytes = bytesOf buffer
    omega
  · show b'.retainedBytesTotal + bytes = b.retainedBytesTotal + (bytes - old.bytes)
    omega

theorem Trims.le_total {bytes : ℕ} {r : List BufferedEvent × ℕ × Broker}
    (h : Trims buffer bytes b r) (hle : bytes ≤ b.retainedBytesTotal) : r.2.1 ≤ r.2.2.retainedBytesTotal := by
  have := h.total
  omega

theorem trims_trimCount (buffer : List BufferedEvent) : ∀ (bytes : ℕ) (b : Broker), bytes = bytesOf buffer →
    bytes ≤ b.retainedBytesTotal → Trims buffer bytes b (trimCount c buffer bytes b) := by
  induction buffer with
  | nil => intro bytes b h _; exact .refl h
  | cons old buffer ih =>
    intro bytes b h hle
    simp only [trimCount]
    split
    · have hshift : Trims (old :: buffer) bytes b (buffer, bytes - old.bytes,
          { b with retainedBytesTotal := b.retainedBytesTotal - old.bytes }) :=
        .shift h hle rfl rfl rfl rfl
      exact hshift.trans (ih _ _ hshift.counted (hshift.le_total hle))
    · exact .refl h

theorem trims_trimBytes (k : SessionId) (buffer : List BufferedEvent) : ∀ (bytes : ℕ) (b : Broker),
    bytes = bytesOf buffer → bytes ≤ b.retainedBytesTotal → Trims buffer bytes b (trimBytes c k buffer bytes b) := by
  induction buffer with
  | nil => intro bytes b h _; exact .refl h
  | cons old buffer ih =>
    intro bytes b h hle
    simp only [trimBytes]
    split
    · have hshift : Trims (old :: buffer) bytes b (buffer, bytes - old.bytes,
          markEvicted c k 1 { b with retainedBytesTotal := b.retainedBytesTotal - old.bytes }) :=
        .shift h hle rfl rfl rfl rfl
      exact hshift.trans (ih _ _ hshift.counted (hshift.le_total hle))
    · exact .refl h

theorem bytes_le_total (h : Tracked b) (k : SessionId) : bytesOf (bufferOf k b) ≤ b.retainedBytesTotal := by
  rw [h.total, ← weight_bytes, ← JsMap.sum_delete b.replayBuffers (fun e => bytesOf e.2) k]
  exact Nat.le_add_left _ _

theorem bytesOf_append (buffer : List BufferedEvent) (e : BufferedEvent) : bytesOf (buffer ++ [e]) = bytesOf buffer + e.bytes := by
  simp [bytesOf]

theorem trims_pushed (h : Tracked b) (k : SessionId) (m : MeasuredEvent) :
    Trims (bufferOf k b ++ [⟨m.event, m.bytes⟩]) (bytesOf (bufferOf k b) + m.bytes)
      { b with retainedBytesTotal := b.retainedBytesTotal + m.bytes } (pushed c k m b) := by
  unfold pushed
  rw [h.session k]
  exact trims_trimCount c _ _ _ (bytesOf_append (bufferOf k b) ⟨m.event, m.bytes⟩).symm (Nat.add_le_add_right (bytes_le_total h k) _)

theorem trims_pushed_trimmed (h : Tracked b) (k : SessionId) (m : MeasuredEvent) :
    Trims (pushed c k m b).1 (pushed c k m b).2.1 (pushed c k m b).2.2 (trimmed c k m b) := by
  have hp := trims_pushed c h k m
  exact trims_trimBytes c k _ _ _ hp.counted (hp.le_total (Nat.add_le_add_right (bytes_le_total h k) _))

theorem trims_trimmed (h : Tracked b) (k : SessionId) (m : MeasuredEvent) :
    Trims (bufferOf k b ++ [⟨m.event, m.bytes⟩]) (bytesOf (bufferOf k b) + m.bytes)
      { b with retainedBytesTotal := b.retainedBytesTotal + m.bytes } (trimmed c k m b) :=
  (trims_pushed c h k m).trans (trims_pushed_trimmed c h k m)

theorem tracked_retain (h : Tracked b) (k : SessionId) (m : MeasuredEvent) : Tracked (retain c k m b) := by
  have ht := trims_trimmed c h k m
  refine tracked_set h k (trimmed c k m b).1 ?_ ?_ ?_
  · exact congrArg (·.set k (trimmed c k m b).1) ht.buffers
  · show (trimmed c k m b).2.2.replayBufferBytes.set k (trimmed c k m b).2.1 = _
    rw [ht.counted]
    exact congrArg (·.set k (bytesOf (trimmed c k m b).1)) ht.bufferBytes
  · show (trimmed c k m b).2.2.retainedBytesTotal + _ = _
    have htotal := ht.total
    have hcounted := ht.counted
    dsimp only at htotal
    omega

/-! ## Session bounds -/

/-- A buffer within its count and its bytes. -/
def Fits (buffer : List BufferedEvent) : Prop :=
  c.replayBufferSize.lt (num buffer.length) = false ∧ c.replayBufferMaxBytes.lt (num (bytesOf buffer)) = false

def SessionBounded (b : Broker) : Prop := ∀ e ∈ b.replayBuffers.entries, Fits c e.2

/-- The configured bounds are not below zero. -/
structure Nonneg : Prop where
  size : c.replayBufferSize.lt (num 0) = false
  maxBytes : c.replayBufferMaxBytes.lt (num 0) = false
  budget : c.replayBudgetMaxBytes.lt (num 0) = false
  coldKeys : c.coldKeyLimit.lt (num 0) = false

theorem config_nonneg (options : Options) : Nonneg (config options) where
  size := JsNumber.not_max_lt _ _
  maxBytes := JsNumber.not_max_lt _ _
  budget := JsNumber.not_max_lt _ _
  coldKeys := JsNumber.not_lt_of_le (Nat.zero_le 1) (JsNumber.not_max_lt _ _)

variable {c}

theorem bytesOf_suffix {xs ys : List BufferedEvent} (h : xs <:+ ys) : bytesOf xs ≤ bytesOf ys := by
  obtain ⟨zs, rfl⟩ := h
  simp [bytesOf]

theorem Fits.of_suffix {xs ys : List BufferedEvent} (h : Fits c ys) (hs : xs <:+ ys) : Fits c xs :=
  ⟨JsNumber.not_lt_of_le hs.length_le h.1, JsNumber.not_lt_of_le (bytesOf_suffix hs) h.2⟩

theorem trimCount_fits (hc : Nonneg c) (buffer : List BufferedEvent) : ∀ (bytes : ℕ) (b : Broker),
    c.replayBufferSize.lt (num (trimCount c buffer bytes b).1.length) = false := by
  induction buffer with
  | nil => intro bytes b; exact hc.size
  | cons old buffer ih =>
    intro bytes b
    simp only [trimCount]
    split
    · exact ih _ _
    · next h => simpa using h

theorem trimBytes_fits (hc : Nonneg c) (k : SessionId) (buffer : List BufferedEvent) : ∀ (bytes : ℕ) (b : Broker),
    bytes = bytesOf buffer → c.replayBufferMaxBytes.lt (num (trimBytes c k buffer bytes b).2.1) = false := by
  induction buffer with
  | nil => intro bytes b h; rw [h]; exact hc.maxBytes
  | cons old buffer ih =>
    intro bytes b h
    simp only [trimBytes]
    split
    · exact ih _ _ (by simp [h, bytesOf])
    · next h => simpa using h

theorem trimmed_fits (hc : Nonneg c) (h : Tracked b) (k : SessionId) (m : MeasuredEvent) :
    Fits c (trimmed c k m b).1 := by
  have hsuffix := (trims_pushed_trimmed c h k m).suffix
  refine ⟨JsNumber.not_lt_of_le hsuffix.length_le (trimCount_fits hc _ _ _), ?_⟩
  rw [← (trims_trimmed c h k m).counted]
  exact trimBytes_fits hc k _ _ _ (trims_pushed c h k m).counted

theorem bounded_delete (h : SessionBounded c b) (k : SessionId)
    (hb : b'.replayBuffers = b.replayBuffers.delete k) : SessionBounded c b' := by
  intro e he
  rw [hb] at he
  exact h e (JsMap.mem_delete.mp he).2

theorem bounded_set (h : SessionBounded c b)
    (hfits : Fits c buffer) (hb : b'.replayBuffers = b.replayBuffers.set k buffer) : SessionBounded c b' := by
  intro e he
  rw [hb] at he
  rcases JsMap.mem_set.mp he with rfl | ⟨-, he⟩
  · exact hfits
  · exact h e he

theorem bounded_evictOnce (h : SessionBounded c b) : SessionBounded c (evictOnce c b) := by
  unfold evictOnce
  split
  · next k _ => exact bounded_delete h k (dropSessionState_buffers c k 0 b)
  · split
    · exact h
    · next k es hes => exact bounded_delete h k rfl
    · next k old buffer es hes =>
      have hfits : Fits c (old :: buffer) := h (k, old :: buffer) (by simp [hes])
      exact bounded_set h (hfits.of_suffix (suffix_cons _ _)) rfl

theorem bounded_evictBudget (n : ℕ) : ∀ {b : Broker}, SessionBounded c b → SessionBounded c (evictBudget c n b) := by
  induction n with
  | zero => intro b h; exact h
  | succ n ih =>
    intro b h
    simp only [evictBudget]
    split
    · exact ih (bounded_evictOnce h)
    · exact h

theorem bounded_evictColdKeys (n : ℕ) : ∀ {b : Broker}, SessionBounded c b → SessionBounded c (evictColdKeys c n b) := by
  induction n with
  | zero => intro b h; exact h
  | succ n ih =>
    intro b h
    simp only [evictColdKeys]
    split
    · split
      · next k _ => exact ih (bounded_delete h k (dropSessionState_buffers c k 0 b))
      · exact h
    · exact h

/-! ## Global bounds -/

variable (c) in
/-- Within the byte budget and the cold-session limit. -/
structure Within (b : Broker) : Prop where
  budget : c.replayBudgetMaxBytes.lt (num b.retainedBytesTotal) = false
  coldKeys : c.coldKeyLimit.lt (num (coldKeyCount b)) = false

theorem held_delete (b : Broker) (hget : b.replayBuffers.get k = some buffer) (hb : b'.replayBuffers = b.replayBuffers.delete k) :
    held b' + (buffer.length + 1) = held b := by
  have := JsMap.sum_delete b.replayBuffers (fun e => e.2.length + 1) k
  rw [JsMap.weight, hget] at this
  simpa [held, hb] using this

theorem held_set (b : Broker) (hb : b'.replayBuffers = b.replayBuffers.set k buffer) :
    held b' + b.replayBuffers.weight (fun e => e.2.length + 1) k = held b + (buffer.length + 1) := by
  have := JsMap.sum_set b.replayBuffers (fun e => e.2.length + 1) k buffer
  simpa [held, hb] using this

theorem coldKey_get (h : coldKey b = some k) : ∃ buffer, b.replayBuffers.get k = some buffer := by
  have hk : b.replayBuffers.has k = true := JsMap.has_iff.mpr (mem_of_find?_eq_some h)
  rw [JsMap.has_iff_get] at hk
  exact isSome_iff_exists.mp hk

/-- Every eviction takes an event or a buffer. -/
theorem held_evictOnce (h : 0 < b.replayBuffers.size) : held (evictOnce c b) + 1 ≤ held b := by
  unfold evictOnce
  split
  · next k hk =>
    obtain ⟨buffer, hget⟩ := coldKey_get hk
    have := held_delete b hget (dropSessionState_buffers c k 0 b)
    omega
  · split
    · next hes => simp [JsMap.size, hes] at h
    · next k es hes =>
      have hdel : held { b with replayBuffers := b.replayBuffers.delete k } + (0 + 1) = held b :=
        held_delete b (get_head hes) rfl
      omega
    · next k old buffer es hes =>
      have hset : held (evictOldest c k old buffer b) + b.replayBuffers.weight (fun e => e.2.length + 1) k =
        held b + (buffer.length + 1) := held_set b rfl
      rw [JsMap.weight, get_head hes] at hset
      simp only [map_some, getD_some, length_cons] at hset
      show held (evictOldest c k old buffer b) + 1 ≤ held b
      omega

theorem coldKeyCount_pos (h : 0 < coldKeyCount b) : ∃ k, coldKey b = some k := by
  obtain ⟨k, hk, hcold⟩ := countP_pos_iff.mp h
  exact isSome_iff_exists.mp (find?_isSome.mpr ⟨k, hk, hcold⟩)

/-- The byte pass brings the total within the budget, or makes all its evictions. -/
theorem evictBudget_spec (hc : Nonneg c) (n : ℕ) : ∀ {b : Broker}, Tracked b →
    (c.replayBudgetMaxBytes.lt (num (evictBudget c n b).retainedBytesTotal) = false ∧ held (evictBudget c n b) ≤ held b) ∨
      held (evictBudget c n b) + n ≤ held b := by
  induction n with
  | zero => intro b _; exact .inr (le_refl _)
  | succ n ih =>
    intro b h
    simp only [evictBudget]
    split
    · next hover =>
      simp only [overBudget, Bool.and_eq_true, decide_eq_true_eq] at hover
      have hone := held_evictOnce (c := c) hover.2
      rcases ih (tracked_evictOnce c h) with ⟨hb, hle⟩ | hle
      · exact .inl ⟨hb, by omega⟩
      · exact .inr (by omega)
    · next hover =>
      refine .inl ⟨?_, le_refl _⟩
      by_cases hsize : 0 < b.replayBuffers.size
      · simpa [overBudget, hsize] using hover
      · have hempty : b.replayBuffers.entries = [] := eq_nil_of_length_eq_zero (by simpa [JsMap.size] using hsize)
        have h0 : b.retainedBytesTotal = 0 := by simp [h.total, JsMap.sum, hempty]
        rw [h0]
        exact hc.budget

/-- The cold pass only drops sessions, until few enough are cold or all its evictions
    are made. -/
theorem evictColdKeys_spec (hc : Nonneg c) (n : ℕ) : ∀ (b : Broker),
    (evictColdKeys c n b).retainedBytesTotal ≤ b.retainedBytesTotal ∧
      ((c.coldKeyLimit.lt (num (coldKeyCount (evictColdKeys c n b))) = false ∧ held (evictColdKeys c n b) ≤ held b) ∨
        held (evictColdKeys c n b) + n ≤ held b) := by
  induction n with
  | zero => intro b; exact ⟨le_refl _, .inr (le_refl _)⟩
  | succ n ih =>
    intro b
    simp only [evictColdKeys]
    split
    · next hover =>
      have hpos : 0 < coldKeyCount b := by
        rcases Nat.eq_zero_or_pos (coldKeyCount b) with h0 | hpos
        · rw [overColdKeys, h0, hc.coldKeys] at hover; cases hover
        · exact hpos
      obtain ⟨k, hk⟩ := coldKeyCount_pos hpos
      simp only [hk]
      obtain ⟨buffer, hget⟩ := coldKey_get hk
      have hdrop := held_delete b hget (dropSessionState_buffers c k 0 b)
      have htotal := dropSessionState_total c k 0 b
      obtain ⟨hle, hrest⟩ := ih (dropSessionState c k 0 b)
      refine ⟨by omega, ?_⟩
      rcases hrest with ⟨hcold, hheld⟩ | hheld
      · exact .inl ⟨hcold, by omega⟩
      · exact .inr (by omega)
    · next hover => exact ⟨le_refl _, .inl ⟨by simpa [overColdKeys] using hover, le_refl _⟩⟩

theorem enforce_spec (hc : Nonneg c) (h : Tracked b) :
    (Within c (enforceGlobalBounds c b) ∧ held (enforceGlobalBounds c b) ≤ held b) ∨
      held (enforceGlobalBounds c b) + GUARD ≤ held b := by
  obtain ⟨htotal, hcold⟩ := evictColdKeys_spec hc GUARD (evictBudget c GUARD b)
  rcases evictBudget_spec hc GUARD h with ⟨hbudget, hheld⟩ | hheld
  · rcases hcold with ⟨hkeys, hheld'⟩ | hheld'
    · exact .inl ⟨⟨JsNumber.not_lt_of_le htotal hbudget, hkeys⟩, hheld'.trans hheld⟩
    · exact .inr (hheld'.trans hheld)
  · right
    have : held (enforceGlobalBounds c b) ≤ held (evictBudget c GUARD b) := by
      rcases hcold with ⟨-, h⟩ | h
      · exact h
      · exact (Nat.le_add_right _ _).trans h
    omega

/-- A delivery adds one event and at most one buffer. -/
theorem held_retain (h : Tracked b) (k : SessionId) (m : MeasuredEvent) : held (retain c k m b) ≤ held b + 2 := by
  have ht := trims_trimmed c h k m
  have hset : held (retain c k m b) + b.replayBuffers.weight (fun e => e.2.length + 1) k =
      held b + ((trimmed c k m b).1.length + 1) :=
    held_set b (congrArg (·.set k (trimmed c k m b).1) ht.buffers)
  have hlen : (trimmed c k m b).1.length ≤ (bufferOf k b).length + 1 := by simpa using ht.suffix.length_le
  unfold JsMap.weight bufferOf at *
  cases hget : b.replayBuffers.get k with
  | none | some buffer => simp [hget] at hset hlen; omega

/-! ## Every operation -/

variable (c) in
/-- Replay is kept at all. -/
def retains : Bool := (num 0).lt c.replayBufferSize || (num 0).lt c.replayBufferMaxBytes

variable (c) in
structure Sound (b : Broker) : Prop where
  tracked : Tracked b
  bounded : SessionBounded c b
  empty : retains c = false → b.replayBuffers.entries = []

theorem Sound.of_same (h : Sound c b) (hs : SameReplay b b') : Sound c b' :=
  ⟨h.tracked.of_same hs, by rw [SessionBounded, hs.buffers]; exact h.bounded, by rw [hs.buffers]; exact h.empty⟩

theorem sound_init : Sound c init where
  tracked := ⟨rfl, fun _ => rfl⟩
  bounded := by intro e he; cases he
  empty _ := rfl

theorem Sound.dropSessionState (h : Sound c b) (k : SessionId) (n : ℕ) : Sound c (dropSessionState c k n b) := by
  refine ⟨tracked_dropSessionState c h.tracked k n, bounded_delete h.bounded k (dropSessionState_buffers c k n b), fun hr => ?_⟩
  rw [dropSessionState_buffers]
  simp [JsMap.delete, h.empty hr]

theorem Within.of_empty (hc : Nonneg c) (h : Tracked b) (he : b.replayBuffers.entries = []) : Within c b := by
  have h0 : b.retainedBytesTotal = 0 := by simp [h.total, JsMap.sum, he]
  have hk : coldKeyCount b = 0 := by simp [coldKeyCount, JsMap.keys, he]
  exact ⟨by rw [h0]; exact hc.budget, by rw [hk]; exact hc.coldKeys⟩

/-- One delivery keeps the accounting and ends within the global bounds, unless its
    eviction passes met their guard. -/
theorem deliver_spec (hc : Nonneg c) (h : Sound c b) (k : SessionId) (e : NormalizedEvent) :
    Sound c (deliver c k e b).1 ∧ held (deliver c k e b).1 ≤ held b + 2 ∧
      (Within c (deliver c k e b).1 ∨ held (deliver c k e b).1 + GUARD ≤ held b + 2) := by
  simp only [deliver]
  split
  · next hr =>
    set m := measureAndSlim e c.eventPayloadMaxBytes
    have ht := tracked_retain c h.tracked k m
    have hb : SessionBounded c (retain c k m b) :=
      bounded_set h.bounded (trimmed_fits hc h.tracked k m)
        (congrArg (·.set k (trimmed c k m b).1) (trims_trimmed c h.tracked k m).buffers)
    have hheld := held_retain (c := c) h.tracked k m
    refine ⟨⟨tracked_evictColdKeys c GUARD (tracked_evictBudget c GUARD ht),
      bounded_evictColdKeys GUARD (bounded_evictBudget GUARD hb), fun hr' => ?_⟩, ?_⟩
    · rw [retains, hr] at hr'; cases hr'
    · rcases enforce_spec hc ht with ⟨hw, hle⟩ | hle
      · exact ⟨hle.trans hheld, .inl hw⟩
      · exact ⟨by omega, .inr (hle.trans hheld)⟩
  · next hr =>
    have he := h.empty (by simpa [retains] using hr)
    exact ⟨h, Nat.le_add_right _ _, .inl (.of_empty hc h.tracked he)⟩

theorem Within.of_same (h : Within c b) (hs : SameReplay b b') : Within c b' := by
  refine ⟨by rw [hs.total]; exact h.budget, ?_⟩
  rw [coldKeyCount, hs.buffers, hs.subscribers]
  exact h.coldKeys

theorem held_same (hs : SameReplay b b') : held b' = held b := by
  rw [held, hs.buffers, held]

theorem same_spend (k : SessionId) (f : JsNumber → JsNumber) (b : Broker) : SameReplay b (spend k f b) := by
  unfold spend
  split <;> exact ⟨rfl, rfl, rfl, rfl⟩

theorem same_hold (k : SessionId) (e : NormalizedEvent) (b : Broker) : SameReplay b (hold k e b) := ⟨rfl, rfl, rfl, rfl⟩

theorem same_refill (k : SessionId) (now : JsNumber) (b : Broker) : SameReplay b (refill c k now b) := ⟨rfl, rfl, rfl, rfl⟩

/-- Sound again, with at most `n` more events and buffers before eviction. -/
structure Step (c : Config) (n : ℕ) (b b' : Broker) : Prop where
  sound : Sound c b'
  grows : held b' ≤ held b + n

/-- The step ended in a delivery: within the global bounds, or at the guard. -/
def Enforced (c : Config) (n : ℕ) (b b' : Broker) : Prop := Within c b' ∨ held b' + GUARD ≤ held b + n

theorem step_same (h : Sound c b) (hs : SameReplay b b') : Step c 0 b b' :=
  ⟨h.of_same hs, (held_same hs).le⟩

theorem Step.andThen {n m : ℕ} {b b'' : Broker} (h : Step c n b b') (h' : Step c m b' b'') : Step c (n + m) b b'' :=
  ⟨h'.sound, by have := h.grows; have := h'.grows; omega⟩

theorem Enforced.after {n m : ℕ} {b b'' : Broker} (h : held b' ≤ held b + n) (h' : Enforced c m b' b'') :
    Enforced c (n + m) b b'' := by
  rcases h' with hw | hg
  · exact .inl hw
  · exact .inr (by omega)

theorem Enforced.of_same {n : ℕ} {b b'' : Broker} (h : Enforced c n b b') (hs : SameReplay b' b'') : Enforced c n b b'' := by
  rcases h with hw | hg
  · exact .inl (hw.of_same hs)
  · exact .inr (by rw [held_same hs]; exact hg)

theorem Enforced.mono {n m : ℕ} (h : Enforced c n b b') (hnm : n ≤ m) : Enforced c m b b' := by
  rcases h with hw | hg
  · exact .inl hw
  · exact .inr (by omega)

theorem step_deliver (hc : Nonneg c) (h : Sound c b) (k : SessionId) (e : NormalizedEvent) :
    Step c 2 b (deliver c k e b).1 ∧ Enforced c 2 b (deliver c k e b).1 := by
  obtain ⟨hs, hle, hw⟩ := deliver_spec hc h k e
  exact ⟨⟨hs, hle⟩, hw⟩

theorem step_flushPending (hc : Nonneg c) (h : Sound c b) (k : SessionId) : Step c 2 b (flushPending c k b).1 ∧
      ((b.pendingUpdates.get k).isSome = true → Enforced c 2 b (flushPending c k b).1) := by
  unfold flushPending
  split
  · next hp => exact ⟨⟨h, Nat.le_add_right _ _⟩, fun hsome => by rw [hp] at hsome; cases hsome⟩
  · next p hp =>
    have hdel : SameReplay b { b with pendingUpdates := b.pendingUpdates.delete k } := ⟨rfl, rfl, rfl, rfl⟩
    have hspend := (step_same h hdel).andThen (step_same (h.of_same hdel)
      (same_spend k (fun tokens => (num 0).max (tokens.sub (num 1))) _))
    obtain ⟨hd, he⟩ := step_deliver hc hspend.sound k (stamped p)
    exact ⟨hspend.andThen hd, fun _ => he.after hspend.grows⟩

variable (c) in
/-- A `message_update` goes to the pending slot and nothing is delivered. -/
def heldBack (k : SessionId) (now : JsNumber) (b : Broker) : Bool :=
  !(b.pendingUpdates.has k && (num 1).lt (refilledTokens c k now b)) && (refilledTokens c k now b).le (num 1)

variable (c) in
/-- The publish delivers an event, its own or a pending one. -/
def delivers (k : SessionId) (e : NormalizedEvent) (env : Env) (b : Broker) : Bool :=
  !env.disposed && !(isUpdate (admitted c k e env) && heldBack c k env.now b)

theorem step_publishUpdate (hc : Nonneg c) (h : Sound c b) (k : SessionId) (e : NormalizedEvent)
    (now : JsNumber) : Sound c (publishUpdate c k e now b).1 ∧
      (heldBack c k now b = false → Enforced c 4 b (publishUpdate c k e now b).1) := by
  have hr := step_same h (same_refill (c := c) k now b)
  obtain ⟨flushed, hf, hstep, hpass⟩ : ∃ flushed : Broker × List Invocation,
      (if (refill c k now b).pendingUpdates.has k && (num 1).lt (availableTokens c k (refill c k now b)) then
        flushPending c k (refill c k now b) else (refill c k now b, [])) = flushed ∧ Step c 2 b flushed.1 ∧
      (heldBack c k now b = false → (availableTokens c k flushed.1).le (num 1) = true → Enforced c 2 b flushed.1) := by
    refine ⟨_, rfl, ?_⟩
    split
    · next hcond =>
      obtain ⟨hs, he⟩ := step_flushPending hc hr.sound k
      rw [Bool.and_eq_true, JsMap.has_iff_get] at hcond
      exact ⟨hr.andThen hs, fun _ _ => (he hcond.1).after hr.grows⟩
    · next hcond =>
      refine ⟨⟨hr.sound, hr.grows.trans (by omega)⟩, fun hheld hle => ?_⟩
      have hcond' : (b.pendingUpdates.has k && (num 1).lt (refilledTokens c k now b)) = false :=
        (Bool.not_eq_true _).mp hcond
      have hle' : (refilledTokens c k now b).le (num 1) = true := hle
      rw [heldBack, hcond', hle'] at hheld
      cases hheld
  unfold publishUpdate
  simp only [hf]
  split
  · next hle =>
    have hhold := same_hold k e flushed.1
    exact ⟨hstep.sound.of_same hhold, fun hheld => ((hpass hheld hle).of_same hhold).mono (by omega)⟩
  · have hspend := hstep.andThen (step_same hstep.sound (same_spend k (fun tokens => tokens.sub (num 1)) flushed.1))
    obtain ⟨hd, he⟩ := step_deliver hc hspend.sound k e
    exact ⟨hd.sound, fun _ => he.after hspend.grows⟩

theorem step_publish (hc : Nonneg c) (h : Sound c b) (k : SessionId) (e : NormalizedEvent) (env : Env) :
    Sound c (publish c k e env b).1 ∧ (delivers c k e env b = true → Enforced c 4 b (publish c k e env b).1) := by
  unfold publish delivers
  split
  · next hd => exact ⟨h, fun hdel => by simp [hd] at hdel⟩
  dsimp only
  split
  · next hu =>
    obtain ⟨hs, he⟩ := step_publishUpdate hc h k (admitted c k e env) env.now
    refine ⟨hs, fun hdel => he ?_⟩
    rw [Bool.and_eq_true] at hdel
    simpa [hu] using hdel.2
  · obtain ⟨hf, -⟩ := step_flushPending hc h k
    obtain ⟨hd, he⟩ := step_deliver hc hf.sound k (admitted c k e env)
    exact ⟨hd.sound, fun _ => he.after hf.grows⟩

theorem sound_step (hc : Nonneg c) (b : Broker) (op : Op) (h : Sound c b) : Sound c (step c b op).1 := by
  cases op with
  | subscribe k s replay disposed =>
    simp only [step, subscribe]
    split
    · exact h
    · exact ⟨⟨h.tracked.total, h.tracked.session⟩, h.bounded, h.empty⟩
  | unsubscribe k s =>
    simp only [step, unsubscribe]
    split
    · exact h
    split <;> exact ⟨⟨h.tracked.total, h.tracked.session⟩, h.bounded, h.empty⟩
  | publish k e env => exact (step_publish hc h k e env).1
  | clear k =>
    have hsub : Sound c { b with subscribers := b.subscribers.delete k } :=
      ⟨⟨h.tracked.total, h.tracked.session⟩, h.bounded, h.empty⟩
    have hdrop := hsub.dropSessionState k 0
    exact ⟨⟨hdrop.tracked.total, hdrop.tracked.session⟩, hdrop.bounded, hdrop.empty⟩
  | clearAll => exact ⟨⟨rfl, fun _ => rfl⟩, (fun _ h => by cases h), fun _ => rfl⟩

variable (c) in
def run (ops : List Op) : Broker := ops.foldl (fun b op => (step c b op).1) init

theorem sound_run (hc : Nonneg c) (ops : List Op) : Sound c (run c ops) :=
  Run.invariant_all (sound_step hc) sound_init ops

theorem memory_bounded (options : Options) (ops : List Op) : let c := config options
    let b := run c ops
    b.retainedBytesTotal = (b.replayBuffers.sum fun e => bytesOf e.2) ∧
      (∀ k, (b.replayBufferBytes.get k).getD 0 = bytesOf (bufferOf k b)) ∧
      (∀ k buffer, b.replayBuffers.get k = some buffer → Fits c buffer) ∧
      ∀ k e env, delivers c k e env b = true →
        Within c (publish c k e env b).1 ∨ held (publish c k e env b).1 + GUARD ≤ held b + 4 := by
  have hc := config_nonneg options
  have h := sound_run hc ops
  refine ⟨h.tracked.total, h.tracked.session, fun k buffer hget => ?_, fun k e env hd => (step_publish hc h k e env).2 hd⟩
  exact h.bounded (k, buffer) (JsMap.get_eq_some.mp hget)

/-! ## The guard -/

/-- Session `s` has a subscriber, nothing pending, and the only buffer. -/
structure Alone (s : SessionId) (b : Broker) : Prop where
  live : b.subscribers.has s = true
  pending : b.pendingUpdates.get s = none
  only : ∀ k ∈ b.replayBuffers.keys, k = s
  tracked : Tracked b

variable {s : SessionId} {b : Broker}

theorem Alone.total (h : Alone s b) : b.retainedBytesTotal = bytesOf (bufferOf s b) := by
  have hsum := JsMap.sum_delete b.replayBuffers (fun e => bytesOf e.2) s
  have hnone : (b.replayBuffers.delete s).entries = [] := by
    refine filter_eq_nil_iff.mpr fun e he => ?_
    simp [h.only e.1 (mem_map_of_mem he)]
  rw [weight_bytes, JsMap.sum, hnone] at hsum
  rw [h.tracked.total, ← hsum]
  simp

theorem Alone.entries (h : Alone s b) (hget : b.replayBuffers.get s = some buffer) : b.replayBuffers.entries = [(s, buffer)] := by
  have hmem := JsMap.get_eq_some.mp hget
  have hn := b.replayBuffers.nodup
  have honly := h.only
  unfold JsMap.keys at honly
  cases hes : b.replayBuffers.entries with
  | nil => simp [hes] at hmem
  | cons e es =>
    rw [hes] at hmem hn honly
    have hnil : es = [] := by
      refine eq_nil_iff_forall_not_mem.mpr fun f hf => ?_
      have he := honly e.1 (by simp)
      have hf' := honly f.1 (mem_map_of_mem (mem_cons_of_mem _ hf))
      have hnot : e.1 ∉ es.map (·.1) := (nodup_cons.mp hn).1
      rw [he, ← hf'] at hnot
      exact hnot (mem_map_of_mem hf)
    subst hnil
    rw [mem_singleton] at hmem
    rw [hmem]

/-- No session is cold. -/
theorem Alone.coldKey (h : Alone s b) : coldKey b = none := by
  refine find?_eq_none.mpr fun k hk => ?_
  simp [h.only k hk, h.live]

theorem Alone.coldKeyCount (h : Alone s b) : coldKeyCount b = 0 := by
  refine countP_eq_zero.mpr fun k hk => ?_
  simp [h.only k hk, h.live]

theorem Alone.evictColdKeys (hc : Nonneg c) (h : Alone s b) (n : ℕ) : evictColdKeys c n b = b := by
  cases n with
  | zero => rfl
  | succ n =>
    have hover : overColdKeys c b = false := by rw [overColdKeys, h.coldKeyCount]; exact hc.coldKeys
    simp only [EventBroker.evictColdKeys, hover, Bool.false_eq_true, if_false]

theorem only_set (h : ∀ k ∈ b.replayBuffers.keys, k = s) (buffer : List BufferedEvent) :
    ∀ k ∈ (b.replayBuffers.set s buffer).keys, k = s := by
  intro k hk
  rcases (JsMap.has_set _ _ _ _).mp (JsMap.has_iff.mpr hk) with rfl | hk
  · rfl
  · exact h k (JsMap.has_iff.mp hk)

variable (c) in
theorem Alone.retain (h : Alone s b) (m : MeasuredEvent) : Alone s (retain c s m b) where
  live := by rw [(keeps_retain c s s m b).subscribers]; exact h.live
  pending := by rw [(keeps_retain c s s m b).pending]; exact h.pending
  only := by
    show ∀ k ∈ ((trimmed c s m b).2.2.replayBuffers.set s (trimmed c s m b).1).keys, k = s
    exact only_set (b := (trimmed c s m b).2.2) (by rw [(trims_trimmed c h.tracked s m).buffers]; exact h.only) _
  tracked := tracked_retain c h.tracked s m

/-- A session without bounds of its own keeps every event. -/
theorem buffer_retain (hsize : c.replayBufferSize = .posInf) (hbytes : c.replayBufferMaxBytes = .posInf)
    (m : MeasuredEvent) : bufferOf s (EventBroker.retain c s m b) = bufferOf s b ++ [⟨m.event, m.bytes⟩] := by
  have hcount : ∀ buffer bytes (b : Broker), trimCount c buffer bytes b = (buffer, bytes, b) := by
    intro buffer bytes b
    cases buffer with
    | nil => rfl
    | cons old buffer => simp [trimCount, hsize, JsNumber.lt, num]
  have htrim : ∀ buffer bytes (b : Broker), trimBytes c s buffer bytes b = (buffer, bytes, b) := by
    intro buffer bytes b
    cases buffer with
    | nil => rfl
    | cons old buffer => simp [trimBytes, hbytes, JsNumber.lt, num]
  simp [EventBroker.retain, trimmed, pushed, hcount, htrim, bufferOf]

/-- Each eviction takes one event of the live session, and no more. -/
theorem Alone.evictBudget {x : BufferedEvent} (n : ℕ) : ∀ {b : Broker} {m : ℕ} {rest : List BufferedEvent}, Alone s b →
    bufferOf s b = List.replicate m x ++ rest → n ≤ m → Alone s (evictBudget c n b) ∧
      b.retainedBytesTotal ≤ (evictBudget c n b).retainedBytesTotal + n * x.bytes := by
  induction n with
  | zero => intro b m rest h _ _; exact ⟨h, Nat.le_add_right _ _⟩
  | succ n ih =>
    intro b m rest h hbuffer hle
    simp only [EventBroker.evictBudget]
    split
    · obtain ⟨m, rfl⟩ : ∃ k, m = k + 1 := ⟨m - 1, by omega⟩
      rw [replicate_succ, List.cons_append] at hbuffer
      have hget : b.replayBuffers.get s = some (x :: (List.replicate m x ++ rest)) := by
        unfold bufferOf at hbuffer
        cases hg : b.replayBuffers.get s with
        | none => simp [hg] at hbuffer
        | some buffer => simpa [hg] using hbuffer
      have honce : evictOnce c b = evictOldest c s x (List.replicate m x ++ rest) b := by
        simp only [evictOnce, h.coldKey, h.entries hget]
      have halone : Alone s (evictOnce c b) := {
        live := by rw [honce]; exact h.live
        pending := by rw [honce]; exact h.pending
        only := by rw [honce]; exact only_set h.only _
        tracked := tracked_evictOnce c h.tracked }
      have hnext : bufferOf s (evictOnce c b) = List.replicate m x ++ rest := by
        rw [honce]
        simp only [evictOldest, markEvicted, bufferOf, JsMap.get_set_same, getD_some]
      obtain ⟨ha, ht⟩ := ih halone hnext (by omega)
      refine ⟨ha, ?_⟩
      have htotal : (evictOnce c b).retainedBytesTotal = b.retainedBytesTotal - x.bytes := by rw [honce]; rfl
      rw [Nat.succ_mul]
      omega
    · exact ⟨h, Nat.le_add_right _ _⟩

theorem evictBudget_within (h : overBudget c b = false) (n : ℕ) : evictBudget c n b = b := by
  cases n with
  | zero => rfl
  | succ n => simp only [evictBudget, h, Bool.false_eq_true, if_false]

/-- A budget of 260,026 bytes and no bounds per session or event. -/
def budgetOnly : Config :=
  config { replayBufferSize := .posInf, replayBufferMaxBytes := .posInf, replayBudgetMaxBytes := num 260026,
           eventPayloadMaxBytes := num 0 }

/-- An event of 26 bytes. -/
def small : NormalizedEvent := { type := js "t" }

def large (n : ℕ) : NormalizedEvent := { type := js "t", data := some (.str (List.replicate n 97)) }

theorem serialize_small : serialize small = 26 := by decide +kernel

theorem escape_plain (n : ℕ) : Json.escape (List.replicate n 97) = List.replicate n 97 := by
  induction n with
  | zero => rfl
  | succ n ih =>
    cases n with
    | zero => decide
    | succ n =>
      have h97 : Json.escapeUnit 97 = [97] := by decide
      have hhigh : isHighSurrogate 97 = false := by decide
      rw [replicate_succ, replicate_succ, Json.escape, hhigh, Bool.false_and, if_neg (by simp),
        ← replicate_succ, ih, h97]
      rfl

theorem le_serialize_large (n : ℕ) : n ≤ serialize (large n) := by
  refine le_trans ?_ (length_le_utf8Length _)
  simp only [large, NormalizedEvent.toJson, map_some, toList_some, append_nil, List.cons_append,
    nil_append, Json.stringify, Json.stringifyMembers, Json.quote, escape_plain, length_cons,
    length_append, length_replicate]
  omega

theorem measureAndSlim_unbounded (e : NormalizedEvent) : measureAndSlim e (num 0) = ⟨e, serialize e, false, serialize e⟩ := by
  have h0 : (num 0).lt (num 0) = false := by decide
  simp [measureAndSlim, withinBudget, originalBytes, h0]

theorem admitted_budgetOnly (s : SessionId) (e : NormalizedEvent) : admitted budgetOnly s e atZero = e := by
  show (if isUpdate e && false then shedMessageUpdate e else e) = e
  rw [Bool.and_false, if_neg (by simp)]

theorem publish_alone (h : Alone s b) (he : isUpdate e = false) :
    (publish budgetOnly s e atZero b).1 = enforceGlobalBounds budgetOnly
      (retain budgetOnly s ⟨e, serialize e, false, serialize e⟩ b) := by
  have hkeep : ((num 0).lt budgetOnly.replayBufferSize || (num 0).lt budgetOnly.replayBufferMaxBytes) = true := by decide
  have hbudget : budgetOnly.eventPayloadMaxBytes = num 0 := by decide
  unfold publish
  rw [if_neg (by decide)]
  simp only [admitted_budgetOnly, he, Bool.false_eq_true, if_false, flushPending, h.pending, deliver, hkeep, if_true, hbudget,
    measureAndSlim_unbounded]

theorem nonneg_budgetOnly : Nonneg budgetOnly := config_nonneg _

/-- `n` small events of one live session, all kept. -/
structure Filled (n : ℕ) (b : Broker) : Prop where
  alone : Alone (js "s") b
  buffer : bufferOf (js "s") b = List.replicate n ⟨small, 26⟩

theorem bytesOf_replicate (n : ℕ) (x : BufferedEvent) : bytesOf (List.replicate n x) = n * x.bytes := by
  simp [bytesOf]

theorem Filled.publish {n : ℕ} (h : Filled n b) (hn : n < 10001) :
    Filled (n + 1) (publish budgetOnly (js "s") small atZero b).1 := by
  have hr := h.alone.retain budgetOnly ⟨small, 26, false, 26⟩
  have hb : bufferOf (js "s") (retain budgetOnly (js "s") ⟨small, 26, false, 26⟩ b) = List.replicate (n + 1) ⟨small, 26⟩ := by
    rw [buffer_retain rfl rfl, h.buffer, ← replicate_succ']
  have hover : overBudget budgetOnly (retain budgetOnly (js "s") ⟨small, 26, false, 26⟩ b) = false := by
    have htotal : (retain budgetOnly (js "s") ⟨small, 26, false, 26⟩ b).retainedBytesTotal ≤ 260026 := by
      rw [hr.total, hb, bytesOf_replicate]
      show (n + 1) * 26 ≤ 260026
      omega
    have h0 : budgetOnly.replayBudgetMaxBytes.lt (num 260026) = false := by decide
    have hlt : budgetOnly.replayBudgetMaxBytes.lt (num (retain budgetOnly (js "s") ⟨small, 26, false, 26⟩ b).retainedBytesTotal)
      = false := JsNumber.not_lt_of_le htotal h0
    rw [overBudget, hlt]
    rfl
  rw [publish_alone h.alone (by decide), serialize_small, enforceGlobalBounds, evictBudget_within hover,
    hr.evictColdKeys nonneg_budgetOnly]
  exact ⟨hr, hb⟩

theorem filled_run (n : ℕ) (hn : n ≤ 10001) :
    Filled n (run budgetOnly (.subscribe (js "s") 1 false false :: List.replicate n (.publish (js "s") small atZero))) := by
  induction n with
  | zero =>
    exact ⟨⟨by decide, rfl, nofun, ⟨rfl, fun _ => rfl⟩⟩, rfl⟩
  | succ n ih =>
    have h := (ih (by omega)).publish (by omega)
    rw [replicate_succ', ← List.cons_append, run, foldl_append]
    exact h

theorem bytesOf_filled (e : NormalizedEvent) (n : ℕ) : bytesOf (List.replicate 10001 ⟨small, 26⟩ ++ [⟨e, n⟩]) = 260026 + n := by
  rw [bytesOf_append, bytesOf_replicate]
  simp only [Nat.reduceMul]

/-- 10,001 small events and one as large as the budget, less 10,000 small ones. -/
theorem Filled.publish_large (h : Filled 10001 b) (he : isUpdate e = false)
    (hlarge : 260026 ≤ serialize e) : ¬ Within budgetOnly (EventBroker.publish budgetOnly (js "s") e atZero b).1 := by
  intro hwithin
  set full := retain budgetOnly (js "s") ⟨e, serialize e, false, serialize e⟩ b
  have hr : Alone (js "s") full := h.alone.retain budgetOnly _
  have hb : bufferOf (js "s") full = List.replicate 10001 ⟨small, 26⟩ ++ [⟨e, serialize e⟩] := by
    rw [← h.buffer]
    exact buffer_retain rfl rfl _
  obtain ⟨halone, htotal⟩ := hr.evictBudget (c := budgetOnly) GUARD hb (by decide)
  have hpublish : (EventBroker.publish budgetOnly (js "s") e atZero b).1 = evictBudget budgetOnly GUARD full := by
    rw [publish_alone h.alone he, enforceGlobalBounds, halone.evictColdKeys nonneg_budgetOnly]
  have hbudget := hwithin.budget
  rw [hpublish] at hbudget
  rw [hr.total, hb, bytesOf_filled] at htotal
  have hguard : GUARD * (⟨small, 26⟩ : BufferedEvent).bytes = 260000 := rfl
  have hmore : 260027 ≤ (evictBudget budgetOnly GUARD full).retainedBytesTotal := by omega
  have hnot : budgetOnly.replayBudgetMaxBytes.lt (num 260027) = false := JsNumber.not_lt_of_le hmore hbudget
  have hover : budgetOnly.replayBudgetMaxBytes.lt (num 260027) = true := by decide
  rw [hnot] at hover
  cases hover

theorem delivers_other (he : isUpdate e = false) (b : Broker) : delivers budgetOnly s e atZero b = true := by
  rw [delivers, admitted_budgetOnly, he, Bool.false_and, Bool.not_false, Bool.and_true]
  rfl

/-- 10,001 small events of a live session fill the budget. One more, as large as the
    budget, is published: 10,000 evictions later the total is still over. -/
theorem guard_stops_eviction :
    let b := run budgetOnly (.subscribe (js "s") 1 false false :: List.replicate 10001 (.publish (js "s") small atZero))
    delivers budgetOnly (js "s") (large 260026) atZero b = true ∧
      ¬ Within budgetOnly (publish budgetOnly (js "s") (large 260026) atZero b).1 := by
  intro b
  have hupdate : isUpdate (large 260026) = false := by decide
  exact ⟨delivers_other hupdate b, (filled_run 10001 (le_refl _)).publish_large hupdate (le_serialize_large 260026)⟩

end PiWebUi.EventBroker
