/-
  PiWebUi.VoiceLive.PlaybackGapless — the model's speech is booked without gaps and overlaps,
  and none of it is left.

  A call books a part of what is pending from its oldest end on (`Pumped`), each chunk where
  the one before it ends or later. What was accepted is in the graph, pending, dropped for
  the bound or thrown away by `stop` (`Inv.accounted`). While a chunk is the oldest that is
  pending nothing is booked, so once the clock has come to where the booked audio ends the
  timer books it (`oldest_leaves`). Only `stop` puts `nextStartTime` back, and leaves the
  graph as it is: bookings overlap exactly if a chunk comes after a `stop` before the audio
  has run out (`speech_gapless_iff`).
-/

import Mathlib.Algebra.Order.BigOperators.Group.List
import Mathlib.Tactic.Linarith
import Mathlib.Tactic.Positivity
import PiWebUi.Lib.Eventually
import PiWebUi.VoiceLive.PlaybackSession

namespace PiWebUi.VoiceLive

open PiWebUi.Lib List

namespace PlaybackPipeline

variable {o : PlaybackOptions} {now : ℚ}

/-- Booked audio starts where the audio booked before it ends, or later. -/
def Disjoint (graph : List BookedChunk) : Prop := graph.Pairwise fun a b => a.endAt ≤ b.startAt

/-- The graph has run out at the time. -/
def RunOut (graph : List BookedChunk) (time : ℚ) : Prop := ∀ b ∈ graph, b.endAt ≤ time

def total (pending : List PendingChunk) : ℚ := (pending.map (·.durationMs)).sum

theorem durationSeconds_nonneg (chunk : PendingChunk) : 0 ≤ chunk.durationSeconds :=
  div_nonneg (Nat.cast_nonneg _) (by norm_num [VOICE_PLAYBACK_RATE])

theorem durationMs_nonneg (chunk : PendingChunk) : 0 ≤ chunk.durationMs :=
  mul_nonneg (durationSeconds_nonneg chunk) (by norm_num)

theorem total_nonneg (pending : List PendingChunk) : 0 ≤ total pending := by
  apply sum_nonneg
  intro x hx
  obtain ⟨chunk, -, rfl⟩ := mem_map.mp hx
  exact durationMs_nonneg chunk

theorem RunOut.mono {graph : List BookedChunk} {t t' : ℚ} (h : RunOut graph t) (ht : t ≤ t') : RunOut graph t' :=
  fun b hb => le_trans (h b hb) ht

theorem disjoint_concat {graph : List BookedChunk} {b : BookedChunk} :
    Disjoint (graph ++ [b]) ↔ Disjoint graph ∧ RunOut graph b.startAt := by
  simp [Disjoint, RunOut, pairwise_append]

/-! ## Booking -/

/-- What `pump` books of what is pending. -/
structure Pumped (s t : PlaybackPipeline) (front : List PendingChunk) : Prop where
  graph : t.graph.map (·.chunk) = s.graph.map (·.chunk) ++ front
  accepted : t.accepted = s.accepted
  overflowed : t.overflowed = s.overflowed
  stopped : t.stopped = s.stopped
  before : s.graph <+: t.graph
  none : front = [] → t.graph = s.graph ∧ t.nextStartTime = s.nextStartTime

/-- The loop books chunks from the front, as long as the horizon allows it. -/
theorem bookPending_spec : ∀ (pending : List PendingChunk) (s : PlaybackPipeline) (booked : ℕ),
    ∃ front, pending = front ++ (bookPending o now pending s booked).1.pending ∧
      Pumped s (bookPending o now pending s booked).1 front ∧
      (bookPending o now pending s booked).1.drainTimer = s.drainTimer ∧
      (bookPending o now pending s booked).1.pendingMs = s.pendingMs - total front ∧
      (front = [] → pending = [] ∨ o.maxQueuedMs ≤ s.queuedMs now) := by
  intro pending
  induction pending with
  | nil =>
    intro s booked
    exact ⟨[], rfl, ⟨by simp [bookPending], rfl, rfl, rfl, prefix_refl _, fun _ => ⟨rfl, rfl⟩⟩, rfl,
      by simp [bookPending, total], fun _ => .inl rfl⟩
  | cons next rest ih =>
    intro s booked
    by_cases hfull : o.maxQueuedMs ≤ s.queuedMs now
    · rw [bookPending, if_pos hfull]
      exact ⟨[], rfl, ⟨by simp, rfl, rfl, rfl, prefix_refl _, fun _ => ⟨rfl, rfl⟩⟩, rfl, by simp [total], fun _ => .inr hfull⟩
    · rw [bookPending, if_neg hfull]
      obtain ⟨front, hsplit, hpumped, htimer, hms, -⟩ := ih (s.book o now next) (booked + 1)
      refine ⟨next :: front, by rw [List.cons_append, ← hsplit], ?_, htimer, ?_, nofun⟩
      · refine ⟨?_, hpumped.accepted, hpumped.overflowed, hpumped.stopped, ?_, nofun⟩
        · rw [hpumped.graph, book]
          simp
        · exact (prefix_append _ _).trans hpumped.before
      · rw [hms, book, total, total, map_cons, sum_cons, PendingChunk.durationMs]
        ring

/-- After a booking, everything has run out where the next one may start. -/
theorem runOut_book {s : PlaybackPipeline} {next : PendingChunk} (h : RunOut s.graph (max (now + o.leadSeconds) s.nextStartTime)) :
    RunOut (s.book o now next).graph (s.book o now next).nextStartTime := by
  intro b hb
  have hle : max (now + o.leadSeconds) s.nextStartTime ≤ (s.book o now next).nextStartTime :=
    le_add_of_nonneg_right (durationSeconds_nonneg next)
  rcases mem_append.mp hb with hb | hb
  · exact le_trans (h b hb) hle
  · rw [mem_singleton.mp hb]
    exact le_refl _

/-- Bookings after audio that has run out by `nextStartTime` stay apart. -/
theorem bookPending_disjoint : ∀ (pending : List PendingChunk) (s : PlaybackPipeline) (booked : ℕ),
    Disjoint s.graph → RunOut s.graph s.nextStartTime → Disjoint (bookPending o now pending s booked).1.graph ∧
      RunOut (bookPending o now pending s booked).1.graph (bookPending o now pending s booked).1.nextStartTime := by
  intro pending
  induction pending with
  | nil => intro s booked hd hr; exact ⟨hd, hr⟩
  | cons next rest ih =>
    intro s booked hd hr
    by_cases hfull : o.maxQueuedMs ≤ s.queuedMs now
    · rw [bookPending, if_pos hfull]
      exact ⟨hd, hr⟩
    · rw [bookPending, if_neg hfull]
      have hstart := hr.mono (le_max_right (now + o.leadSeconds) s.nextStartTime)
      exact ih _ _ (disjoint_concat.mpr ⟨hd, hstart⟩) (runOut_book hstart)

theorem scheduleDrain_spec (s : PlaybackPipeline) (booked : ℕ) :
    ∃ timer, s.scheduleDrain o now booked = { s with drainTimer := timer } ∧ (s.pending ≠ [] → timer.isSome) := by
  rw [scheduleDrain]
  by_cases harmed : s.drainTimer.isSome = true
  · rw [if_pos harmed]
    exact ⟨s.drainTimer, rfl, fun _ => harmed⟩
  · rw [if_neg harmed]
    by_cases hempty : s.pending = []
    · rw [if_pos hempty]
      exact ⟨s.drainTimer, rfl, fun h => absurd hempty h⟩
    · rw [if_neg hempty]
      exact ⟨_, rfl, fun _ => rfl⟩

theorem pump_eq (s : PlaybackPipeline) : ∃ timer, s.pump o now =
      { (bookPending o now s.pending (s.pruneFinished now) 0).1 with
        pendingMs := max 0 (bookPending o now s.pending (s.pruneFinished now) 0).1.pendingMs
        drainTimer := timer } ∧ ((bookPending o now s.pending (s.pruneFinished now) 0).1.pending ≠ [] → timer.isSome) := by
  obtain ⟨timer, hdrain, harmed⟩ := @scheduleDrain_spec o now
    { (bookPending o now s.pending (s.pruneFinished now) 0).1 with
      pendingMs := max 0 (bookPending o now s.pending (s.pruneFinished now) 0).1.pendingMs }
    (bookPending o now s.pending (s.pruneFinished now) 0).2
  exact ⟨timer, by rw [pump, hdrain], harmed⟩

theorem pump_spec (s : PlaybackPipeline) (hms : s.pendingMs = total s.pending) :
    ∃ front, s.pending = front ++ (s.pump o now).pending ∧ Pumped s (s.pump o now) front ∧
      (s.pump o now).pendingMs = total (s.pump o now).pending ∧
      ((s.pump o now).pending ≠ [] → (s.pump o now).drainTimer.isSome) ∧
      (front = [] → s.pending = [] ∨ o.maxQueuedMs ≤ s.queuedMs now) := by
  obtain ⟨front, hsplit, hpumped, -, hleft, hfull⟩ := @bookPending_spec o now s.pending (s.pruneFinished now) 0
  obtain ⟨timer, hpump, harmed⟩ := @pump_eq o now s
  rw [hpump]
  refine ⟨front, hsplit, ⟨hpumped.graph, hpumped.accepted, hpumped.overflowed, hpumped.stopped, hpumped.before, hpumped.none⟩,
    ?_, harmed, hfull⟩
  have htotal : total s.pending = total front + total (bookPending o now s.pending (s.pruneFinished now) 0).1.pending := by
    conv_lhs => rw [hsplit]
    rw [total, map_append, sum_append]
    rfl
  have heq : s.pendingMs - total front = total (bookPending o now s.pending (s.pruneFinished now) 0).1.pending := by
    rw [hms, htotal]
    ring
  have hprune : (s.pruneFinished now).pendingMs = s.pendingMs := rfl
  simp only [hleft, hprune, heq]
  exact max_eq_right (total_nonneg _)

/-- The graph that `pump` leaves is the loop's. -/
theorem pump_graph (s : PlaybackPipeline) : (s.pump o now).graph = (bookPending o now s.pending (s.pruneFinished now) 0).1.graph ∧
      (s.pump o now).nextStartTime = (bookPending o now s.pending (s.pruneFinished now) 0).1.nextStartTime := by
  obtain ⟨timer, hpump, -⟩ := @pump_eq o now s
  rw [hpump]
  exact ⟨rfl, rfl⟩

theorem pump_disjoint {s : PlaybackPipeline} (hd : Disjoint s.graph) (hr : RunOut s.graph s.nextStartTime) :
    Disjoint (s.pump o now).graph ∧ RunOut (s.pump o now).graph (s.pump o now).nextStartTime := by
  rw [(pump_graph s).1, (pump_graph s).2]
  exact bookPending_disjoint s.pending (s.pruneFinished now) 0 hd hr

/-- A single chunk is booked at once after a `stop`. -/
theorem pump_first {s : PlaybackPipeline} {chunk : PendingChunk} (hpending : s.pending = [chunk])
    (hnext : s.nextStartTime = 0) (hnow : 0 ≤ now) : (s.pump o now).graph = s.graph ++ [⟨chunk, max (now + o.leadSeconds) 0⟩] ∧
      (s.pump o now).nextStartTime = max (now + o.leadSeconds) 0 + chunk.durationSeconds := by
  have hqueued : (s.pruneFinished now).queuedMs now = 0 := by
    rw [queuedMs, pruneFinished, hnext]
    apply max_eq_left
    linarith
  have hroom : ¬ o.maxQueuedMs ≤ (s.pruneFinished now).queuedMs now := by
    rw [hqueued]
    exact not_le.mpr o.maxQueuedMs_pos
  rw [(pump_graph s).1, (pump_graph s).2, hpending, bookPending, if_neg hroom, bookPending]
  simp [book, pruneFinished, hnext]

/-! ## Dropping -/

structure Trimmed (o : PlaybackOptions) (s t : PlaybackPipeline) (front : List PendingChunk) : Prop where
  graph : t.graph = s.graph
  nextStartTime : t.nextStartTime = s.nextStartTime
  accepted : t.accepted = s.accepted
  stopped : t.stopped = s.stopped
  overflowed : ∃ drops, t.overflowed = s.overflowed ++ drops ∧ drops.map (·.chunk) = front ∧
    ∀ d ∈ drops, o.maxPendingMs < d.backlogMs

theorem dropOldest_spec (s : PlaybackPipeline) (dropped : PendingChunk) :
    ((s.dropOldest now dropped).graph = s.graph ∧ (s.dropOldest now dropped).nextStartTime = s.nextStartTime ∧
      (s.dropOldest now dropped).accepted = s.accepted ∧ (s.dropOldest now dropped).stopped = s.stopped) ∧
      (s.dropOldest now dropped).overflowed = s.overflowed ++ [⟨dropped, s.pendingMs⟩] ∧
      (s.dropOldest now dropped).pendingMs = s.pendingMs - dropped.durationMs := by
  simp only [dropOldest]
  split <;> exact ⟨⟨rfl, rfl, rfl, rfl⟩, rfl, rfl⟩

/-- The loop drops from the oldest end while the backlog is too long, and keeps the newest. -/
theorem trimPending_spec : ∀ (pending : List PendingChunk) (s : PlaybackPipeline), pending ≠ [] → s.pendingMs = total pending →
    ∃ front, pending = front ++ (trimPending o now pending s).pending ∧ (trimPending o now pending s).pending ≠ [] ∧
      (trimPending o now pending s).pendingMs = total (trimPending o now pending s).pending ∧
      Trimmed o s (trimPending o now pending s) front := by
  intro pending
  induction pending with
  | nil => intro s h; exact absurd rfl h
  | cons dropped rest ih =>
    intro s _ hms
    cases rest with
    | nil => exact ⟨[], rfl, by simp [trimPending], hms, ⟨rfl, rfl, rfl, rfl, [], by simp [trimPending], rfl, by simp⟩⟩
    | cons next rest =>
      rw [trimPending]
      by_cases hlong : o.maxPendingMs < s.pendingMs
      · rw [if_pos hlong]
        obtain ⟨hframe, hdrop, hdms⟩ := @dropOldest_spec now s dropped
        have hms' : (s.dropOldest now dropped).pendingMs = total (next :: rest) := by
          rw [hdms, hms, total, map_cons, sum_cons]
          exact add_sub_cancel_left _ _
        obtain ⟨front, hsplit, hne, hleft, htrimmed⟩ := ih (s.dropOldest now dropped) (by simp) hms'
        obtain ⟨drops, hdrops, hchunks, hbound⟩ := htrimmed.overflowed
        refine ⟨dropped :: front, by rw [List.cons_append, ← hsplit], hne, hleft, htrimmed.graph.trans hframe.1,
          htrimmed.nextStartTime.trans hframe.2.1, htrimmed.accepted.trans hframe.2.2.1, htrimmed.stopped.trans hframe.2.2.2,
          ⟨dropped, s.pendingMs⟩ :: drops, ?_, by simp [hchunks], ?_⟩
        · rw [hdrops, hdrop, append_assoc, singleton_append]
        · intro d hd
          rcases mem_cons.mp hd with rfl | hd
          · exact hlong
          · exact hbound d hd
      · rw [if_neg hlong]
        exact ⟨[], rfl, by simp, hms, ⟨rfl, rfl, rfl, rfl, [], by simp, rfl, by simp⟩⟩

/-! ## The invariant -/

/-- Everything but the timer and the times. -/
structure Core (o : PlaybackOptions) (s : PlaybackPipeline) : Prop where
  inOrder : (s.graph.map (·.chunk) ++ s.pending).Sublist s.accepted
  arrivals : s.accepted.map (·.arrival) = List.range s.accepted.length
  accounted : ∀ c ∈ s.accepted, c ∈ s.graph.map (·.chunk) ∨ c ∈ s.pending ∨ c ∈ s.overflowed.map (·.chunk) ∨ c ∈ s.stopped
  pendingMs : s.pendingMs = total s.pending
  overflowed : ∀ d ∈ s.overflowed, o.maxPendingMs < d.backlogMs ∧ d.chunk ∈ s.accepted ∧
    ∀ c ∈ s.pending, d.chunk.arrival < c.arrival

structure Inv (o : PlaybackOptions) (s : PlaybackPipeline) : Prop extends Core o s where
  armed : s.pending ≠ [] → s.drainTimer.isSome
  /-- As long as no bookings overlap, the next one is not before the last one's end,
      unless `stop` has put its time back. -/
  behind : Disjoint s.graph → RunOut s.graph s.nextStartTime ∨ s.pending = [] ∧ s.nextStartTime = 0

theorem inv_new (o : PlaybackOptions) (speaking : Bool) : Inv o (new speaking) where
  inOrder := List.Sublist.refl _
  arrivals := rfl
  accounted c hc := (by cases hc)
  pendingMs := rfl
  overflowed d hd := (by cases hd)
  armed h := absurd rfl h
  behind _ := .inl nofun

variable {s t : PlaybackPipeline} {front : List PendingChunk}

section

variable (h : Core o s)
include h

theorem Core.accepted_sorted : s.accepted.Pairwise fun a b => a.arrival < b.arrival := by
  have hrange : (s.accepted.map (·.arrival)).Pairwise (· < ·) := by
    rw [h.arrivals]
    exact pairwise_lt_range
  exact pairwise_map.mp hrange

theorem Core.pending_sorted : s.pending.Pairwise fun a b => a.arrival < b.arrival :=
  h.accepted_sorted.sublist ((sublist_append_right _ _).trans h.inOrder)

theorem Core.arrival_lt {c : PendingChunk} (hc : c ∈ s.accepted) : c.arrival < s.accepted.length := by
  have hmem : c.arrival ∈ s.accepted.map (·.arrival) := mem_map_of_mem hc
  rw [h.arrivals] at hmem
  exact mem_range.mp hmem

theorem Core.accepted_of_pending {c : PendingChunk} (hc : c ∈ s.pending) : c ∈ s.accepted :=
  h.inOrder.subset (mem_append_right _ hc)

/-- Chunks go from the front of what is pending into the graph. -/
theorem Core.pumped (hpumped : Pumped s t front) (hsplit : s.pending = front ++ t.pending)
    (hms : t.pendingMs = total t.pending) : Core o t where
  inOrder := by
    have horder := h.inOrder
    rwa [hsplit, ← append_assoc, ← hpumped.graph, ← hpumped.accepted] at horder
  arrivals := by
    rw [hpumped.accepted]
    exact h.arrivals
  accounted c hc := by
    rw [hpumped.accepted] at hc
    rw [hpumped.graph, hpumped.overflowed, hpumped.stopped, mem_append]
    rcases h.accounted c hc with hc | hc | hc | hc
    · exact .inl (.inl hc)
    · rw [hsplit, mem_append] at hc
      rcases hc with hc | hc
      · exact .inl (.inr hc)
      · exact .inr (.inl hc)
    · exact .inr (.inr (.inl hc))
    · exact .inr (.inr (.inr hc))
  pendingMs := hms
  overflowed d hd := by
    rw [hpumped.overflowed] at hd
    obtain ⟨hlong, hmem, hbefore⟩ := h.overflowed d hd
    refine ⟨hlong, hpumped.accepted ▸ hmem, fun c hc => hbefore c ?_⟩
    rw [hsplit]
    exact mem_append_right front hc

/-- Chunks are dropped from the front of what is pending. -/
theorem Core.trimmed (htrimmed : Trimmed o s t front) (hsplit : s.pending = front ++ t.pending)
    (hms : t.pendingMs = total t.pending) : Core o t := by
  obtain ⟨drops, hdrops, hchunks, hbound⟩ := htrimmed.overflowed
  constructor
  · rw [htrimmed.graph, htrimmed.accepted]
    refine List.Sublist.trans ?_ h.inOrder
    rw [hsplit]
    exact (sublist_append_right front t.pending).append_left _
  · rw [htrimmed.accepted]
    exact h.arrivals
  · intro c hc
    rw [htrimmed.accepted] at hc
    rw [htrimmed.graph, htrimmed.stopped, hdrops, map_append, hchunks, mem_append]
    rcases h.accounted c hc with hc | hc | hc | hc
    · exact .inl hc
    · rw [hsplit, mem_append] at hc
      rcases hc with hc | hc
      · exact .inr (.inr (.inl (.inr hc)))
      · exact .inr (.inl hc)
    · exact .inr (.inr (.inl (.inl hc)))
    · exact .inr (.inr (.inr hc))
  · exact hms
  · intro d hd
    rw [hdrops] at hd
    rcases mem_append.mp hd with hd | hd
    · obtain ⟨hlong, hmem, hbefore⟩ := h.overflowed d hd
      refine ⟨hlong, htrimmed.accepted ▸ hmem, fun c hc => hbefore c ?_⟩
      rw [hsplit]
      exact mem_append_right front hc
    · -- What is dropped stood before what is left.
      have hfront : d.chunk ∈ front := hchunks ▸ mem_map_of_mem hd
      have hpending : d.chunk ∈ s.pending := hsplit ▸ mem_append_left _ hfront
      refine ⟨hbound d hd, htrimmed.accepted ▸ h.accepted_of_pending hpending, fun c hc => ?_⟩
      have hsorted := h.pending_sorted
      rw [hsplit, pairwise_append] at hsorted
      exact hsorted.2.2 d.chunk hfront c hc

theorem Core.accept {chunk : PendingChunk} (hchunk : chunk.arrival = s.accepted.length) : Core o (s.accept chunk) where
  inOrder := by
    have horder := h.inOrder.append (List.Sublist.refl [chunk])
    rwa [append_assoc] at horder
  arrivals := by
    simp only [PlaybackPipeline.accept, map_append, map_singleton, length_append, length_singleton,
      h.arrivals, hchunk, List.range_succ]
  accounted c hc := by
    rcases mem_append.mp hc with hc | hc
    · rcases h.accounted c hc with hc | hc | hc
      · exact .inl hc
      · exact .inr (.inl (mem_append_left _ hc))
      · exact .inr (.inr hc)
    · exact .inr (.inl (mem_append_right _ hc))
  pendingMs := by
    simp only [PlaybackPipeline.accept, total, map_append, map_singleton, sum_append, sum_singleton]
    rw [h.pendingMs, total]
  overflowed d hd := by
    obtain ⟨hlong, hmem, hbefore⟩ := h.overflowed d hd
    refine ⟨hlong, mem_append_left _ hmem, fun c hc => ?_⟩
    rcases mem_append.mp hc with hc | hc
    · exact hbefore c hc
    · rw [mem_singleton.mp hc, hchunk]
      exact h.arrival_lt hmem

end

/-- Nothing that the invariant is about changes, but for the faults and the gain. -/
structure Same (s t : PlaybackPipeline) : Prop where
  pending : t.pending = s.pending
  pendingMs : t.pendingMs = s.pendingMs
  nextStartTime : t.nextStartTime = s.nextStartTime
  graph : t.graph = s.graph
  accepted : t.accepted = s.accepted
  overflowed : t.overflowed = s.overflowed
  stopped : t.stopped = s.stopped

theorem Core.same (h : Core o s) (hsame : Same s t) : Core o t where
  inOrder := by
    rw [hsame.graph, hsame.pending, hsame.accepted]
    exact h.inOrder
  arrivals := by
    rw [hsame.accepted]
    exact h.arrivals
  accounted c hc := by
    rw [hsame.graph, hsame.pending, hsame.overflowed, hsame.stopped]
    exact h.accounted c (hsame.accepted ▸ hc)
  pendingMs := by
    rw [hsame.pending, hsame.pendingMs]
    exact h.pendingMs
  overflowed d hd := by
    rw [hsame.pending, hsame.accepted]
    exact h.overflowed d (hsame.overflowed ▸ hd)

theorem Inv.same (h : Inv o s) (hsame : Same s t) (htimer : t.drainTimer = s.drainTimer) : Inv o t where
  toCore := h.toCore.same hsame
  armed := by
    rw [hsame.pending, htimer]
    exact h.armed
  behind := by
    rw [hsame.graph, hsame.pending, hsame.nextStartTime]
    exact h.behind

theorem same_noteSeq (s : PlaybackPipeline) (seq : ℕ) : Same s (s.noteSeq seq) := by
  rw [noteSeq]
  cases s.lastSeq with
  | none => exact ⟨rfl, rfl, rfl, rfl, rfl, rfl, rfl⟩
  | some last =>
    dsimp only
    split <;> exact ⟨rfl, rfl, rfl, rfl, rfl, rfl, rfl⟩

theorem same_setFloor (s : PlaybackPipeline) (speaking : Bool) :
    Same s (s.setFloor speaking) ∧ (s.setFloor speaking).drainTimer = s.drainTimer := by
  simp only [setFloor]
  split <;> exact ⟨⟨rfl, rfl, rfl, rfl, rfl, rfl, rfl⟩, rfl⟩

/-! ## The calls -/

/-- What an accepted chunk does: the backlog is trimmed, and then booked from. -/
theorem pushChunk_spec (h : Inv o s) {message : VoiceAudioOutputChunkMessage} {samples : ℕ}
    (hdecoded : decoded message = some samples) :
    ∃ chunk u front, chunk.arrival = s.accepted.length ∧ Core o u ∧ u.accepted = s.accepted ++ [chunk] ∧
      s.pending ++ [chunk] = front ++ u.pending ∧ u.pending ≠ [] ∧ u.graph = s.graph ∧
      u.nextStartTime = s.nextStartTime ∧ s.pushChunk o now message = u.pump o now := by
  have hnoted := same_noteSeq s message.seq
  have hcore : Core o ((s.noteSeq message.seq).accept ⟨s.accepted.length, message.seq, samples⟩) := by
    apply (h.toCore.same hnoted).accept
    rw [hnoted.accepted]
  obtain ⟨front, hsplit, hne, hms, htrimmed⟩ := @trimPending_spec o now
    ((s.noteSeq message.seq).accept ⟨s.accepted.length, message.seq, samples⟩).pending
    ((s.noteSeq message.seq).accept ⟨s.accepted.length, message.seq, samples⟩) (by simp [PlaybackPipeline.accept])
    hcore.pendingMs
  refine ⟨⟨s.accepted.length, message.seq, samples⟩, _, front, rfl, hcore.trimmed htrimmed hsplit hms, ?_, ?_, hne, ?_, ?_, ?_⟩
  · rw [htrimmed.accepted, PlaybackPipeline.accept, hnoted.accepted]
  · rw [← hsplit, PlaybackPipeline.accept, hnoted.pending]
  · rw [htrimmed.graph, PlaybackPipeline.accept, hnoted.graph]
  · rw [htrimmed.nextStartTime, PlaybackPipeline.accept, hnoted.nextStartTime]
  · rw [pushChunk, hdecoded]

theorem pushChunk_refused {message : VoiceAudioOutputChunkMessage} (hdecoded : decoded message = none) :
    Same s (s.pushChunk o now message) ∧ (s.pushChunk o now message).drainTimer = s.drainTimer := by
  rw [pushChunk, hdecoded]
  exact ⟨⟨rfl, rfl, rfl, rfl, rfl, rfl, rfl⟩, rfl⟩

/-- An accepted chunk comes while nothing that was booked lasts beyond where it may start. -/
def InTime (o : PlaybackOptions) (now : ℚ) (s : PlaybackPipeline) (e : PlaybackEvent) : Prop :=
  ∀ message, e = .pushChunk message → (decoded message).isSome →
    RunOut s.graph (max (now + o.leadSeconds) s.nextStartTime)

theorem disjoint_of_less {graph more : List BookedChunk} (h : graph <+: more) (hd : Disjoint more) : Disjoint graph :=
  hd.sublist h.sublist

theorem core_pump (h : Core o s) : Core o (s.pump o now) ∧
    ((s.pump o now).pending ≠ [] → (s.pump o now).drainTimer.isSome) ∧ s.graph <+: (s.pump o now).graph := by
  obtain ⟨front, hsplit, hpumped, hms, harmed, -⟩ := pump_spec s h.pendingMs
  exact ⟨h.pumped hpumped hsplit hms, harmed, hpumped.before⟩

/-- The bookings of an accepted chunk's call stay apart exactly if they did and the chunk is
    in time. -/
theorem pushChunk_times (h : Inv o s) (hnow : 0 ≤ now) {message : VoiceAudioOutputChunkMessage} {samples : ℕ}
    (hdecoded : decoded message = some samples) : (Disjoint (s.pushChunk o now message).graph ↔
      Disjoint s.graph ∧ RunOut s.graph (max (now + o.leadSeconds) s.nextStartTime)) ∧
    (Disjoint (s.pushChunk o now message).graph →
      RunOut (s.pushChunk o now message).graph (s.pushChunk o now message).nextStartTime) := by
  obtain ⟨chunk, u, front, -, hcore, -, hsplit, hne, hgraph, hnext, hpush⟩ := @pushChunk_spec o now s h message samples hdecoded
  rw [hpush]
  by_cases hd : Disjoint s.graph
  · rcases h.behind hd with hrun | ⟨hpending, hzero⟩
    · have hpump := @pump_disjoint o now u (hgraph ▸ hd) (by rw [hgraph, hnext]; exact hrun)
      refine ⟨?_, fun _ => hpump.2⟩
      constructor
      · exact fun _ => ⟨hd, hrun.mono (le_max_right _ _)⟩
      · exact fun _ => hpump.1
    · have hone : u.pending = [chunk] := by
        rw [hpending, nil_append] at hsplit
        cases front with
        | nil => exact hsplit.symm
        | cons c front =>
          have hnil := (List.cons.inj hsplit).2
          exact absurd (append_eq_nil_iff.mp hnil.symm).2 hne
      obtain ⟨hfirst, hend⟩ := @pump_first o now u chunk hone (hnext.trans hzero) hnow
      rw [hfirst, hend, hgraph, hzero, disjoint_concat]
      refine ⟨Iff.rfl, fun hdis b hb => ?_⟩
      rcases mem_append.mp hb with hb | hb
      · exact le_trans (hdis.2 b hb) (le_add_of_nonneg_right (durationSeconds_nonneg chunk))
      · rw [mem_singleton.mp hb]
        exact le_refl _
  · have hnot : ¬ Disjoint (u.pump o now).graph := by
      intro hpump
      exact hd (hgraph ▸ disjoint_of_less (core_pump hcore).2.2 hpump)
    exact ⟨⟨fun hpump => absurd hpump hnot, fun hboth => absurd hboth.1 hd⟩, fun hpump => absurd hpump hnot⟩

/-- The timer's bookings follow on what is booked. -/
theorem drain_times (h : Inv o s) : (Disjoint (s.drain o now).graph ↔ Disjoint s.graph) ∧
      (Disjoint (s.drain o now).graph → RunOut (s.drain o now).graph (s.drain o now).nextStartTime ∨
        (s.drain o now).pending = [] ∧ (s.drain o now).nextStartTime = 0) := by
  by_cases htimer : s.drainTimer.isSome = true
  · have hcore : Core o { s with drainTimer := none } := h.toCore.same ⟨rfl, rfl, rfl, rfl, rfl, rfl, rfl⟩
    rw [drain, if_pos htimer]
    by_cases hd : Disjoint s.graph
    · rcases h.behind hd with hrun | ⟨hpending, hzero⟩
      · have hpump := @pump_disjoint o now { s with drainTimer := none } hd hrun
        exact ⟨⟨fun _ => hd, fun _ => hpump.1⟩, fun _ => .inl hpump.2⟩
      · obtain ⟨front, hsplit, hpumped, -⟩ := @pump_spec o now { s with drainTimer := none } hcore.pendingMs
        obtain ⟨hfront, hleft⟩ := append_eq_nil_iff.mp (hsplit.symm.trans hpending)
        obtain ⟨hgraph, hnext⟩ := hpumped.none hfront
        rw [hgraph, hnext]
        exact ⟨Iff.rfl, fun _ => .inr ⟨hleft, hzero⟩⟩
    · have hnot : ¬ Disjoint ({ s with drainTimer := none }.pump o now).graph :=
        fun hpump => hd (disjoint_of_less (core_pump hcore).2.2 hpump)
      exact ⟨⟨fun hpump => absurd hpump hnot, fun h' => absurd h' hd⟩, fun hpump => absurd hpump hnot⟩
  · rw [drain, if_neg htimer]
    exact ⟨Iff.rfl, h.behind⟩

theorem inv_step (h : Inv o s) (hnow : 0 ≤ now) (e : PlaybackEvent) : Inv o (s.step o now e) := by
  cases e with
  | pushChunk message =>
    cases hdecoded : decoded message with
    | none =>
      obtain ⟨hsame, htimer⟩ := @pushChunk_refused o now s message hdecoded
      exact h.same hsame htimer
    | some samples =>
      obtain ⟨chunk, u, front, -, hcore, -, -, -, -, -, hpush⟩ := @pushChunk_spec o now s h message samples hdecoded
      have htimes := @pushChunk_times o now s h hnow message samples hdecoded
      simp only [step]
      rw [hpush] at htimes ⊢
      obtain ⟨hcore', harmed, -⟩ := @core_pump o now u hcore
      exact ⟨hcore', harmed, fun hd => .inl (htimes.2 hd)⟩
  | drain =>
    have htimes := @drain_times o now s h
    simp only [step]
    by_cases htimer : s.drainTimer.isSome = true
    · have hcore : Core o { s with drainTimer := none } := h.toCore.same ⟨rfl, rfl, rfl, rfl, rfl, rfl, rfl⟩
      rw [drain, if_pos htimer] at htimes ⊢
      obtain ⟨hcore', harmed, -⟩ := @core_pump o now { s with drainTimer := none } hcore
      exact ⟨hcore', harmed, htimes.2⟩
    · rw [drain, if_neg htimer]
      exact h
  | floor speaking =>
    obtain ⟨hsame, htimer⟩ := same_setFloor s speaking
    exact h.same hsame htimer
  | stop =>
    constructor
    · constructor
      · refine List.Sublist.trans ?_ h.inOrder
        exact (nil_sublist _).append_left _
      · exact h.arrivals
      · intro c hc
        rcases h.accounted c hc with hc | hc | hc | hc
        · exact .inl hc
        · exact .inr (.inr (.inr (mem_append_right _ hc)))
        · exact .inr (.inr (.inl hc))
        · exact .inr (.inr (.inr (mem_append_left _ hc)))
      · rfl
      · intro d hd
        obtain ⟨hlong, hmem, -⟩ := h.overflowed d hd
        exact ⟨hlong, hmem, nofun⟩
    · exact fun hne => absurd rfl hne
    · exact fun _ => .inr ⟨rfl, rfl⟩

/-- A call keeps the bookings apart exactly if the chunk it brings is in time. -/
theorem disjoint_step (h : Inv o s) (hnow : 0 ≤ now) (e : PlaybackEvent) :
    Disjoint (s.step o now e).graph ↔ Disjoint s.graph ∧ InTime o now s e := by
  cases e with
  | pushChunk message =>
    simp only [step, InTime, PlaybackEvent.pushChunk.injEq, forall_eq']
    cases hdecoded : decoded message with
    | none =>
      rw [(@pushChunk_refused o now s message hdecoded).1.graph]
      simp
    | some samples =>
      rw [(@pushChunk_times o now s h hnow message samples hdecoded).1]
      simp
  | drain => simp [step, InTime, (@drain_times o now s h).1]
  | floor speaking => simp [step, InTime, (same_setFloor s speaking).1.graph]
  | stop => simp [step, InTime, PlaybackPipeline.stop]

/-! ## The oldest chunk -/

/-- The oldest chunk is still there only if nothing was taken from the front. -/
theorem front_nil {pending left : List PendingChunk} {oldest : PendingChunk} {rest : List PendingChunk}
    (hsorted : pending.Pairwise fun a b => a.arrival < b.arrival) (hpending : pending = oldest :: rest)
    (hsplit : pending = front ++ left) (hstill : oldest ∈ left) : front = [] := by
  cases front with
  | nil => rfl
  | cons c front =>
    have hc : oldest = c := (List.cons.inj (hpending.symm.trans hsplit)).1
    rw [hsplit, pairwise_append] at hsorted
    have hlt := hsorted.2.2 c mem_cons_self oldest hstill
    rw [hc] at hlt
    exact absurd hlt (lt_irrefl _)

theorem sorted_concat (h : Core o s) {chunk : PendingChunk} (hchunk : chunk.arrival = s.accepted.length) :
    (s.pending ++ [chunk]).Pairwise fun a b => a.arrival < b.arrival := by
  rw [pairwise_append]
  refine ⟨h.pending_sorted, pairwise_singleton _ _, fun c hc d hd => ?_⟩
  rw [mem_singleton.mp hd, hchunk]
  exact h.arrival_lt (h.accepted_of_pending hc)

/-- While the oldest chunk stays, nothing is booked, and the timer did not find room. -/
theorem step_oldest (h : Inv o s) {oldest : PendingChunk} {rest : List PendingChunk} (hpending : s.pending = oldest :: rest)
    (e : PlaybackEvent) (hstill : oldest ∈ (s.step o now e).pending) :
    (s.step o now e).nextStartTime = s.nextStartTime ∧ (e = .drain → o.maxQueuedMs ≤ s.queuedMs now) := by
  cases e with
  | pushChunk message =>
    refine ⟨?_, nofun⟩
    cases hdecoded : decoded message with
    | none => exact (@pushChunk_refused o now s message hdecoded).1.nextStartTime
    | some samples =>
      obtain ⟨chunk, u, front, hchunk, hcore, -, hsplit, -, -, hnext, hpush⟩ := @pushChunk_spec o now s h message samples hdecoded
      simp only [step] at hstill ⊢
      rw [hpush] at hstill ⊢
      obtain ⟨booked, hleft, hpumped, -⟩ := @pump_spec o now u hcore.pendingMs
      have hall : s.pending ++ [chunk] = (front ++ booked) ++ (u.pump o now).pending := by
        rw [hsplit, append_assoc, ← hleft]
      have hnil := front_nil (sorted_concat h.toCore hchunk) (by rw [hpending, List.cons_append]) hall hstill
      rw [(hpumped.none (append_eq_nil_iff.mp hnil).2).2, hnext]
  | drain =>
    have harmed : s.drainTimer.isSome = true := h.armed (by rw [hpending]; exact cons_ne_nil _ _)
    have hcore : Core o { s with drainTimer := none } := h.toCore.same ⟨rfl, rfl, rfl, rfl, rfl, rfl, rfl⟩
    simp only [step] at hstill ⊢
    rw [drain, if_pos harmed] at hstill ⊢
    obtain ⟨booked, hleft, hpumped, -, -, hfull⟩ := @pump_spec o now { s with drainTimer := none } hcore.pendingMs
    have hnil := front_nil h.pending_sorted hpending hleft hstill
    refine ⟨(hpumped.none hnil).2, fun _ => ?_⟩
    rcases hfull hnil with hempty | hfull
    · rw [hpending] at hempty
      cases hempty
    · exact hfull
  | floor speaking => exact ⟨(same_setFloor s speaking).1.nextStartTime, nofun⟩
  | stop => cases hstill

/-- A call adds to what is pending only a chunk that it accepts. -/
theorem step_later (h : Inv o s) (e : PlaybackEvent) :
    (∀ c ∈ (s.step o now e).pending, c ∈ s.pending ∨ s.accepted.length ≤ c.arrival) ∧ s.accepted <+: (s.step o now e).accepted := by
  cases e with
  | pushChunk message =>
    cases hdecoded : decoded message with
    | none =>
      have hsame := (@pushChunk_refused o now s message hdecoded).1
      simp only [step]
      rw [hsame.pending, hsame.accepted]
      exact ⟨fun c hc => .inl hc, prefix_refl _⟩
    | some samples =>
      obtain ⟨chunk, u, front, hchunk, hcore, haccepted, hsplit, -, -, -, hpush⟩ :=
        @pushChunk_spec o now s h message samples hdecoded
      simp only [step]
      rw [hpush]
      obtain ⟨booked, hleft, hpumped, -⟩ := @pump_spec o now u hcore.pendingMs
      rw [hpumped.accepted, haccepted]
      refine ⟨fun c hc => ?_, prefix_append _ _⟩
      have hmem : c ∈ s.pending ++ [chunk] := by
        rw [hsplit, hleft]
        exact mem_append_right _ (mem_append_right _ hc)
      rcases mem_append.mp hmem with hc | hc
      · exact .inl hc
      · rw [mem_singleton.mp hc, hchunk]
        exact .inr (le_refl _)
  | drain =>
    simp only [step, drain]
    split
    · have hcore : Core o { s with drainTimer := none } := h.toCore.same ⟨rfl, rfl, rfl, rfl, rfl, rfl, rfl⟩
      obtain ⟨booked, hleft, hpumped, -⟩ := @pump_spec o now { s with drainTimer := none } hcore.pendingMs
      rw [hpumped.accepted]
      refine ⟨fun c hc => .inl ?_, prefix_refl _⟩
      have hpending : s.pending = booked ++ _ := hleft
      rw [hpending]
      exact mem_append_right _ hc
    · exact ⟨fun c hc => .inl hc, prefix_refl _⟩
  | floor speaking =>
    have hsame := (same_setFloor s speaking).1
    simp only [step]
    rw [hsame.pending, hsame.accepted]
    exact ⟨fun c hc => .inl hc, prefix_refl _⟩
  | stop => exact ⟨nofun, prefix_refl _⟩

end PlaybackPipeline

open PlaybackPipeline

/-! ## Runs in time -/

namespace Timeline

variable (t : Timeline) (o : PlaybackOptions)

theorem inv_run (n : ℕ) : Inv o (t.run o n) := by
  induction n with
  | zero => exact inv_new o t.operatorSpeaking
  | succ n ih => exact inv_step ih (t.clock_nonneg n) (t.event n)

theorem run_later {n m : ℕ} (hm : n ≤ m) :
    (∀ c ∈ (t.run o m).pending, c ∈ (t.run o n).pending ∨ (t.run o n).accepted.length ≤ c.arrival) ∧
      (t.run o n).accepted <+: (t.run o m).accepted := by
  induction m, hm using Nat.le_induction with
  | base => exact ⟨fun c hc => .inl hc, prefix_refl _⟩
  | succ m _ ih =>
    obtain ⟨hpending, haccepted⟩ := @step_later o (t.clock m) (t.run o m) (inv_run t o m) (t.event m)
    refine ⟨fun c hc => ?_, ih.2.trans haccepted⟩
    rcases hpending c hc with hc | hc
    · exact ih.1 c hc
    · exact .inr (le_trans ih.2.length_le hc)

/-- The oldest chunk stays the oldest. -/
theorem run_oldest {n m : ℕ} (hm : n ≤ m) {oldest : PendingChunk} {rest : List PendingChunk}
    (hpending : (t.run o n).pending = oldest :: rest) (hstill : oldest ∈ (t.run o m).pending) :
    ∃ rest', (t.run o m).pending = oldest :: rest' := by
  have hsorted := (inv_run t o m).pending_sorted
  cases hcons : (t.run o m).pending with
  | nil =>
    rw [hcons] at hstill
    cases hstill
  | cons c rest' =>
    rw [hcons] at hsorted hstill
    rcases mem_cons.mp hstill with rfl | hin
    · exact ⟨rest', rfl⟩
    · -- What stands before it was pending with it or came later.
      have hlt := (pairwise_cons.mp hsorted).1 oldest hin
      have hsorted' := (inv_run t o n).pending_sorted
      rw [hpending] at hsorted'
      rcases (run_later t o hm).1 c (by rw [hcons]; exact mem_cons_self) with hc | hc
      · rw [hpending] at hc
        rcases mem_cons.mp hc with rfl | hc
        · exact absurd hlt (lt_irrefl _)
        · have := (pairwise_cons.mp hsorted').1 c hc
          omega
      · have hold : oldest ∈ (t.run o n).pending := by
          rw [hpending]
          exact mem_cons_self
        have := (inv_run t o n).arrival_lt ((inv_run t o n).accepted_of_pending hold)
        omega

/-- A timer that is armed fires or is cleared. -/
def TimersFire : Prop := ∀ n, ∃ m, n ≤ m ∧ ((t.run o m).drainTimer.isSome → t.event m = .drain)

/-- The clock goes on. -/
def ClockAdvances : Prop := ∀ time, ∃ n, time ≤ t.clock n

variable {t o}

theorem oldest_leaves (htimers : t.TimersFire o) (hclock : t.ClockAdvances) {n : ℕ} {oldest : PendingChunk}
    {rest : List PendingChunk} (hpending : (t.run o n).pending = oldest :: rest) : ∃ m, n ≤ m ∧ oldest ∉ (t.run o m).pending := by
  by_contra hnever
  have hstays : ∀ m, n ≤ m → oldest ∈ (t.run o m).pending := by
    intro m hm
    by_contra hgone
    exact hnever ⟨m, hm, hgone⟩
  have hnext : ∀ m, n ≤ m → (t.run o m).nextStartTime = (t.run o n).nextStartTime := by
    intro m hm
    induction m, hm using Nat.le_induction with
    | base => rfl
    | succ m hm ih =>
      obtain ⟨rest', hcons⟩ := run_oldest t o hm hpending (hstays m hm)
      rw [← ih]
      exact (step_oldest (inv_run t o m) hcons (t.event m) (hstays (m + 1) (Nat.le_succ_of_le hm))).1
  -- Once the clock has passed the end of the booked audio, the timer finds room.
  obtain ⟨k, hk⟩ := hclock (t.run o n).nextStartTime
  obtain ⟨m, hm, hfires⟩ := htimers (max n k)
  have hnm : n ≤ m := le_trans (le_max_left n k) hm
  obtain ⟨rest', hcons⟩ := run_oldest t o hnm hpending (hstays m hnm)
  have hdrain := hfires ((inv_run t o m).armed (by rw [hcons]; exact cons_ne_nil _ _))
  have hfull := (step_oldest (inv_run t o m) hcons (t.event m) (hstays (m + 1) (Nat.le_succ_of_le hnm))).2 hdrain
  have htime : (t.run o m).nextStartTime ≤ t.clock m := by
    rw [hnext m hnm]
    exact le_trans hk (t.clock_mono (le_trans (le_max_right n k) hm))
  have hempty : (t.run o m).queuedMs (t.clock m) = 0 := by
    apply max_eq_left
    linarith
  rw [hempty] at hfull
  exact absurd o.maxQueuedMs_pos (not_lt.mpr hfull)

theorem pending_leaves (htimers : t.TimersFire o) (hclock : t.ClockAdvances) (c : PendingChunk) (n : ℕ) :
    ∃ m, n ≤ m ∧ c ∉ (t.run o m).pending := by
  apply eventually_of_rank fun n => c.arrival - ((t.run o n).pending.head?.map (·.arrival)).getD 0
  intro n hc
  rw [not_not] at hc
  cases hpending : (t.run o n).pending with
  | nil =>
    rw [hpending] at hc
    cases hc
  | cons oldest rest =>
    obtain ⟨m, hm, hgone⟩ := oldest_leaves htimers hclock hpending
    refine ⟨m, hm, ?_⟩
    by_cases hstill : c ∈ (t.run o m).pending
    · right
      cases hcons : (t.run o m).pending with
      | nil =>
        rw [hcons] at hstill
        cases hstill
      | cons first rest' =>
        have hfirst : first ∈ (t.run o m).pending := by
          rw [hcons]
          exact mem_cons_self
        have hsorted := (inv_run t o m).pending_sorted
        have hsorted' := (inv_run t o n).pending_sorted
        rw [hcons] at hsorted hstill
        rw [hpending] at hsorted'
        have hle : first.arrival ≤ c.arrival := by
          rcases mem_cons.mp hstill with rfl | hin
          · exact le_refl _
          · exact le_of_lt ((pairwise_cons.mp hsorted).1 c hin)
        have hlt : oldest.arrival < first.arrival := by
          rcases (run_later t o hm).1 first hfirst with hin | hnew
          · rw [hpending] at hin
            rcases mem_cons.mp hin with rfl | hin
            · exact absurd hfirst hgone
            · exact (pairwise_cons.mp hsorted').1 first hin
          · have hold : oldest ∈ (t.run o n).pending := by
              rw [hpending]
              exact mem_cons_self
            have := (inv_run t o n).arrival_lt ((inv_run t o n).accepted_of_pending hold)
            omega
        simp only [head?_cons, Option.map_some, Option.getD_some]
        omega
    · exact .inl hstill

end Timeline

/-! ## The model's speech -/

structure PlaysWell (o : PlaybackOptions) (t : Timeline) : Prop where
  /-- The accepted chunks are told apart by their arrivals. -/
  arrivals : ∀ n, ((t.run o n).accepted.map (·.arrival)).Nodup
  inOrder : ∀ n, ((t.run o n).graph.map (·.chunk)).Sublist (t.run o n).accepted
  apart : ∀ n, Disjoint (t.run o n).graph
  /-- A chunk is dropped for the bound alone, and before every chunk that is kept. -/
  dropped : ∀ n, ∀ d ∈ (t.run o n).overflowed,
    o.maxPendingMs < d.backlogMs ∧ ∀ c ∈ (t.run o n).pending, d.chunk.arrival < c.arrival
  played : t.TimersFire o → t.ClockAdvances → ∀ n, ∀ c ∈ (t.run o n).accepted, ∃ m, n ≤ m ∧
    (c ∈ (t.run o m).graph.map (·.chunk) ∨ c ∈ (t.run o m).overflowed.map (·.chunk) ∨ c ∈ (t.run o m).stopped)
  pendingMs : ∀ n, (t.run o n).pendingMs = total (t.run o n).pending
  armed : ∀ n, (t.run o n).pending ≠ [] → (t.run o n).drainTimer.isSome

/-- The speech is played as it should be exactly if every chunk that is accepted after a
    `stop` comes when what was booked before has run out. -/
theorem speech_gapless_iff (o : PlaybackOptions) (t : Timeline) :
    PlaysWell o t ↔ ∀ n, InTime o (t.clock n) (t.run o n) (t.event n) := by
  have hinv := t.inv_run o
  constructor
  · intro h n
    exact ((disjoint_step (hinv n) (t.clock_nonneg n) (t.event n)).mp (h.apart (n + 1))).2
  · intro h
    constructor
    · intro n
      rw [(hinv n).arrivals]
      exact nodup_range
    · intro n
      exact (sublist_append_left _ _).trans (hinv n).inOrder
    · intro n
      induction n with
      | zero => exact List.Pairwise.nil
      | succ n ih => exact (disjoint_step (hinv n) (t.clock_nonneg n) (t.event n)).mpr ⟨ih, h n⟩
    · intro n d hd
      obtain ⟨hlong, -, hbefore⟩ := (hinv n).overflowed d hd
      exact ⟨hlong, hbefore⟩
    · intro htimers hclock n c hc
      obtain ⟨m, hm, hgone⟩ := Timeline.pending_leaves htimers hclock c n
      refine ⟨m, hm, ?_⟩
      rcases (hinv m).accounted c ((t.run_later o hm).2.subset hc) with hc | hc | hc | hc
      · exact .inl hc
      · exact absurd hc hgone
      · exact .inr (.inl hc)
      · exact .inr (.inr hc)
    · exact fun n => (hinv n).pendingMs
    · exact fun n => (hinv n).armed

/-- A tenth of a second of speech, a `stop` in its first quarter, and more speech at its half. -/
def stoppedEarly : Timeline where
  operatorSpeaking := false
  event n := if n = 0 then .pushChunk ⟨0, some 2400⟩ else if n = 1 then .stop else .pushChunk ⟨n, some 2400⟩
  clock n := n / 40
  clock_nonneg n := by positivity
  clock_mono := by
    intro m n h
    have : (m : ℚ) ≤ n := by exact_mod_cast h
    simp only
    linarith

/-- The new answer starts while the stopped one goes on. -/
theorem speech_overlaps :
    ((stoppedEarly.run {} 3).graph.map fun b => (b.startAt, b.endAt)) = [(1 / 50, 3 / 25), (7 / 100, 17 / 100)] ∧
      ¬ PlaysWell {} stoppedEarly := by
  have hgraph : (stoppedEarly.run {} 3).graph.map (fun b => (b.startAt, b.endAt)) =
      [(1 / 50, 3 / 25), (7 / 100, 17 / 100)] := by decide +kernel
  refine ⟨hgraph, fun h => ?_⟩
  have hapart : ((stoppedEarly.run {} 3).graph.map fun b => (b.startAt, b.endAt)).Pairwise fun a b => a.2 ≤ b.1 :=
    pairwise_map.mpr (h.apart 3)
  rw [hgraph] at hapart
  revert hapart
  decide +kernel

end PiWebUi.VoiceLive
