/-
  PiWebUi.Claude.SteerStream — the prompt stream that a turn is steered through
  (server/src/claude/claude-steer-stream.ts: SteerablePromptStream).

  The generator is at one of its awaits. Its own steps are microtasks (`resume`): it goes on
  after its promise was resolved, and a `yield` or a `return` answers `next()` after its
  operand was awaited. Producers call at any time, and a scheduled end fires at any time until
  it is cleared. Nothing that was accepted is lost, doubled or overtaken, and no `next()` is
  left waiting (`steering_delivered`).
-/

import Mathlib.Data.List.Induction

namespace PiWebUi.Claude

open List

variable {Message : Type}

inductive Generator (Message : Type)
  | suspended
  | parked (resolved : Bool)
  | yielding (item : Message)
  | returning
  | finished

/-- `accepted` and `yielded` are read by nothing. -/
structure SteerablePromptStream (Message : Type) where
  queue : List Message := []
  resolveNext : Bool := false
  ended : Bool := false
  scheduledEnd : Bool := false
  generator : Generator Message := .suspended
  accepted : List Message := []
  yielded : List Message := []

inductive StreamEvent (Message : Type)
  | push (message : Message)
  | ends
  | scheduleEnd
  | timerFires
  | next
  | resume

def StreamEvent.isPush : StreamEvent Message → Bool
  | .push _ => true
  | _ => false

namespace SteerablePromptStream

variable (s : SteerablePromptStream Message)

/-- `resolveNext?.()`: a promise that was resolved stays so. -/
def wake : SteerablePromptStream Message :=
  match s.resolveNext, s.generator with
  | true, .parked _ => { s with generator := .parked true }
  | _, _ => s

def push (message : Message) : Bool × SteerablePromptStream Message :=
  if s.ended then (false, s)
  else (true, wake { s with scheduledEnd := false, queue := s.queue ++ [message], accepted := s.accepted ++ [message] })

def ends : SteerablePromptStream Message := wake { s with scheduledEnd := false, ended := true }

def scheduleEnd : SteerablePromptStream Message := if s.ended then s else { s with scheduledEnd := true }

/-- A timer that was cleared does not fire. -/
def timerFires : SteerablePromptStream Message := if s.scheduledEnd then s.ends else s

/-- The generator from the head of its loop to the next await: both inner loops look at the queue first. -/
def advance : SteerablePromptStream Message :=
  match s.queue with
  | item :: rest => { s with queue := rest, generator := .yielding item }
  | [] => if s.ended then { s with generator := .returning } else { s with resolveNext := true, generator := .parked false }

def resume : SteerablePromptStream Message :=
  match s.generator with
  | .parked true => advance { s with resolveNext := false }
  | .yielding item => { s with generator := .suspended, yielded := s.yielded ++ [item] }
  | .returning => { s with generator := .finished }
  | _ => s

/-- The consumer calls `next()` when its last call was answered. -/
def next : SteerablePromptStream Message :=
  match s.generator with
  | .suspended => s.advance
  | _ => s

def step : StreamEvent Message → SteerablePromptStream Message
  | .push message => (s.push message).2
  | .ends => s.ends
  | .scheduleEnd => s.scheduleEnd
  | .timerFires => s.timerFires
  | .next => s.next
  | .resume => s.resume

/-! ## What is claimed -/

def transit : List Message :=
  match s.generator with
  | .yielding item => [item]
  | _ => []

/-- A `next()` has not been answered. -/
def Pends : Prop :=
  match s.generator with
  | .suspended | .finished => False
  | _ => True

structure Delivers : Prop where
  inOrder : s.yielded ++ s.transit ++ s.queue = s.accepted
  drained : s.generator = .returning ∨ s.generator = .finished → s.ended = true ∧ s.yielded = s.accepted
  /-- Two microtasks answer `next()`, whatever else comes before them and between them. -/
  answered : s.queue ≠ [] ∨ s.ended = true → ∀ es : List (StreamEvent Message), .next ∉ es →
    ¬ (es.foldl step s.resume).resume.Pends
  waits : s.generator = .parked false → s.queue = [] ∧ s.ended = false
  refused : s.ended = true → ∀ message, s.push message = (false, s)

def Scheduled (es : List (StreamEvent Message)) : Prop :=
  ∃ before between, es = before ++ .scheduleEnd :: between ∧ ∀ e ∈ between, StreamEvent.isPush e = false

/-- It was ended directly, or by a scheduled end that no later push cancelled. -/
def EndedBy (es : List (StreamEvent Message)) : Prop :=
  ∃ before after, es = before ++ .ends :: after ∨ es = before ++ .timerFires :: after ∧ Scheduled before

/-! ## The stream -/

variable {s}

structure Inv (s : SteerablePromptStream Message) : Prop where
  inOrder : s.yielded ++ s.transit ++ s.queue = s.accepted
  drained : s.generator = .returning ∨ s.generator = .finished → s.ended = true ∧ s.queue = []
  waits : s.generator = .parked false → s.queue = [] ∧ s.ended = false
  slot : ∀ resolved, s.generator = .parked resolved → s.resolveNext = true
  timer : s.ended = true → s.scheduledEnd = false

/-- A producer's call: whoever is parked is woken. -/
theorem inv_wake (hin : s.yielded ++ s.transit ++ s.queue = s.accepted)
    (hdrained : s.generator = .returning ∨ s.generator = .finished → s.ended = true ∧ s.queue = [])
    (hslot : ∀ resolved, s.generator = .parked resolved → s.resolveNext = true) (htimer : s.ended = true → s.scheduledEnd = false) :
    s.wake.Inv := by
  unfold wake
  split
  · next hr hg =>
    rw [transit, hg] at hin
    exact ⟨hin, nofun, nofun, fun _ _ => hr, htimer⟩
  · next hnot => exact ⟨hin, hdrained, fun hg => absurd hg (hnot _ (hslot _ hg)), hslot, htimer⟩

theorem inv_ends (h : s.Inv) : s.ends.Inv :=
  inv_wake h.inOrder (fun hg => ⟨rfl, (h.drained hg).2⟩) h.slot fun _ => rfl

/-- The generator goes on with nothing in transit. -/
theorem inv_advance (hin : s.yielded ++ s.queue = s.accepted) (htimer : s.ended = true → s.scheduledEnd = false) : s.advance.Inv := by
  unfold advance
  split
  · next item rest hq =>
    rw [hq] at hin
    exact ⟨by simpa [transit] using hin, nofun, nofun, nofun, htimer⟩
  · next hq =>
    rw [hq, append_nil] at hin
    split
    · next he => exact ⟨by simpa [transit, hq] using hin, fun _ => ⟨he, hq⟩, nofun, nofun, htimer⟩
    · next he => exact ⟨by simpa [transit, hq] using hin, nofun, fun _ => ⟨hq, Bool.eq_false_iff.mpr he⟩, fun _ _ => rfl, htimer⟩

theorem inv_step (e : StreamEvent Message) (h : s.Inv) : (s.step e).Inv := by
  have hin := h.inOrder
  cases e with
  | push message =>
    simp only [step, push]
    split
    · exact h
    · next he =>
      refine inv_wake ?_ (fun hg => absurd (h.drained hg).1 he) h.slot fun _ => rfl
      rw [← hin]
      exact (append_assoc ..).symm
  | ends => exact inv_ends h
  | scheduleEnd =>
    simp only [step, scheduleEnd]
    split
    · exact h
    · next he => exact { h with timer := fun hended => absurd hended he }
  | timerFires =>
    simp only [step, timerFires]
    split
    · exact inv_ends h
    · exact h
  | next =>
    simp only [step, next]
    split
    · next hg =>
      rw [transit, hg, append_nil] at hin
      exact inv_advance hin h.timer
    · exact h
  | resume =>
    simp only [step, resume]
    split
    · next hg =>
      rw [transit, hg, append_nil] at hin
      exact inv_advance hin h.timer
    · next item hg =>
      rw [transit, hg] at hin
      exact ⟨by simpa [transit] using hin, nofun, nofun, nofun, h.timer⟩
    · next hg =>
      rw [transit, hg] at hin
      exact ⟨hin, fun _ => h.drained (.inl hg), nofun, nofun, h.timer⟩
    · exact h

/-! ## Its answers -/

def Unparked (s : SteerablePromptStream Message) : Prop := ∀ resolved, s.generator ≠ .parked resolved

theorem Unparked.step (h : s.Unparked) {e : StreamEvent Message} (he : e ≠ .next) : (s.step e).Unparked := by
  have hwake : ∀ {t : SteerablePromptStream Message}, t.Unparked → t.wake.Unparked := fun {t} ht => by
    unfold wake
    split
    · next hg => exact absurd hg (ht _)
    · exact ht
  cases e with
  | push message =>
    simp only [SteerablePromptStream.step, push]
    split
    · exact h
    · exact hwake h
  | ends => exact hwake h
  | scheduleEnd =>
    simp only [SteerablePromptStream.step, scheduleEnd]
    split <;> exact h
  | timerFires =>
    simp only [SteerablePromptStream.step, timerFires]
    split
    · exact hwake h
    · exact h
  | next => exact absurd rfl he
  | resume =>
    simp only [SteerablePromptStream.step, resume]
    split
    · next hg => exact absurd hg (h _)
    · exact nofun
    · exact nofun
    · exact h

/-- The first microtask ends the wait for the promise. -/
theorem unparked_resume (h : s.Inv) (hgo : s.queue ≠ [] ∨ s.ended = true) : s.resume.Unparked := by
  intro resolved hp
  cases hg : s.generator with
  | parked woken =>
    cases woken with
    | false =>
      obtain ⟨hq, he⟩ := h.waits hg
      simp [hq, he] at hgo
    | true =>
      cases hq : s.queue with
      | cons item rest => simp [resume, advance, hg, hq] at hp
      | nil =>
        have he : s.ended = true := hgo.resolve_left fun hne => hne hq
        simp [resume, advance, hg, hq, he] at hp
  | _ => simp [resume, hg] at hp

theorem delivers_of_inv (h : s.Inv) : s.Delivers where
  inOrder := h.inOrder
  drained hg := by
    obtain ⟨he, hq⟩ := h.drained hg
    refine ⟨he, ?_⟩
    rw [← h.inOrder, hq, transit]
    rcases hg with hg | hg <;> simp [hg]
  answered hgo es hes := by
    have hu : (es.foldl step s.resume).Unparked := by
      have hstart := unparked_resume h hgo
      generalize s.resume = t at hstart ⊢
      induction es generalizing t with
      | nil => exact hstart
      | cons e es ih =>
        rw [mem_cons, not_or] at hes
        exact ih hes.2 _ (hstart.step (Ne.symm hes.1))
    generalize es.foldl step s.resume = t at hu ⊢
    cases hg : t.generator with
    | parked resolved => exact absurd hg (hu resolved)
    | _ => simp [resume, hg, Pends]
  waits := h.waits
  refused he message := by rw [push, if_pos he]

/-! ## Its end -/

/-- What a step does to the two flags of the end. -/
theorem flags_step (e : StreamEvent Message) :
    ((s.step e).ended = true → s.ended = true ∨ e = .ends ∨ e = .timerFires ∧ s.scheduledEnd = true) ∧
      ((s.step e).scheduledEnd = true → e = .scheduleEnd ∨ s.scheduledEnd = true ∧ (e.isPush = true → s.ended = true)) := by
  cases e <;> grind [step, push, ends, scheduleEnd, timerFires, next, resume, wake, advance, StreamEvent.isPush]

/-- A scheduled end that stands is one that no later push cancelled. -/
theorem run_spec (es : List (StreamEvent Message)) : ∃ s, s = es.foldl step ({} : SteerablePromptStream Message) ∧ s.Inv ∧
    (s.ended = true → EndedBy es) ∧ (s.scheduledEnd = true → Scheduled es) := by
  induction es using List.reverseRecOn with
  | nil => exact ⟨_, rfl, ⟨rfl, nofun, nofun, nofun, nofun⟩, nofun, nofun⟩
  | append_singleton es e ih =>
    obtain ⟨s, hs, hi, hended, hsched⟩ := ih
    rw [foldl_append, foldl_cons, foldl_nil, ← hs]
    refine ⟨_, rfl, inv_step e hi, fun h => ?_, fun h => ?_⟩
    · rcases (flags_step e).1 h with h | rfl | ⟨rfl, hstands⟩
      · obtain ⟨before, after, rfl | ⟨rfl, hb⟩⟩ := hended h
        · exact ⟨before, after ++ [e], .inl (by simp)⟩
        · exact ⟨before, after ++ [e], .inr ⟨by simp, hb⟩⟩
      · exact ⟨es, [], .inl rfl⟩
      · exact ⟨es, [], .inr ⟨rfl, hsched hstands⟩⟩
    · rcases (flags_step e).2 h with rfl | ⟨hstands, hpush⟩
      · exact ⟨es, [], rfl, nofun⟩
      · obtain ⟨before, between, rfl, hb⟩ := hsched hstands
        have he : e.isPush = false := Bool.eq_false_iff.mpr fun hp => by
          have := hi.timer (hpush hp)
          rw [hstands] at this
          cases this
        exact ⟨before, between ++ [e], by simp, forall_mem_append.mpr ⟨hb, forall_mem_singleton.mpr he⟩⟩

end SteerablePromptStream

end PiWebUi.Claude
