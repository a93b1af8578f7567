/-
  PiWebUi.Lib.Coalesce — a stream some of whose events may be merged into later ones.

  Updates may be held back; an update that arrives while one is held absorbs it. A
  batch is what one outgoing event stands for: the updates it absorbed and the event
  itself, the last. `Coalesced u es bs p` says that the stream `es` has gone out as the
  batches `bs`, with `p` held.
-/

import Mathlib.Data.List.Count
import Mathlib.Algebra.BigOperators.Group.List.Basic
import Mathlib.Algebra.Order.Ring.Nat

namespace PiWebUi.Lib

open List Option

structure Batch (ε : Type) where
  absorbed : List ε
  last : ε

namespace Batch

variable {ε : Type}

def single (e : ε) : Batch ε := ⟨[], e⟩

def members (b : Batch ε) : List ε := b.absorbed ++ [b.last]

/-- The batch of an event that absorbs `b`. -/
def absorb (b : Batch ε) (e : ε) : Batch ε := ⟨b.members, e⟩

@[simp] theorem members_single (e : ε) : (single e).members = [e] := rfl

@[simp] theorem members_absorb (b : Batch ε) (e : ε) : (b.absorb e).members = b.members ++ [e] := rfl

end Batch

variable {ε : Type}

inductive Coalesced (u : ε → Bool) : List ε → List (Batch ε) → Option (Batch ε) → Prop
  | nil : Coalesced u [] [] none
  | send {es bs} (e : ε) : Coalesced u es bs none → Coalesced u (es ++ [e]) (bs ++ [.single e]) none
  | hold {es bs} {e : ε} : u e = true → Coalesced u es bs none → Coalesced u (es ++ [e]) bs (some (.single e))
  | absorb {es bs p} {e : ε} : u e = true → Coalesced u es bs (some p) → Coalesced u (es ++ [e]) bs (some (p.absorb e))
  | flush {es bs p} : Coalesced u es bs (some p) → Coalesced u es (bs ++ [p]) none

namespace Coalesced

variable {u : ε → Bool} {es : List ε} {bs : List (Batch ε)} {p : Option (Batch ε)}

/-- What the held batch, if any, stands for. -/
def heldMembers (p : Option (Batch ε)) : List ε := (p.map Batch.members).getD []

theorem flatten (h : Coalesced u es bs p) : es = bs.flatMap Batch.members ++ heldMembers p := by
  induction h with
  | nil => rfl
  | send e _ ih | hold _ _ ih | absorb _ _ ih | flush _ ih => simp [ih, heldMembers]

/-- The held batch is all updates. -/
theorem held_updates (h : Coalesced u es bs p) : ∀ b, p = some b → ∀ e ∈ b.members, u e = true := by
  induction h with
  | nil | send _ _ _ | flush _ _ => intro b hb; cases hb
  | hold hu _ _ => intro b hb e he; cases hb; simp only [Batch.members_single, mem_singleton] at he; rwa [he]
  | absorb hu _ ih =>
    intro b hb e he
    cases hb
    rw [Batch.members_absorb, mem_append, mem_singleton] at he
    rcases he with he | rfl
    · exact ih _ rfl e he
    · exact hu

/-- A batch that absorbed anything is all updates. -/
theorem batch_updates (h : Coalesced u es bs p) : ∀ b ∈ bs, b.absorbed ≠ [] → ∀ e ∈ b.members, u e = true := by
  induction h with
  | nil => intro b hb; cases hb
  | send e _ ih =>
    intro b hb hne
    rcases mem_append.mp hb with hb | hb
    · exact ih b hb hne
    · rw [mem_singleton] at hb; subst hb; exact absurd rfl hne
  | hold _ _ ih | absorb _ _ ih => exact ih
  | flush hp ih =>
    intro b hb hne
    rcases mem_append.mp hb with hb | hb
    · exact ih b hb hne
    · rw [mem_singleton] at hb; subst hb; exact hp.held_updates _ rfl

theorem others (h : Coalesced u es bs p) : es.filter (fun e => !u e) = (bs.map Batch.last).filter fun e => !u e := by
  induction h with
  | nil => rfl
  | send e _ ih => simp [filter_append, ih, Batch.single]
  | hold hu _ ih | absorb hu _ ih => simp [filter_append, ih, hu]
  | @flush es bs p hp ih =>
    have hu : u p.last = true := hp.held_updates p rfl p.last (by simp [Batch.members])
    simp [filter_append, ih, hu]

/-- How many updates a batch absorbed, when an update went out for it. -/
def absorbedUpdates (u : ε → Bool) (b : Batch ε) : ℕ := if u b.last then b.absorbed.length else 0

theorem count (h : Coalesced u es bs p) :
    es.countP u = (bs.map Batch.last).countP u + (bs.map (absorbedUpdates u)).sum + (heldMembers p).length := by
  induction h with
  | nil => rfl
  | send e _ ih =>
    simp only [heldMembers, map_none, getD_none, length_nil] at ih
    simp only [countP_append, ih, map_append, sum_append, absorbedUpdates, Batch.single, heldMembers,
      countP_singleton, map_cons, map_nil, sum_singleton, length_nil, ite_self]
    simp
    omega
  | hold hu _ ih =>
    simp only [heldMembers, map_none, getD_none, length_nil] at ih
    simp [countP_append, ih, heldMembers, hu]
  | absorb hu _ ih =>
    simp only [heldMembers, map_some, getD_some] at ih
    simp only [countP_append, ih, countP_singleton, hu, if_true, heldMembers, map_some, getD_some,
      Batch.members_absorb, length_append, length_singleton]
    omega
  | @flush es bs p hp ih =>
    have hu : u p.last = true := hp.held_updates p rfl p.last (by simp [Batch.members])
    simp only [heldMembers, map_some, getD_some, Batch.members, length_append,
      length_singleton] at ih
    simp [ih, absorbedUpdates, hu, heldMembers]
    omega

end Coalesced

end PiWebUi.Lib
