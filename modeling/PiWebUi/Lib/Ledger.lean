/-
  PiWebUi.Lib.Ledger — what has been granted and not yet given back.

  An entry is granted once and given back at most once: giving it back again changes
  nothing. `outstanding p` counts the entries of kind `p` that are still held. It is
  what a running counter per kind has to equal; the rules say how it moves with a grant
  (`outstanding_grant`) and a release (`outstanding_release`), and that the counts of
  the kinds add up to the count of all (`sum_outstanding`).
-/

import Mathlib.Data.List.Count
import Mathlib.Data.List.Nodup
import Mathlib.Algebra.BigOperators.Group.List.Basic
import Mathlib.Algebra.Order.Ring.Nat

namespace PiWebUi.Lib

open List

structure Ledger (α : Type) where
  /-- What was granted, and whether it was given back. -/
  entries : List (α × Bool)

namespace Ledger

variable {α κ : Type}

def empty : Ledger α := ⟨[]⟩

def grant (l : Ledger α) (a : α) : Ledger α := ⟨l.entries ++ [(a, false)]⟩

/-- The entry `i`, if it is still held. -/
def held (l : Ledger α) (i : ℕ) : Option α :=
  match l.entries[i]? with
  | some (a, false) => some a
  | _ => none

def release (l : Ledger α) (i : ℕ) : Ledger α :=
  match l.held i with
  | some a => ⟨l.entries.set i (a, true)⟩
  | none => l

def outstanding (l : Ledger α) (p : α → Bool) : ℕ := l.entries.countP fun e => !e.2 && p e.1

theorem held_eq_some {l : Ledger α} {i : ℕ} {a : α} (h : l.held i = some a) : l.entries[i]? = some (a, false) := by
  unfold held at h
  split at h
  · next b hb => cases h; exact hb
  · cases h

theorem outstanding_grant (l : Ledger α) (a : α) (p : α → Bool) :
    (l.grant a).outstanding p = l.outstanding p + if p a then 1 else 0 := by
  simp [outstanding, grant, countP_append, countP_singleton]

theorem release_of_held {l : Ledger α} {i : ℕ} {a : α} (h : l.held i = some a) : l.release i = ⟨l.entries.set i (a, true)⟩ := by
  simp [release, h]

theorem release_of_not_held {l : Ledger α} {i : ℕ} (h : l.held i = none) : l.release i = l := by
  simp [release, h]

theorem held_release_of_ne {l : Ledger α} {i j : ℕ} (h : i ≠ j) : (l.release i).held j = l.held j := by
  cases hi : l.held i with
  | none => rw [release_of_not_held hi]
  | some a =>
    rw [release_of_held hi]
    simp only [held, getElem?_set_ne h]

/-- A release takes one from the count of each kind the entry is of. -/
theorem outstanding_release {l : Ledger α} {i : ℕ} {a : α} (h : l.held i = some a) (p : α → Bool) :
    (l.release i).outstanding p + (if p a then 1 else 0) = l.outstanding p := by
  obtain ⟨hlt, hi⟩ := List.getElem?_eq_some_iff.mp (held_eq_some h)
  have hset := countP_set (p := fun e => !e.2 && p e.1) (l := l.entries) (i := i) (a := (a, true)) hlt
  have hpos : p a = true → 0 < l.entries.countP fun e => !e.2 && p e.1 := fun hp =>
    countP_pos_iff.mpr ⟨(a, false), hi ▸ getElem_mem hlt, by simpa using hp⟩
  rw [release_of_held h, outstanding, hset, hi]
  by_cases hp : p a = true
  · have := hpos hp
    simp only [hp, outstanding, Bool.not_false, Bool.and_self, if_true, Bool.not_true, Bool.false_and, Bool.false_eq_true,
      if_false] at this ⊢
    omega
  · simp [hp, outstanding]

theorem sum_indicator [DecidableEq κ] (ks : List κ) (a : κ) : (ks.map fun k => if a = k then 1 else 0).sum = ks.count a := by
  induction ks with
  | nil => rfl
  | cons k ks ih =>
    rw [map_cons, sum_cons, ih, count_cons, add_comm]
    by_cases h : a = k
    · simp [h]
    · simp [h, Ne.symm h]

/-- The counts of the kinds `f` sorts into add up to the count of all. -/
theorem sum_outstanding [DecidableEq κ] (l : Ledger α) (f : α → κ) {ks : List κ} (hn : ks.Nodup) (hks : ∀ a, f a ∈ ks) :
    (ks.map fun k => l.outstanding fun a => f a = k).sum = l.outstanding fun _ => true := by
  obtain ⟨es⟩ := l
  simp only [outstanding]
  induction es with
  | nil => simp
  | cons e es ih =>
    have hone : (ks.map fun k => if (!e.2 && decide (f e.1 = k)) = true then 1 else 0).sum = if e.2 then 0 else 1 := by
      cases e.2 with
      | true => simp
      | false =>
        have hcount : ks.count (f e.1) = 1 := count_eq_one_of_mem hn (hks e.1)
        simpa [hcount] using sum_indicator ks (f e.1)
    simp only [countP_cons, sum_map_add, ih, hone]
    cases e.2 <;> simp

end Ledger

end PiWebUi.Lib
