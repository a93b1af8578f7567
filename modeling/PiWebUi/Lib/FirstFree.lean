/-
  PiWebUi.Lib.FirstFree — the first candidate of a sequence that is not taken.

  `firstFree taken candidate` is what a loop `while (taken.has(candidate(n))) n++` ends
  with. Distinct candidates outnumber the taken names, so there is a free one
  (`firstFree_free`) and those before it are taken (`firstFree_first`). Taking more names
  changes the choice only if it was among them (`firstFree_eq_iff`).
-/

import Mathlib.Data.List.Nodup
import Mathlib.Data.List.Perm.Subperm
import Mathlib.Order.Basic

namespace PiWebUi.Lib

open List Option

variable {α : Type} [DecidableEq α]

def firstFree (taken : List α) (candidate : ℕ → α) : α :=
  (((List.range (taken.length + 1)).map candidate).find? (· ∉ taken)).getD (candidate 0)

variable {candidate : ℕ → α}

section

variable (taken : List α) (hinj : Function.Injective candidate)
include taken hinj

theorem exists_free : ∃ k, k ≤ taken.length ∧ candidate k ∉ taken := by
  by_contra h
  simp only [not_exists, not_and, not_not] at h
  have hnodup : ((List.range (taken.length + 1)).map candidate).Nodup := List.Nodup.map hinj nodup_range
  have hsub : (List.range (taken.length + 1)).map candidate ⊆ taken := by
    intro x hx
    obtain ⟨k, hk, rfl⟩ := mem_map.mp hx
    exact h k (by rw [mem_range] at hk; omega)
  have hle := (subperm_of_subset hnodup hsub).length_le
  rw [length_map, length_range] at hle
  omega

/-- The choice is a candidate, it is free, and the candidates before it are taken. -/
theorem firstFree_spec : ∃ k, firstFree taken candidate = candidate k ∧ candidate k ∉ taken ∧ ∀ j < k, candidate j ∈ taken := by
  obtain ⟨m, hm, hfree⟩ := exists_free taken hinj
  have hsome : (((List.range (taken.length + 1)).map candidate).find? (· ∉ taken)).isSome := by
    rw [find?_isSome]
    exact ⟨candidate m, mem_map_of_mem (mem_range.mpr (by omega)), by simpa using hfree⟩
  obtain ⟨x, hx⟩ := isSome_iff_exists.mp hsome
  obtain ⟨hx1, as, bs, hsplit, has⟩ := find?_eq_some_iff_append.mp hx
  have hlen : as.length < taken.length + 1 := by
    have := congrArg List.length hsplit
    simp at this
    omega
  have hget : ∀ j (hj : j < taken.length + 1), ((List.range (taken.length + 1)).map candidate)[j]? = some (candidate j) := by
    intro j hj
    rw [getElem?_map, getElem?_range hj]
    rfl
  have hxk : x = candidate as.length := by
    have := hget as.length hlen
    rw [hsplit, getElem?_append_right (Nat.le_refl _), Nat.sub_self] at this
    exact some.inj this
  refine ⟨as.length, ?_, ?_, ?_⟩
  · rw [firstFree, hx, getD_some, hxk]
  · rw [← hxk]
    simpa using hx1
  · intro j hj
    have hjs := hget j (by omega)
    rw [hsplit, getElem?_append_left hj] at hjs
    have := has (candidate j) (mem_of_getElem? hjs)
    simpa using this

theorem firstFree_free : firstFree taken candidate ∉ taken := by
  obtain ⟨k, hk, hfree, -⟩ := firstFree_spec taken hinj
  rw [hk]
  exact hfree

end

theorem firstFree_of_free {taken : List α} (h : candidate 0 ∉ taken) : firstFree taken candidate = candidate 0 := by
  rw [firstFree, range_succ_eq_map, map_cons, find?_cons_of_pos (by simpa using h), getD_some]

theorem firstFree_eq_iff {taken more : List α} (hinj : Function.Injective candidate) (hsub : ∀ x ∈ taken, x ∈ more) :
    firstFree more candidate = firstFree taken candidate ↔ firstFree taken candidate ∉ more := by
  obtain ⟨k, hk, hfree, hfirst⟩ := firstFree_spec taken hinj
  obtain ⟨m, hm, hfreem, hfirstm⟩ := firstFree_spec more hinj
  rw [hk, hm]
  constructor
  · intro h
    rw [← h]
    exact hfreem
  · intro h
    congr 1
    by_contra hne
    rcases Nat.lt_or_gt_of_ne hne with hlt | hlt
    · exact hfreem (hsub _ (hfirst m hlt))
    · exact h (hfirstm k hlt)

end PiWebUi.Lib
