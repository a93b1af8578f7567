/-
  PiWebUi.Lib.Levels — a grouping by levels.

  `levels` takes, round after round, what is ready after the rounds before it, and
  everything that remains where nothing is ready. Whatever `ready` is, the rounds end and
  every element is in one of them (`levels_perm`). If `ready` says that all an element
  needs is processed, and needing is well founded, then nothing is ever stuck and an
  element comes in a later round than what it needs (`levels_ordered`). Among finitely
  many elements, needing is well founded if it has no cycle (`wellFounded_of_acyclic`).
-/

import Mathlib.Data.Finset.Card
import Mathlib.Logic.Relation
import Mathlib.Order.WellFounded

namespace PiWebUi.Lib

open List

variable {α : Type} [DecidableEq α]

/-- The next round. -/
def level (ready : List α → α → Bool) (processed remaining : List α) : List α :=
  if remaining.filter (ready processed) = [] then remaining else remaining.filter (ready processed)

/-- What remains after it. -/
def afterLevel (ready : List α → α → Bool) (processed remaining : List α) : List α :=
  remaining.filter (· ∉ level ready processed remaining)

variable {ready : List α → α → Bool} {processed remaining : List α}

omit [DecidableEq α] in
theorem level_subset {a : α} (h : a ∈ level ready processed remaining) : a ∈ remaining := by
  rw [level] at h
  split at h
  · exact h
  · exact mem_of_mem_filter h

omit [DecidableEq α] in
theorem level_ne_nil (h : remaining ≠ []) : level ready processed remaining ≠ [] := by
  rw [level]
  split
  · exact h
  · assumption

theorem length_afterLevel (h : remaining ≠ []) : (afterLevel ready processed remaining).length < remaining.length := by
  obtain ⟨a, ha⟩ := exists_mem_of_ne_nil _ (level_ne_nil h)
  exact length_filter_lt_length_iff_exists.mpr ⟨a, level_subset ha, by simpa using ha⟩

def levels (ready : List α → α → Bool) (processed remaining : List α) : List (List α) :=
  if _h : remaining = [] then []
  else
    level ready processed remaining ::
      levels ready (processed ++ level ready processed remaining) (afterLevel ready processed remaining)
termination_by remaining.length
decreasing_by exact length_afterLevel _h

@[simp] theorem levels_nil : levels ready processed [] = [] := by
  rw [levels, dif_pos rfl]

theorem levels_of_ne_nil (h : remaining ≠ []) : levels ready processed remaining = level ready processed remaining ::
    levels ready (processed ++ level ready processed remaining) (afterLevel ready processed remaining) := by
  rw [levels, dif_neg h]

/-- A round and what remains after it are what remained. -/
theorem level_append_perm : (level ready processed remaining ++ afterLevel ready processed remaining).Perm remaining := by
  rw [afterLevel]
  by_cases h : remaining.filter (ready processed) = []
  · have hlevel : level ready processed remaining = remaining := if_pos h
    have hrest : remaining.filter (· ∉ remaining) = [] := filter_eq_nil_iff.mpr (by simp)
    rw [hlevel, hrest, append_nil]
  · have hlevel : level ready processed remaining = remaining.filter (ready processed) := if_neg h
    have hrest : remaining.filter (· ∉ remaining.filter (ready processed)) =
        remaining.filter (fun a => !ready processed a) := by
      apply filter_congr
      intro a ha
      simp [ha]
    rw [hlevel, hrest]
    exact filter_append_perm (ready processed) remaining

/-- Every element is in one of the groups, as often as it is given. -/
theorem levels_perm (processed remaining : List α) : (levels ready processed remaining).flatten.Perm remaining := by
  induction processed, remaining using levels.induct ready with
  | case1 processed => simp
  | case2 processed remaining h ih =>
    rw [levels_of_ne_nil h, flatten_cons]
    exact (ih.append_left _).trans level_append_perm

open Relation (TransGen) in
/-- What can be reached by needing gets less at every step of it. -/
theorem wellFounded_of_acyclic {needs : α → List α} (all : List α) (hall : ∀ a, ∀ b ∈ needs a, b ∈ all)
    (hacyclic : ∀ a, ¬ TransGen (fun a b => b ∈ needs a) a a) : WellFounded fun b a => b ∈ needs a := by
  classical
  let reached : α → Finset α := fun a => all.toFinset.filter (TransGen (fun a b => b ∈ needs a) a)
  refine Subrelation.wf (fun {b a} hb => ?_) (measure fun a => (reached a).card).wf
  apply Finset.card_lt_card
  rw [Finset.ssubset_iff_of_subset]
  · refine ⟨b, ?_, ?_⟩
    · simpa [reached] using ⟨hall a b hb, .single hb⟩
    · simpa [reached] using fun _ => hacyclic b
  · intro c hc
    simp only [reached, Finset.mem_filter] at hc ⊢
    exact ⟨hc.1, .head hb hc.2⟩

/-- The rounds' elements are ready after the rounds before them. -/
theorem levels_ordered {needs : α → List α} (hready : ∀ p a, ready p a = true ↔ ∀ b ∈ needs a, b ∈ p)
    (hwf : WellFounded fun b a => b ∈ needs a) (processed remaining : List α)
    (hcover : ∀ a ∈ remaining, ∀ b ∈ needs a, b ∈ processed ∨ b ∈ remaining) :
    ∀ (i : ℕ) (group : List α), (levels ready processed remaining)[i]? = some group → ∀ a ∈ group, ∀ b ∈ needs a,
      b ∈ processed ∨ ∃ j < i, ∃ earlier, (levels ready processed remaining)[j]? = some earlier ∧ b ∈ earlier := by
  induction processed, remaining using levels.induct ready with
  | case1 processed => intro i group h; simp at h
  | case2 processed remaining h ih =>
    -- The least of what remains needs nothing that remains, so something is ready.
    have hsome : remaining.filter (ready processed) ≠ [] := by
      obtain ⟨m, hm, hmin⟩ := hwf.has_min {a | a ∈ remaining} (exists_mem_of_ne_nil _ h)
      have hmready : ready processed m = true := by
        rw [hready]
        intro b hb
        rcases hcover m hm b hb with hb' | hb'
        · exact hb'
        · exact absurd hb (hmin b hb')
      exact ne_nil_of_mem (mem_filter.mpr ⟨hm, hmready⟩)
    have hlevel : level ready processed remaining = remaining.filter (ready processed) := if_neg hsome
    have hrest : ∀ a ∈ afterLevel ready processed remaining, ∀ b ∈ needs a,
        b ∈ processed ++ level ready processed remaining ∨ b ∈ afterLevel ready processed remaining := by
      intro a ha b hb
      rw [mem_append, afterLevel, mem_filter]
      rcases hcover a (mem_of_mem_filter ha) b hb with hb' | hb'
      · exact .inl (.inl hb')
      · by_cases hin : b ∈ level ready processed remaining
        · exact .inl (.inr hin)
        · exact .inr ⟨hb', by simpa using hin⟩
    rw [levels_of_ne_nil h]
    intro i group hi a ha b hb
    cases i with
    | zero =>
      obtain rfl : level ready processed remaining = group := by simpa using hi
      rw [hlevel, mem_filter] at ha
      exact .inl ((hready processed a).mp ha.2 b hb)
    | succ i =>
      rw [getElem?_cons_succ] at hi
      rcases ih hrest i group hi a ha b hb with hb' | ⟨j, hj, earlier, he, hbe⟩
      · rcases mem_append.mp hb' with hb' | hb'
        · exact .inl hb'
        · exact .inr ⟨0, by omega, _, rfl, hb'⟩
      · exact .inr ⟨j + 1, by omega, earlier, by rw [getElem?_cons_succ]; exact he, hbe⟩

end PiWebUi.Lib
