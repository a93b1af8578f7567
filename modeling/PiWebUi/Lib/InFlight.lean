/-
  PiWebUi.Lib.InFlight — calls in flight, as a list addressed by index.

  A call that moves is `set` or modified in place and a call that begins is appended; what holds of
  the calls afterwards is said of the one that moved or began and of the others as they
  were.
-/

import Mathlib.Data.List.Basic
import Mathlib.Tactic.SplitIfs

namespace PiWebUi.Lib.InFlight

variable {α : Type} {xs : List α} {i j : ℕ} {x y : α}

theorem forall_mem_iff {P : α → Prop} : (∀ x ∈ xs, P x) ↔ ∀ (i : ℕ) (x : α), xs[i]? = some x → P x := by
  constructor
  · intro h i x hx
    exact h x (List.mem_of_getElem? hx)
  · intro h x hx
    obtain ⟨i, hi⟩ := List.mem_iff_getElem?.mp hx
    exact h i x hi

theorem get_set (h : (xs.set i y)[j]? = some x) : j = i ∧ x = y ∨ j ≠ i ∧ xs[j]? = some x := by
  by_cases hj : j = i
  · subst hj
    left
    rw [List.getElem?_set_self'] at h
    obtain ⟨_, _, hx⟩ := Option.map_eq_some_iff.mp h
    exact ⟨rfl, hx.symm⟩
  · right
    rw [List.getElem?_set_ne (Ne.symm hj)] at h
    exact ⟨hj, h⟩

theorem set_other (y : α) (hj : j ≠ i) (h : xs[j]? = some x) : (xs.set i y)[j]? = some x := by
  rwa [List.getElem?_set_ne (Ne.symm hj)]

theorem set_self (y : α) (h : xs[i]? = some x) : (xs.set i y)[i]? = some y := by
  rw [List.getElem?_set_self', h]
  rfl

theorem get_modify {f : α → α} (h : (xs.modify i f)[j]? = some x) :
    (j = i ∧ ∃ y, xs[i]? = some y ∧ x = f y) ∨ j ≠ i ∧ xs[j]? = some x := by
  by_cases hj : j = i
  · subst hj
    rw [List.getElem?_modify_eq] at h
    obtain ⟨y, hy, hx⟩ := Option.map_eq_some_iff.mp h
    exact .inl ⟨rfl, y, hy, hx.symm⟩
  · rw [List.getElem?_modify_ne _ _ (Ne.symm hj)] at h
    exact .inr ⟨hj, h⟩

/-- A change that `g` does not see. -/
theorem map_modify {β : Type} {f : α → α} {g : α → β} (h : ∀ x, xs[i]? = some x → g (f x) = g x) :
    (xs.modify i f).map g = xs.map g := by
  apply List.ext_getElem?
  intro j
  rw [List.getElem?_map, List.getElem?_map]
  by_cases hj : i = j
  · subst hj
    rw [List.getElem?_modify_eq]
    cases hx : xs[i]? with
    | none => rfl
    | some x => exact congrArg some (h x hx)
  · rw [List.getElem?_modify_ne _ _ hj]

theorem get_append (h : (xs ++ [y])[i]? = some x) : xs[i]? = some x ∨ i = xs.length ∧ x = y := by
  rw [List.getElem?_append] at h
  split_ifs at h with hi
  · exact .inl h
  · obtain ⟨hlt, rfl⟩ := List.getElem?_eq_some_iff.mp h
    rw [List.length_singleton] at hlt
    exact .inr ⟨by omega, List.getElem_singleton hlt⟩

theorem append_left (y : α) (h : xs[i]? = some x) : (xs ++ [y])[i]? = some x := by
  have hlt : i < xs.length := (List.getElem?_eq_some_iff.mp h).1
  rw [List.getElem?_append_left hlt, h]

end PiWebUi.Lib.InFlight
