/-
  PiWebUi.Lib.Interleave — a list as an interleaving of others.

  `Interleaved xs ys zs`: `zs` is made of all of `xs` and all of `ys`, each in its order.
  `InterleavedAll` is that for any number of lists. What is taken out of a list in steps is
  put together by `InterleavedAll.trans` (out of what an earlier step left) and
  `InterleavedAll.append` (out of two stretches side by side).
-/

import Mathlib.Data.List.Basic

namespace PiWebUi.Lib

variable {α : Type}

inductive Interleaved : List α → List α → List α → Prop
  | nil : Interleaved [] [] []
  | left (a : α) {xs ys zs : List α} : Interleaved xs ys zs → Interleaved (a :: xs) ys (a :: zs)
  | right (a : α) {xs ys zs : List α} : Interleaved xs ys zs → Interleaved xs (a :: ys) (a :: zs)

def InterleavedAll : List (List α) → List α → Prop
  | [], zs => zs = []
  | xs :: xss, zs => ∃ ys, Interleaved xs ys zs ∧ InterleavedAll xss ys

namespace Interleaved

variable {xs ys zs us vs ws : List α}

theorem symm (h : Interleaved xs ys zs) : Interleaved ys xs zs := by
  induction h with
  | nil => exact .nil
  | left a _ ih => exact .right a ih
  | right a _ ih => exact .left a ih

theorem nil_right (xs : List α) : Interleaved xs [] xs := by
  induction xs with
  | nil => exact .nil
  | cons a xs ih => exact .left a ih

theorem nil_left (ys : List α) : Interleaved [] ys ys := (nil_right ys).symm

theorem eq_of_nil_left (h : Interleaved [] ys zs) : zs = ys := by
  induction ys generalizing zs with
  | nil =>
    cases h
    rfl
  | cons a ys ih =>
    cases h with
    | right _ h => rw [ih h]

/-- Two stretches, each interleaved. -/
theorem append (h : Interleaved xs ys zs) (h' : Interleaved us vs ws) : Interleaved (xs ++ us) (ys ++ vs) (zs ++ ws) := by
  induction h with
  | nil => exact h'
  | left a _ ih => exact .left a ih
  | right a _ ih => exact .right a ih

theorem concat (xs ys : List α) : Interleaved xs ys (xs ++ ys) := by
  have h := (nil_right xs).append (nil_left ys)
  rwa [List.append_nil, List.nil_append] at h

/-- Out of `ws` come `ys` and what is left, out of that `us` and `xs`. -/
theorem regroup (h : Interleaved zs ys ws) : ∀ {xs us}, Interleaved xs us zs →
    ∃ vs, Interleaved us ys vs ∧ Interleaved xs vs ws := by
  induction h with
  | nil =>
    intro xs us hin
    cases hin
    exact ⟨[], .nil, .nil⟩
  | left a _ ih =>
    intro xs us hin
    cases hin with
    | left _ hin =>
      obtain ⟨vs, hvs, hws⟩ := ih hin
      exact ⟨vs, hvs, .left a hws⟩
    | right _ hin =>
      obtain ⟨vs, hvs, hws⟩ := ih hin
      exact ⟨a :: vs, .left a hvs, .right a hws⟩
  | right a _ ih =>
    intro xs us hin
    obtain ⟨vs, hvs, hws⟩ := ih hin
    exact ⟨a :: vs, .right a hvs, .right a hws⟩

end Interleaved

namespace InterleavedAll

variable {xs ys zs : List α} {xss yss : List (List α)}

theorem singleton (xs : List α) : InterleavedAll [xs] xs := ⟨[], .nil_right xs, rfl⟩

/-- An empty list takes no part. -/
theorem nil_cons : InterleavedAll ([] :: xss) zs ↔ InterleavedAll xss zs := by
  constructor
  · intro h
    obtain ⟨ys, hys, hall⟩ := h
    rwa [hys.eq_of_nil_left]
  · intro h
    exact ⟨zs, .nil_left zs, h⟩

/-- The lists that make up `xs` and those that make up `ys` make up an interleaving of both. -/
theorem join (h : InterleavedAll xss xs) (h' : InterleavedAll yss ys) (hz : Interleaved xs ys zs) :
    InterleavedAll (xss ++ yss) zs := by
  induction xss generalizing xs zs with
  | nil =>
    subst h
    rwa [hz.eq_of_nil_left]
  | cons us xss ih =>
    obtain ⟨vs, hvs, hall⟩ := h
    obtain ⟨rest, hrest, hus⟩ := hz.regroup hvs
    exact ⟨rest, hus, ih hall hrest⟩

/-- What was taken out first, and what was taken out of what that left. -/
theorem trans (h : InterleavedAll (xs :: xss) zs) (h' : InterleavedAll (ys :: yss) xs) :
    InterleavedAll (ys :: (xss ++ yss)) zs := by
  obtain ⟨first, hfirst, hxss⟩ := h
  obtain ⟨second, hsecond, hyss⟩ := h'
  obtain ⟨both, hboth, hys⟩ := hfirst.regroup hsecond
  exact ⟨both, hys, hxss.join hyss hboth.symm⟩

/-- What was taken out of two stretches. -/
theorem append {us vs : List α} (h : InterleavedAll (xs :: xss) us) (h' : InterleavedAll (ys :: yss) vs) :
    InterleavedAll ((xs ++ ys) :: (xss ++ yss)) (us ++ vs) := by
  obtain ⟨first, hfirst, hxss⟩ := h
  obtain ⟨second, hsecond, hyss⟩ := h'
  exact ⟨first ++ second, hfirst.append hsecond, hxss.join hyss (.concat first second)⟩

end InterleavedAll

end PiWebUi.Lib
