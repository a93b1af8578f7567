/-
  PiWebUi.Lib.FirstIndex — a map that answers what a search for the first item with a key
  would, kept up to date item by item.

  `key x` is the key of an item, if it has one. `Indexes key m l` says that for every key
  the map has the first item of `l` with it. Adding an item puts it in the map where its
  key is free; taking one out deletes its key where the map has it there. The rules say
  what that does to `Indexes`: an item at the end may always be added (`Indexes.append`),
  and for a replacement in place (`indexes_replace_iff`) and for a deletion whose
  candidates are added again (`indexes_delete_iff`) exactly when it still holds.
-/

import PiWebUi.Lib.JsMap

namespace PiWebUi.Lib.FirstIndex

open List Option

variable {ρ κ : Type} [DecidableEq ρ] [DecidableEq κ] {key : ρ → Option κ} {m : JsMap κ ρ} {l a b : List ρ} {x y : ρ}

/-- The first item with the key. -/
def first (key : ρ → Option κ) (l : List ρ) (k : κ) : Option ρ := l.find? (key · = some k)

def add (key : ρ → Option κ) (m : JsMap κ ρ) (x : ρ) : JsMap κ ρ :=
  match key x with
  | some k => if m.has k then m else m.set k x
  | none => m

def remove (key : ρ → Option κ) (m : JsMap κ ρ) (x : ρ) : JsMap κ ρ :=
  match key x with
  | some k => if m.get k = some x then m.delete k else m
  | none => m

def Indexes (key : ρ → Option κ) (m : JsMap κ ρ) (l : List ρ) : Prop := ∀ k, m.get k = first key l k

omit [DecidableEq ρ] in
theorem first_append (l l' : List ρ) (k : κ) : first key (l ++ l') k = (first key l k).or (first key l' k) :=
  find?_append

omit [DecidableEq ρ] in
theorem first_cons (x : ρ) (l : List ρ) (k : κ) : first key (x :: l) k = if key x = some k then some x else first key l k := by
  by_cases h : key x = some k <;> simp [first, h]

variable {k : κ} {p : ρ → Bool}

omit [DecidableEq ρ] in
theorem first_eq_some (h : first key l k = some x) : x ∈ l ∧ key x = some k :=
  ⟨mem_of_find?_eq_some h, by simpa using find?_some h⟩

omit [DecidableEq ρ] in
theorem first_eq_none : first key l k = none ↔ ∀ x ∈ l, key x ≠ some k := by
  simp [first, find?_eq_none]

omit [DecidableEq ρ] in
theorem first_filter_none (h : first key l k = none) : first key (l.filter p) k = none := by
  rw [first_eq_none] at h ⊢
  intro x hx
  exact h x (mem_filter.mp hx).1

omit [DecidableEq ρ] in
theorem first_filter_all (h : ∀ x, key x = some k → p x = true) : first key (l.filter p) k = first key l k := by
  rw [first, find?_filter, first]
  congr 1
  funext x
  by_cases hx : key x = some k
  · simp [hx, h x hx]
  · simp [hx]

omit [DecidableEq ρ] in
theorem first_filter_kept (h : first key l k = some x) (hp : p x = true) : first key (l.filter p) k = some x := by
  induction l with
  | nil => cases h
  | cons y l ih =>
    rw [first_cons] at h
    by_cases hy : key y = some k
    · rw [if_pos hy] at h
      obtain rfl := some.inj h
      rw [filter_cons_of_pos hp, first_cons, if_pos hy]
    · rw [if_neg hy] at h
      by_cases hpy : p y = true
      · rw [filter_cons_of_pos hpy, first_cons, if_neg hy, ih h]
      · rw [filter_cons_of_neg hpy, ih h]

omit [DecidableEq ρ] in
theorem first_congr {key' : ρ → Option κ} (h : ∀ x ∈ l, key x = key' x) (k : κ) : first key l k = first key' l k := by
  induction l with
  | nil => rfl
  | cons x l ih =>
    rw [first_cons, first_cons, h x mem_cons_self, ih fun z hz => h z (mem_cons_of_mem x hz)]

omit [DecidableEq ρ] in
theorem get_add (m : JsMap κ ρ) (x : ρ) (k : κ) : (add key m x).get k = (m.get k).or (if key x = some k then some x else none) := by
  unfold add
  split
  · next j hj =>
    rw [hj]
    split
    · next hhas =>
      by_cases hk : j = k
      · subst hk
        obtain ⟨z, hz⟩ := isSome_iff_exists.mp (JsMap.has_iff_get.mp hhas)
        simp [hz]
      · simp [hk]
    · next hhas =>
      rw [JsMap.get_set]
      by_cases hk : k = j
      · subst hk
        have hnone : m.get k = none := by
          rw [← not_isSome_iff_eq_none, ← JsMap.has_iff_get]
          exact hhas
        simp [hnone]
      · simp [hk, Ne.symm hk]
  · next hj => simp [hj]

theorem get_remove (m : JsMap κ ρ) (x : ρ) (k : κ) :
    (remove key m x).get k = if key x = some k ∧ m.get k = some x then none else m.get k := by
  unfold remove
  split
  · next j hj =>
    rw [hj]
    split
    · next hget =>
      rw [JsMap.get_delete]
      by_cases hk : k = j
      · subst hk
        simp [hget]
      · simp [hk, Ne.symm hk]
    · next hget =>
      by_cases hk : k = j
      · subst hk
        simp [hget]
      · simp [Ne.symm hk]
  · next hj => simp [hj]

omit [DecidableEq ρ] in
theorem get_foldl_add (l : List ρ) (m : JsMap κ ρ) (k : κ) : (l.foldl (add key) m).get k = (m.get k).or (first key l k) := by
  induction l generalizing m with
  | nil => simp [first]
  | cons x l ih =>
    rw [foldl_cons, ih, get_add, first_cons, Option.or_assoc]
    by_cases h : key x = some k <;> simp [h]

omit [DecidableEq ρ] in
/-- The map built from the list. -/
theorem indexes_build (key : ρ → Option κ) (l : List ρ) : Indexes key (l.foldl (add key) JsMap.empty) l := by
  intro k
  rw [get_foldl_add, JsMap.get_empty, none_or]

omit [DecidableEq ρ] in
theorem Indexes.append (h : Indexes key m l) (x : ρ) : Indexes key (add key m x) (l ++ [x]) := by
  intro k
  rw [get_add, h k, first_append, first_cons]
  rfl

omit [DecidableEq ρ] in
theorem Indexes.congr {key' : ρ → Option κ} (h : Indexes key m l) (hkey : ∀ x ∈ l, key x = key' x) : Indexes key' m l := by
  intro k
  rw [h k, first_congr hkey]

omit [DecidableEq ρ] in
theorem Indexes.mem (h : Indexes key m l) (hx : m.get k = some x) : x ∈ l :=
  (first_eq_some ((h k).symm.trans hx)).1

/-- An item replaced in place: its old and its new key must not be those of a later item,
    unless an earlier one has them too. -/
theorem indexes_replace_iff (h : Indexes key m (a ++ x :: b)) (hxa : x ∉ a) (hyb : y ∉ b) :
    Indexes key (add key (remove key m x) y) (a ++ y :: b) ↔
      (key x ≠ key y → ∀ k, (key x = some k ∨ key y = some k) → first key a k = none → first key b k = none) := by
  have hold : ∀ k, m.get k = (first key a k).or (if key x = some k then some x else first key b k) := by
    intro k
    rw [h k, first_append, first_cons]
  constructor
  · intro h' hne k hk ha
    have hafter := h' k
    have hnow := hold k
    rw [get_add, get_remove, first_append, first_cons, ha, none_or] at hafter
    rw [ha, none_or] at hnow
    rcases hk with hx | hy
    · -- The old key is deleted, so no later item may have it.
      have hy : key y ≠ some k := fun hy => hne (hx.trans hy.symm)
      rw [if_pos hx] at hnow
      rw [if_pos ⟨hx, hnow⟩, if_neg hy, none_or] at hafter
      rw [if_neg hy] at hafter
      exact hafter.symm
    · -- The new key may not have been taken by a later item.
      have hx : key x ≠ some k := fun hx => hne (hx.trans hy.symm)
      rw [if_neg hx] at hnow
      rw [if_neg fun hboth => hx hboth.1, if_pos hy, if_pos hy, hnow] at hafter
      cases hb : first key b k with
      | none => rfl
      | some z =>
        rw [hb] at hafter
        obtain rfl : z = y := some.inj hafter
        exact absurd (first_eq_some hb).1 hyb
  · intro hcond k
    rw [get_add, get_remove, first_append, first_cons, hold k]
    cases ha : first key a k with
    | some z =>
      have hzx : z ≠ x := fun heq => hxa (heq ▸ (first_eq_some ha).1)
      simp [hzx]
    | none =>
      by_cases hx : key x = some k
      · by_cases hy : key y = some k
        · simp [hx, hy]
        · have hne : key x ≠ key y := fun heq => hy (heq ▸ hx)
          simp [hx, hy, hcond hne k (Or.inl hx) ha]
      · by_cases hy : key y = some k
        · have hne : key x ≠ key y := fun heq => hx (heq ▸ hy)
          simp [hx, hy, hcond hne k (Or.inr hy) ha]
        · simp [hx, hy]

/-- What was kept of the list, with the deleted item's keys restored: no other item that went
    was the first with its key. -/
theorem indexes_delete_iff (h : Indexes key m l) {keep candidate : ρ → Bool}
    (hcandidate : ∀ k z, key x = some k → key z = some k → candidate z = true) :
    Indexes key (((l.filter keep).filter candidate).foldl (add key) (remove key m x)) (l.filter keep) ↔
      ∀ k z, first key l k = some z → z ≠ x → keep z = true := by
  constructor
  · intro h' k z hz hzx
    have hafter := h' k
    rw [get_foldl_add, get_remove, h k, hz, if_neg fun hboth => hzx (some.inj hboth.2), some_or] at hafter
    have hmem := (first_eq_some hafter.symm).1
    exact (mem_filter.mp hmem).2
  · intro hkeep k
    rw [get_foldl_add, get_remove, h k]
    cases hz : first key l k with
    | none =>
      rw [first_filter_none hz, first_filter_none (first_filter_none hz)]
      simp
    | some z =>
      by_cases hzx : z = x
      · -- The deleted item was indexed: the first of the candidates is the first of the rest.
        have hk : key x = some k := hzx ▸ (first_eq_some hz).2
        rw [if_pos ⟨hk, congrArg some hzx⟩, none_or]
        exact first_filter_all fun w hw => hcandidate k w hk hw
      · rw [if_neg fun hboth => hzx (some.inj hboth.2), some_or, first_filter_kept hz (hkeep k z hz hzx)]

end PiWebUi.Lib.FirstIndex
