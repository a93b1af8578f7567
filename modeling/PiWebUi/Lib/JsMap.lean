/-
  PiWebUi.Lib.JsMap — JavaScript's `Map`: distinct keys, iterated in insertion order.

  `set` replaces a value where its key stands and appends a new key at the end;
  `delete` removes the key. A map cannot be built with a key twice. The rules are
  `get` after each operation, membership, and the sum of a weight over the entries,
  which running totals are compared with.
-/

import Mathlib.Data.List.Nodup
import Mathlib.Algebra.BigOperators.Group.List.Basic
import Mathlib.Algebra.Order.Ring.Nat

namespace PiWebUi.Lib

open List

structure JsMap (α β : Type) where
  entries : List (α × β)
  nodup : (entries.map (·.1)).Nodup

namespace JsMap

variable {α β : Type} [DecidableEq α]

instance [DecidableEq β] : DecidableEq (JsMap α β) := fun m n =>
  decidable_of_iff (m.entries = n.entries) ⟨fun h => by cases m; cases n; simp_all, fun h => h ▸ rfl⟩

def empty : JsMap α β := ⟨[], by simp⟩

def get (m : JsMap α β) (k : α) : Option β := (m.entries.find? (·.1 = k)).map (·.2)

def has (m : JsMap α β) (k : α) : Bool := m.entries.any (·.1 = k)

def keys (m : JsMap α β) : List α := m.entries.map (·.1)

def values (m : JsMap α β) : List β := m.entries.map (·.2)

def size (m : JsMap α β) : ℕ := m.entries.length

/-- Replace the value of `k` in a list of entries, where it stands. -/
def replace (k : α) (v : β) (es : List (α × β)) : List (α × β) := es.map fun e => if e.1 = k then (k, v) else e

theorem keys_replace (k : α) (v : β) (es : List (α × β)) : (replace k v es).map (·.1) = es.map (·.1) := by
  simp only [replace, List.map_map]
  refine map_congr_left fun e _ => ?_
  simp only [Function.comp]
  split <;> simp_all

variable {k : α} {m : JsMap α β}

theorem mem_keys_of_any {es : List (α × β)} : es.any (·.1 = k) = true ↔ k ∈ es.map (·.1) := by
  simp only [any_eq_true, decide_eq_true_eq, mem_map]

def set (m : JsMap α β) (k : α) (v : β) : JsMap α β :=
  if h : m.has k then ⟨replace k v m.entries, by rw [keys_replace]; exact m.nodup⟩
  else ⟨m.entries ++ [(k, v)], by
    rw [map_append, nodup_append]
    refine ⟨m.nodup, by simp, fun a ha b hb => ?_⟩
    rintro rfl
    simp only [map_cons, map_nil, mem_singleton] at hb
    exact h (mem_keys_of_any.mpr (hb ▸ ha))⟩

def delete (m : JsMap α β) (k : α) : JsMap α β :=
  ⟨m.entries.filter (·.1 ≠ k), m.nodup.sublist (filter_sublist.map _)⟩

/-! ## Lookup -/

theorem has_iff : m.has k = true ↔ k ∈ m.keys := mem_keys_of_any

theorem get_eq_some {v : β} : m.get k = some v ↔ (k, v) ∈ m.entries := by
  obtain ⟨es, hn⟩ := m
  simp only [get]
  induction es with
  | nil => simp
  | cons e es ih =>
    simp only [map_cons, nodup_cons] at hn
    by_cases h : e.1 = k
    · subst h
      simp only [find?_cons, decide_true, Option.map_some, Option.some.injEq, mem_cons]
      constructor
      · rintro rfl; exact .inl rfl
      · rintro (he | hm)
        · exact congrArg (·.2) he.symm
        · exact absurd (mem_map_of_mem (f := (·.1)) hm) hn.1
    · simp only [find?_cons, h, decide_false, mem_cons]
      rw [ih hn.2]
      exact ⟨.inr, fun hm => hm.resolve_left fun he => h (by rw [← he])⟩

theorem get_eq_none : m.get k = none ↔ k ∉ m.keys := by
  rw [← not_iff_not, not_not, ← ne_eq, Option.ne_none_iff_exists']
  constructor
  · rintro ⟨v, hv⟩
    exact mem_map.mpr ⟨_, get_eq_some.mp hv, rfl⟩
  · intro hk
    obtain ⟨⟨j, v⟩, he, rfl⟩ := mem_map.mp hk
    exact ⟨v, get_eq_some.mpr he⟩

theorem has_iff_get : m.has k = true ↔ (m.get k).isSome := by
  rw [has_iff, ← not_iff_not, ← get_eq_none]
  simp

theorem get_of_mem {e : α × β} (h : e ∈ m.entries) : m.get e.1 = some e.2 := get_eq_some.mpr h

@[simp] theorem get_empty (k : α) : (empty : JsMap α β).get k = none := rfl

theorem mem_set {v : β} {e : α × β} : e ∈ (m.set k v).entries ↔ e = (k, v) ∨ e.1 ≠ k ∧ e ∈ m.entries := by
  unfold set
  split
  · next h =>
    obtain ⟨⟨j, w⟩, hj, rfl⟩ := mem_map.mp (has_iff.mp h)
    simp only [replace, mem_map]
    constructor
    · rintro ⟨f, hf, rfl⟩
      split
      · exact .inl rfl
      · next hne => exact .inr ⟨hne, hf⟩
    · rintro (rfl | ⟨hne, he⟩)
      · exact ⟨_, hj, if_pos rfl⟩
      · exact ⟨e, he, if_neg hne⟩
  · next h =>
    simp only [mem_append, mem_singleton]
    constructor
    · rintro (he | rfl)
      · refine .inr ⟨fun hk => h (has_iff.mpr (mem_map.mpr ⟨e, he, hk⟩)), he⟩
      · exact .inl rfl
    · rintro (rfl | ⟨-, he⟩)
      · exact .inr rfl
      · exact .inl he

theorem mem_delete {e : α × β} : e ∈ (m.delete k).entries ↔ e.1 ≠ k ∧ e ∈ m.entries := by
  simp [delete, and_comm]

@[simp] theorem get_set_same (m : JsMap α β) (k : α) (v : β) : (m.set k v).get k = some v :=
  get_eq_some.mpr (mem_set.mpr (.inl rfl))

theorem get_set_ne (m : JsMap α β) {j : α} (v : β) (h : j ≠ k) : (m.set k v).get j = m.get j := by
  refine Option.ext fun w => ?_
  rw [get_eq_some, get_eq_some, mem_set]
  exact ⟨fun hm => (hm.resolve_left (by simp [h])).2, fun hm => .inr ⟨h, hm⟩⟩

theorem get_set (m : JsMap α β) (j k : α) (v : β) : (m.set k v).get j = if j = k then some v else m.get j := by
  split
  · next h => rw [h, get_set_same]
  · next h => exact get_set_ne m v h

theorem get_set_eq_some {m : JsMap α β} {j k : α} {v w : β} :
    (m.set k v).get j = some w ↔ j = k ∧ w = v ∨ j ≠ k ∧ m.get j = some w := by
  rw [get_set]
  by_cases h : j = k <;> simp [h, eq_comm]

@[simp] theorem get_delete_same (m : JsMap α β) (k : α) : (m.delete k).get k = none := by
  rw [get_eq_none]
  intro hk
  obtain ⟨e, he, rfl⟩ := mem_map.mp hk
  exact (mem_delete.mp he).1 rfl

theorem get_delete_ne (m : JsMap α β) {j : α} (h : j ≠ k) : (m.delete k).get j = m.get j := by
  refine Option.ext fun w => ?_
  rw [get_eq_some, get_eq_some, mem_delete]
  exact ⟨And.right, fun hm => ⟨h, hm⟩⟩

theorem get_delete (m : JsMap α β) (j k : α) : (m.delete k).get j = if j = k then none else m.get j := by
  split
  · next h => rw [h, get_delete_same]
  · next h => exact get_delete_ne m h

theorem get_delete_eq_some {m : JsMap α β} {j k : α} {w : β} :
    (m.delete k).get j = some w ↔ j ≠ k ∧ m.get j = some w := by
  rw [get_delete]
  by_cases h : j = k <;> simp [h]

theorem has_set (m : JsMap α β) (j k : α) (v : β) : (m.set k v).has j = true ↔ j = k ∨ m.has j = true := by
  rw [has_iff_get, has_iff_get, get_set]
  by_cases h : j = k <;> simp [h]

theorem has_delete (m : JsMap α β) (j k : α) : (m.delete k).has j = true ↔ j ≠ k ∧ m.has j = true := by
  rw [has_iff_get, has_iff_get, get_delete]
  by_cases h : j = k <;> simp [h]

theorem size_delete_le (m : JsMap α β) (k : α) : (m.delete k).size ≤ m.size := length_filter_le _ _

theorem size_ne_zero (h : m.has k = true) : m.size ≠ 0 := by
  intro h0
  have he : m.entries = [] := eq_nil_of_length_eq_zero h0
  simp [has, he] at h

omit [DecidableEq α] in
theorem nodup_keys (m : JsMap α β) : m.keys.Nodup := m.nodup

theorem set_entries_of_not_has (h : m.has k = false) (v : β) : (m.set k v).entries = m.entries ++ [(k, v)] := by
  simp [set, h]

theorem set_entries_of_has (h : m.has k = true) (v : β) : (m.set k v).entries = replace k v m.entries := by
  simp [set, h]

theorem delete_of_not_has (h : m.has k = false) : m.delete k = m := by
  obtain ⟨es, hn⟩ := m
  have hes : es.filter (·.1 ≠ k) = es := by
    refine filter_eq_self.mpr fun e he => ?_
    simp only [ne_eq, decide_not, Bool.not_eq_true', decide_eq_false_iff_not]
    rintro rfl
    exact Bool.eq_false_iff.mp h (has_iff.mpr (mem_map_of_mem he))
  simp only [delete, hes]

/-- What was put under a new key and taken away again leaves the map as it was. -/
theorem delete_set_of_not_has (h : m.has k = false) (v : β) : (m.set k v).delete k = m := by
  have hentries : ((m.set k v).delete k).entries = (m.delete k).entries := by
    simp [delete, set_entries_of_not_has h]
  rw [delete_of_not_has h] at hentries
  cases hm : (m.set k v).delete k
  cases m
  simp only [hm] at hentries
  subst hentries
  rfl

theorem get_foldl_set_aux {γ : Type} (f : Option β → γ → β) (k : α) : ∀ (es : List (α × γ)) (m : JsMap α β), (es.map (·.1)).Nodup →
    (es.foldl (fun n e => n.set e.1 (f (n.get e.1) e.2)) m).get k =
      ((es.find? (·.1 = k)).map (·.2)).elim (m.get k) fun c => some (f (m.get k) c)
  | [], _, _ => rfl
  | (j, c) :: es, m, hn => by
    simp only [map_cons, nodup_cons] at hn
    rw [foldl_cons, get_foldl_set_aux f k es _ hn.2]
    by_cases h : j = k
    · subst h
      have hnone : es.find? (·.1 = j) = none := by
        rw [find?_eq_none]
        intro e he hj
        exact hn.1 (mem_map.mpr ⟨e, he, of_decide_eq_true hj⟩)
      rw [hnone, find?_cons_of_pos (by simp), get_set_same]
      rfl
    · rw [find?_cons_of_neg (by simpa using h), get_set_ne m _ (Ne.symm h)]

/-- Writing every entry of `n` into `m`, each over what `m` has under its key. -/
theorem get_foldl_set {γ : Type} (f : Option β → γ → β) (n : JsMap α γ) (m : JsMap α β) (k : α) :
    (n.entries.foldl (fun s e => s.set e.1 (f (s.get e.1) e.2)) m).get k = (n.get k).elim (m.get k) fun c => some (f (m.get k) c) :=
  get_foldl_set_aux f k n.entries m n.nodup

/-! ## Weights -/

/-- The sum of a weight over the entries. -/
def sum (m : JsMap α β) (w : α × β → ℕ) : ℕ := (m.entries.map w).sum

/-- The weight of one key; none weighs nothing. -/
def weight (m : JsMap α β) (w : α × β → ℕ) (k : α) : ℕ := ((m.get k).map fun v => w (k, v)).getD 0

theorem sum_filter_ne (w : α × β → ℕ) (k : α) : ∀ es : List (α × β), (es.map (·.1)).Nodup →
    ((es.filter (·.1 ≠ k)).map w).sum + (((es.find? (·.1 = k)).map (·.2)).map fun v => w (k, v)).getD 0 = (es.map w).sum
  | [], _ => rfl
  | (j, x) :: es, hn => by
    simp only [map_cons, nodup_cons] at hn
    by_cases h : j = k
    · subst h
      have hall : es.filter (·.1 ≠ j) = es := filter_eq_self.mpr fun f hf => by
        simp only [ne_eq, decide_not, Bool.not_eq_true', decide_eq_false_iff_not]
        rintro rfl
        exact hn.1 (mem_map_of_mem hf)
      rw [filter_cons_of_neg (by simp), hall, find?_cons_of_pos (by simp)]
      simp only [Option.map_some, Option.getD_some, map_cons, sum_cons]
      omega
    · have ih := sum_filter_ne w k es hn.2
      rw [filter_cons_of_pos (by simpa using h), find?_cons_of_neg (by simpa using h)]
      simp only [map_cons, sum_cons]
      omega

theorem sum_delete (m : JsMap α β) (w : α × β → ℕ) (k : α) : (m.delete k).sum w + m.weight w k = m.sum w :=
  sum_filter_ne w k m.entries m.nodup

theorem replace_of_not_mem {v : β} {es : List (α × β)} (h : k ∉ es.map (·.1)) : replace k v es = es := by
  refine (map_congr_left fun f hf => if_neg ?_).trans (List.map_id es)
  rintro rfl
  exact h (mem_map_of_mem hf)

theorem sum_replace (w : α × β → ℕ) (k : α) (v : β) : ∀ es : List (α × β), (es.map (·.1)).Nodup → k ∈ es.map (·.1) →
    ((replace k v es).map w).sum + (((es.find? (·.1 = k)).map (·.2)).map fun v => w (k, v)).getD 0 = (es.map w).sum + w (k, v)
  | [], _, hk => by simp at hk
  | (j, x) :: es, hn, hk => by
    simp only [map_cons, nodup_cons, mem_cons] at hn hk
    by_cases h : j = k
    · subst h
      have hall := replace_of_not_mem (v := v) hn.1
      rw [find?_cons_of_pos (by simp)]
      simp only [replace, map_cons, if_true, sum_cons] at hall ⊢
      rw [hall]
      simp only [Option.map_some, Option.getD_some]
      omega
    · have ih := sum_replace w k v es hn.2 (hk.resolve_left (Ne.symm h))
      rw [find?_cons_of_neg (by simpa using h)]
      simp only [replace, map_cons, h, if_false, sum_cons] at ih ⊢
      omega

theorem sum_set (m : JsMap α β) (w : α × β → ℕ) (k : α) (v : β) : (m.set k v).sum w + m.weight w k = m.sum w + w (k, v) := by
  by_cases h : m.has k = true
  · rw [sum, set_entries_of_has h]
    exact sum_replace w k v m.entries m.nodup (has_iff.mp h)
  · have hget : m.get k = none := get_eq_none.mpr fun hk => h (has_iff.mpr hk)
    rw [sum, set_entries_of_not_has (by simpa using h)]
    simp [weight, hget, sum]

end JsMap

end PiWebUi.Lib
