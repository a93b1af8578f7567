/-
  PiWebUi.Lib.LastWriter — a record that keeps the stamp of its newest write.

  A write is applied or refused by the record it arrives at; an applied one stamps the
  record, and none is applied over a newer stamp. So the applied writes of a run carry
  rising stamps (`applied_sorted`), the refused ones might as well not have been sent
  (`foldl_applied`), and a field ends as the applied write with the largest stamp among
  those that assign it left it (`field_of_latest`), whatever order the writes came in:
  two runs that apply the same writes leave the same fields (`field_eq_of_same_applied`).
-/

import Mathlib.Order.WithBot
import Mathlib.Data.Finset.Max

namespace PiWebUi.Lib.LastWriter

open List

variable {σ ε τ : Type}

/-- The writes of `es` that the record, as the earlier ones left it, applies. -/
def applied (step : σ → ε → σ) (applies : σ → ε → Bool) : σ → List ε → List ε
  | _, [] => []
  | s, e :: es => (if applies s e then [e] else []) ++ applied step applies (step s e) es

section

variable {step : σ → ε → σ} {applies : σ → ε → Bool}

theorem applied_append (s : σ) (es fs : List ε) :
    applied step applies s (es ++ fs) = applied step applies s es ++ applied step applies (es.foldl step s) fs := by
  induction es generalizing s with
  | nil => rfl
  | cons e es ih => simp [applied, ih]

theorem mem_of_mem_applied {s : σ} {es : List ε} {e : ε} (h : e ∈ applied step applies s es) : e ∈ es := by
  induction es generalizing s with
  | nil => simp [applied] at h
  | cons d es ih =>
    rw [applied, mem_append] at h
    rcases h with h | h
    · split at h
      · exact mem_cons.mpr (.inl (mem_singleton.mp h))
      · cases h
    · exact mem_cons_of_mem d (ih h)

/-- A refused write leaves the record as it was. -/
def Refuses (step : σ → ε → σ) (applies : σ → ε → Bool) : Prop := ∀ s e, applies s e = false → step s e = s

end

/-! ## Stamps -/

variable [LinearOrder τ] {step : σ → ε → σ} {applies : σ → ε → Bool} {newest : σ → WithBot τ} {stamp : ε → τ}

/-- An applied write is not older than the record and leaves its stamp on it. -/
structure Stamped (step : σ → ε → σ) (applies : σ → ε → Bool) (newest : σ → WithBot τ) (stamp : ε → τ) : Prop where
  refuses : Refuses step applies
  not_older : ∀ s e, applies s e = true → newest s ≤ stamp e
  stamps : ∀ s e, applies s e = true → newest (step s e) = stamp e

theorem newest_le_step (h : Stamped step applies newest stamp) (s : σ) (e : ε) : newest s ≤ newest (step s e) := by
  by_cases he : applies s e = true
  · rw [h.stamps s e he]
    exact h.not_older s e he
  · rw [h.refuses s e (by simpa using he)]

theorem newest_le_applied (h : Stamped step applies newest stamp) {s : σ} {es : List ε} {e : ε}
    (he : e ∈ applied step applies s es) : newest s ≤ stamp e := by
  induction es generalizing s with
  | nil => simp [applied] at he
  | cons d es ih =>
    rw [applied, mem_append] at he
    rcases he with he | he
    · split at he
      · next hd =>
        obtain rfl := mem_singleton.mp he
        exact h.not_older s e hd
      · cases he
    · exact (newest_le_step h s d).trans (ih he)

/-- The stamp of a record after a run: no applied write, and no earlier stamp, is newer. -/
theorem newest_foldl_le_iff (h : Stamped step applies newest stamp) (s : σ) (es : List ε) (t : τ) :
    newest (es.foldl step s) ≤ t ↔ newest s ≤ t ∧ ∀ e ∈ applied step applies s es, stamp e ≤ t := by
  induction es generalizing s with
  | nil => simp [applied]
  | cons d es ih =>
    rw [foldl_cons, ih (step s d)]
    by_cases hd : applies s d = true
    · rw [h.stamps s d hd, applied, if_pos hd]
      constructor
      · rintro ⟨hle, hes⟩
        refine ⟨(h.not_older s d hd).trans hle, ?_⟩
        intro e he
        rcases mem_append.mp he with he | he
        · obtain rfl := mem_singleton.mp he
          exact WithBot.coe_le_coe.mp hle
        · exact hes e he
      · rintro ⟨-, hes⟩
        exact ⟨WithBot.coe_le_coe.mpr (hes d (by simp)), fun e he => hes e (mem_append_right _ he)⟩
    · rw [h.refuses s d (by simpa using hd), applied, if_neg hd, h.refuses s d (by simpa using hd), nil_append]

/-! ## Fields -/

variable {φ : Type} {field : σ → φ} {assigns : ε → Option φ}

/-- An applied write assigns its own fields and leaves the others. -/
def Assigns (step : σ → ε → σ) (applies : σ → ε → Bool) (field : σ → φ) (assigns : ε → Option φ) : Prop :=
  ∀ s e, applies s e = true → field (step s e) = (assigns e).getD (field s)

theorem field_of_none (h : Refuses step applies) (hf : Assigns step applies field assigns) {s : σ} {es : List ε}
    (hn : ∀ e ∈ applied step applies s es, assigns e = none) : field (es.foldl step s) = field s := by
  induction es generalizing s with
  | nil => rfl
  | cons d es ih =>
    rw [foldl_cons, ih fun e he => hn e (mem_append_right _ he)]
    by_cases hd : applies s d = true
    · rw [hf s d hd, hn d (by simp [applied, hd])]
      rfl
    · rw [h s d (by simpa using hd)]

/-- The applied write with the largest stamp among those that assign the field has it. -/
theorem field_of_latest (h : Stamped step applies newest stamp) (hf : Assigns step applies field assigns) {s : σ}
    {es : List ε} (hd : ∀ d ∈ es, ∀ e ∈ es, stamp d = stamp e → d = e) {e : ε} {v : φ}
    (he : e ∈ applied step applies s es) (hv : assigns e = some v)
    (hmax : ∀ d ∈ applied step applies s es, (assigns d).isSome → stamp d ≤ stamp e) : field (es.foldl step s) = v := by
  induction es generalizing s with
  | nil => simp [applied] at he
  | cons d es ih =>
    have hes : ∀ a ∈ es, ∀ b ∈ es, stamp a = stamp b → a = b := fun a ha b hb =>
      hd a (mem_cons_of_mem d ha) b (mem_cons_of_mem d hb)
    rw [foldl_cons]
    by_cases hlater : e ∈ applied step applies (step s d) es
    · exact ih hes hlater fun a ha => hmax a (mem_append_right _ ha)
    · have happ : applies s d = true ∧ e = d := by
        rw [applied, mem_append] at he
        have hnow := he.resolve_right hlater
        split at hnow
        · next hdt => exact ⟨hdt, mem_singleton.mp hnow⟩
        · cases hnow
      obtain ⟨hdt, rfl⟩ := happ
      -- a later applied write that assigns the field would be newer, or `e` delivered again
      have hnone : ∀ a ∈ applied step applies (step s e) es, assigns a = none := by
        intro a ha
        by_contra hsome
        have hle : stamp a ≤ stamp e :=
          hmax a (mem_append_right _ ha) (Option.isSome_iff_ne_none.mpr hsome)
        have hge := newest_le_applied h ha
        rw [h.stamps s e hdt] at hge
        have heq : stamp a = stamp e := le_antisymm hle (WithBot.coe_le_coe.mp hge)
        obtain rfl := hd a (mem_cons_of_mem e (mem_of_mem_applied ha)) e (mem_cons_self ..) heq
        exact hlater ha
      rw [field_of_none h.refuses hf hnone, hf s e hdt, hv]
      rfl

theorem exists_newest (l : List ε) (stamp : ε → τ) (hne : l ≠ []) : ∃ e ∈ l, ∀ d ∈ l, stamp d ≤ stamp e := by
  classical
  obtain ⟨a, ha⟩ := exists_mem_of_ne_nil l hne
  obtain ⟨e, he, hmax⟩ := l.toFinset.exists_max_image stamp ⟨a, List.mem_toFinset.mpr ha⟩
  exact ⟨e, List.mem_toFinset.mp he, fun d hd => hmax d (List.mem_toFinset.mpr hd)⟩

theorem field_eq_of_same_applied (h : Stamped step applies newest stamp) (hf : Assigns step applies field assigns)
    {s : σ} {es fs : List ε} (hes : ∀ d ∈ es, ∀ e ∈ es, stamp d = stamp e → d = e)
    (hfs : ∀ d ∈ fs, ∀ e ∈ fs, stamp d = stamp e → d = e)
    (hsame : ∀ e, e ∈ applied step applies s es ↔ e ∈ applied step applies s fs) :
    field (es.foldl step s) = field (fs.foldl step s) := by
  by_cases hnone : (applied step applies s es).filter (fun e => (assigns e).isSome) = []
  · have hn : ∀ e ∈ applied step applies s es, assigns e = none := by
      intro e he
      have := filter_eq_nil_iff.mp hnone e he
      simpa using this
    rw [field_of_none h.refuses hf hn, field_of_none h.refuses hf fun e he => hn e ((hsame e).mpr he)]
  · obtain ⟨e, he, hmax⟩ := exists_newest _ stamp hnone
    obtain ⟨hea, hes'⟩ := mem_filter.mp he
    obtain ⟨v, hv⟩ := Option.isSome_iff_exists.mp hes'
    have hle : ∀ d ∈ applied step applies s es, (assigns d).isSome → stamp d ≤ stamp e := fun d hd hds =>
      hmax d (mem_filter.mpr ⟨hd, hds⟩)
    rw [field_of_latest h hf hes hea hv hle]
    exact (field_of_latest h hf hfs ((hsame e).mp hea) hv fun d hd => hle d ((hsame d).mpr hd)).symm

end PiWebUi.Lib.LastWriter
