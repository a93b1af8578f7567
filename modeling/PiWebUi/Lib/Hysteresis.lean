/-
  PiWebUi.Lib.Hysteresis — a latch over a stream of readings.

  The latch is set when `n` consecutive readings were `high` and cleared by a reading that
  is `low`. It is set exactly when some `n` consecutive readings were high and none since
  was low (`latched_iff`), for a positive `n` and readings that are not both; with `n = 0`,
  or a reading that is both, it is not (`not_latched_zero`, `not_latched_both`).
-/

import Mathlib.Data.List.Induction
import Mathlib.Tactic.SplitIfs

namespace PiWebUi.Lib.Hysteresis

variable {α : Type}

structure Latch where
  latched : Bool
  /-- The consecutive high readings up to now. -/
  streak : ℕ
  deriving DecidableEq

def Latch.off : Latch := ⟨false, 0⟩

section

variable (high low : α → Bool) (n : ℕ)

def streakAfter (streak : ℕ) (a : α) : ℕ := if high a then streak + 1 else 0

def observe (s : Latch) (a : α) : Latch where
  latched :=
    if !s.latched && decide (n ≤ streakAfter high s.streak a) then true
    else if s.latched && low a then false
    else s.latched
  streak := streakAfter high s.streak a

def run (xs : List α) : Latch := xs.foldl (observe high low n) .off

/-- There were `n` consecutive high readings, and no low one since. -/
def Sustained (xs : List α) : Prop :=
  ∃ before highs after, xs = before ++ highs ++ after ∧ highs.length = n ∧ (∀ a ∈ highs, high a = true) ∧ ∀ a ∈ after, low a = false

variable {high low n}

theorem run_concat (xs : List α) (a : α) : run high low n (xs ++ [a]) = observe high low n (run high low n xs) a := by
  simp [run]

/-- The streak is the length of the high readings at the end. -/
theorem streak_spec (xs : List α) : ∃ before highs, xs = before ++ highs ∧ highs.length = (run high low n xs).streak ∧
    (∀ a ∈ highs, high a = true) ∧ ∀ before' highs', xs = before' ++ highs' → (∀ a ∈ highs', high a = true) →
      highs'.length ≤ (run high low n xs).streak := by
  induction xs using List.reverseRecOn with
  | nil =>
    refine ⟨[], [], rfl, rfl, by simp, fun before' highs' h _ => ?_⟩
    have hnil : highs' = [] := (List.append_eq_nil_iff.mp h.symm).2
    simp [hnil]
  | append_singleton xs a ih =>
    obtain ⟨before, highs, hsplit, hlen, hhigh, hmax⟩ := ih
    rw [run_concat]
    show ∃ before highs, _ ∧ _ = streakAfter high _ a ∧ _ ∧ ∀ before' highs', _ → _ → _ ≤ streakAfter high _ a
    unfold streakAfter
    cases ha : high a with
    | true =>
      refine ⟨before, highs ++ [a], by simp [hsplit], by simp [hlen], fun x hx => ?_, fun before' highs' h hall => ?_⟩
      · rcases List.mem_append.mp hx with hx | hx
        · exact hhigh x hx
        · exact List.mem_singleton.mp hx ▸ ha
      · rcases List.eq_nil_or_concat highs' with rfl | ⟨rest, last, rfl⟩
        · exact Nat.zero_le _
        · have hprefix : xs = before' ++ rest := by
            have hlast : xs ++ [a] = (before' ++ rest) ++ [last] := by simp [h]
            exact (List.append_inj' hlast rfl).1
          have hle := hmax before' rest hprefix fun x hx => hall x (by simp [hx])
          simp only [List.concat_eq_append, List.length_append, List.length_singleton, if_true]
          omega
    | false =>
      refine ⟨xs ++ [a], [], by simp, rfl, by simp, fun before' highs' h hall => ?_⟩
      rcases List.eq_nil_or_concat highs' with rfl | ⟨rest, last, rfl⟩
      · exact Nat.zero_le _
      · have hlast : xs ++ [a] = (before' ++ rest) ++ [last] := by simp [h]
        have hsame : a = last := List.singleton_inj.mp (List.append_inj' hlast rfl).2
        have hlasthigh := hall last (by simp)
        rw [← hsame, ha] at hlasthigh
        cases hlasthigh

/-- A reading keeps what was sustained, or completes a streak. -/
theorem sustained_concat (xs : List α) (a : α) :
    Sustained high low n (xs ++ [a]) ↔ n ≤ streakAfter high (run high low n xs).streak a ∨ Sustained high low n xs ∧ low a = false := by
  constructor
  · rintro ⟨before, highs, after, hsplit, hlen, hhigh, hlow⟩
    rcases List.eq_nil_or_concat after with rfl | ⟨rest, last, rfl⟩
    · left
      obtain ⟨_, _, _, _, _, hmax⟩ := @streak_spec _ high low n (xs ++ [a])
      have hle := hmax before highs (by simpa using hsplit) hhigh
      rw [run_concat, hlen] at hle
      exact hle
    · right
      have hlast : xs ++ [a] = (before ++ highs ++ rest) ++ [last] := by simp [hsplit]
      obtain ⟨hinit, hsame⟩ := List.append_inj' hlast rfl
      obtain rfl := List.singleton_inj.mp hsame
      exact ⟨⟨before, highs, rest, hinit, hlen, hhigh, fun x hx => hlow x (by simp [hx])⟩, hlow a (by simp)⟩
  · rintro (hstreak | ⟨⟨before, highs, after, rfl, hlen, hhigh, hlow⟩, ha⟩)
    · obtain ⟨before, highs, hsplit, hlen, hhigh, _⟩ := @streak_spec _ high low n (xs ++ [a])
      rw [run_concat] at hlen
      change highs.length = streakAfter high _ a at hlen
      have hle : n ≤ highs.length := hlen ▸ hstreak
      refine ⟨before ++ highs.take (highs.length - n), highs.drop (highs.length - n), [], ?_, ?_, fun x hx => hhigh x (List.mem_of_mem_drop hx), by simp⟩
      · rw [List.append_nil, List.append_assoc, List.take_append_drop]
        exact hsplit
      · rw [List.length_drop]
        omega
    · refine ⟨before, highs, after ++ [a], by simp, hlen, hhigh, fun x hx => ?_⟩
      rcases List.mem_append.mp hx with hx | hx
      · exact hlow x hx
      · exact List.mem_singleton.mp hx ▸ ha

theorem not_sustained_nil (hn : n ≠ 0) : ¬ Sustained high low n ([] : List α) := by
  rintro ⟨before, highs, after, hsplit, hlen, _, _⟩
  have hnil : highs = [] := by
    have h := (List.append_eq_nil_iff.mp hsplit.symm).1
    exact (List.append_eq_nil_iff.mp h).2
  rw [hnil] at hlen
  exact hn hlen.symm

theorem latched_iff (hn : n ≠ 0) (hboth : ∀ a, high a = true → low a = false) (xs : List α) :
    (run high low n xs).latched = true ↔ Sustained high low n xs := by
  induction xs using List.reverseRecOn with
  | nil => exact ⟨fun h => (Bool.false_ne_true h).elim, fun h => absurd h (not_sustained_nil hn)⟩
  | append_singleton xs a ih =>
    rw [sustained_concat, ← ih, run_concat]
    have hlowstreak : low a = true → ¬ n ≤ streakAfter high (run high low n xs).streak a := by
      intro hlow hle
      have hnothigh : high a = false := by
        by_contra hhigh
        cases hlow.symm.trans (hboth a (Bool.not_eq_false _ ▸ hhigh))
      rw [streakAfter, hnothigh] at hle
      exact hn (Nat.le_zero.mp hle)
    simp only [observe]
    cases hl : (run high low n xs).latched <;> cases ha : low a
    · simp
    · simpa using hlowstreak ha
    · simp
    · simpa using hlowstreak ha

/-! ## Where the rule fails -/

/-- No reading is needed to set the latch, but one is needed to clear it. -/
theorem not_latched_zero {a : α} (hlow : low a = true) : (run high low 0 [a, a]).latched = false ∧ Sustained high low 0 [a, a] := by
  refine ⟨?_, [a, a], [], [], rfl, rfl, by simp, by simp⟩
  simp [run, observe, Latch.off, hlow]

theorem run_replicate {a : α} (hhigh : high a = true) (m : ℕ) (hm : m ≤ n) (hn : n ≠ 0) :
    run high low n (List.replicate m a) = ⟨decide (m = n), m⟩ := by
  induction m with
  | zero => simp [run, Latch.off, Ne.symm hn]
  | succ m ih =>
    have hne : m ≠ n := by omega
    rw [List.replicate_succ', run_concat, ih (by omega)]
    simp only [observe, streakAfter, hhigh, if_true, hne, decide_false, Bool.not_false, Bool.true_and, Bool.false_and, Bool.false_eq_true, if_false]
    by_cases h : m + 1 = n
    · simp [h]
    · have hlt : ¬ n ≤ m + 1 := by omega
      simp [h, hlt]

/-- A reading that is both clears the latch that it would have set. -/
theorem not_latched_both (hn : n ≠ 0) {a : α} (hhigh : high a = true) (hlow : low a = true) :
    (run high low n (List.replicate (n + 1) a)).latched = false ∧ Sustained high low n (List.replicate (n + 1) a) := by
  constructor
  · rw [List.replicate_succ', run_concat, run_replicate hhigh n (Nat.le_refl n) hn]
    simp [observe, hlow]
  · refine ⟨[a], List.replicate n a, [], by simp [List.replicate_succ], List.length_replicate, fun x hx => ?_, by simp⟩
    rw [List.eq_of_mem_replicate hx]
    exact hhigh

end

/-! ## Gaps -/

section

variable (gap : α → α → Bool)

def joinGap (seg : List α) (a : α) : List α := if seg.getLast?.any (gap · a) then [a] else seg ++ [a]

def sinceGap (xs : List α) : List α := xs.foldl (joinGap gap) []

theorem sinceGap_concat (xs : List α) (a : α) : sinceGap gap (xs ++ [a]) = joinGap gap (sinceGap gap xs) a := by
  simp [sinceGap]

theorem getLast_sinceGap (xs : List α) : (sinceGap gap xs).getLast? = xs.getLast? := by
  induction xs using List.reverseRecOn with
  | nil => rfl
  | append_singleton xs a _ =>
    rw [sinceGap_concat, joinGap]
    split <;> simp

theorem sinceGap_replicate {gap : α → α → Bool} {a : α} (h : gap a a = false) (m : ℕ) :
    sinceGap gap (List.replicate m a) = List.replicate m a := by
  induction m with
  | zero => rfl
  | succ m ih =>
    rw [List.replicate_succ', sinceGap_concat, ih, joinGap]
    cases m with
    | zero => rfl
    | succ m => simp [List.getLast?_replicate, h]

end

end PiWebUi.Lib.Hysteresis
