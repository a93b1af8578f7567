/-
  PiWebUi.Lib.Eventually — what comes about in an infinite run.

  `eventually_of_rank` is the rule for a goal that comes nearer again and again: while it
  has not come about, a later moment has it or is of a lower rank.
-/

import Mathlib.Data.Nat.Notation

namespace PiWebUi.Lib

theorem eventually_of_rank {Q : ℕ → Prop} (rank : ℕ → ℕ)
    (h : ∀ n, ¬ Q n → ∃ m, n ≤ m ∧ (Q m ∨ rank m < rank n)) (n : ℕ) : ∃ m, n ≤ m ∧ Q m := by
  induction hk : rank n using Nat.strongRecOn generalizing n with
  | ind k ih =>
    by_cases hn : Q n
    · exact ⟨n, Nat.le_refl n, hn⟩
    · obtain ⟨m, hm, hq | hlt⟩ := h n hn
      · exact ⟨m, hm, hq⟩
      · obtain ⟨m', hm', hq⟩ := ih (rank m) (hk ▸ hlt) m rfl
        exact ⟨m', Nat.le_trans hm hm', hq⟩

end PiWebUi.Lib
