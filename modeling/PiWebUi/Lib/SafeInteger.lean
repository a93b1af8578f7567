/-
  PiWebUi.Lib.SafeInteger — `Number.isSafeInteger`, and counts.

  A count is a safe integer that is not negative: a natural number below 2^53. The sum of
  two natural numbers is a safe integer just when it is below 2^53, and then it is exact
  (`isSafeInteger_add`, `add_nat`): what rounding gives of a larger sum is not below 2^53
  either.
-/

import PiWebUi.Lib.JsNumberOrder

namespace PiWebUi.Lib.JsNumber

/-- `Number.isSafeInteger(x)` -/
def isSafeInteger : JsNumber → Bool
  | fin q => q.den = 1 && q.num.natAbs < 2 ^ 53
  | _ => false

/-- `Number.isSafeInteger(x) && x >= 0` -/
def isCount (x : JsNumber) : Bool := x.isSafeInteger && (fin 0).le x

theorem isSafeInteger_nat {n : ℕ} : (fin n).isSafeInteger = true ↔ n < 2 ^ 53 := by
  rw [isSafeInteger, Rat.den_natCast, Rat.num_natCast, Int.natAbs_natCast]
  exact decide_eq_true_iff

theorem nat_le_nat {m n : ℕ} : (fin m).le (fin n) = true ↔ m ≤ n := by
  rw [le_fin]
  exact Nat.cast_le

theorem nat_lt_nat {m n : ℕ} : (fin m).lt (fin n) = true ↔ m < n := by
  simp [lt]

theorem isCount_nat {n : ℕ} : (fin n).isCount = true ↔ n < 2 ^ 53 := by
  have hzero : (fin 0).le (fin n) = true := by simpa using nat_le_nat.mpr (Nat.zero_le n)
  rw [isCount, hzero, Bool.and_true, isSafeInteger_nat]

theorem isCount_iff {x : JsNumber} : x.isCount = true ↔ ∃ n : ℕ, n < 2 ^ 53 ∧ x = fin n := by
  constructor
  · intro h
    obtain ⟨hsafe, hnonneg⟩ := Bool.and_eq_true_iff.mp h
    cases x with
    | fin q =>
      obtain ⟨hden, hnum⟩ := Bool.and_eq_true_iff.mp hsafe
      have hq : (0 : ℚ) ≤ q := le_fin.mp hnonneg
      have hvalue : q = (q.num.natAbs : ℕ) := by
        have hint : ((q.num : ℤ) : ℚ) = q := Rat.coe_int_num_of_den_eq_one (of_decide_eq_true hden)
        have habs : ((q.num.natAbs : ℤ) : ℚ) = q.num := congrArg Int.cast (Int.natAbs_of_nonneg (Rat.num_nonneg.mpr hq))
        rw [← Int.cast_natCast, habs, hint]
      exact ⟨q.num.natAbs, of_decide_eq_true hnum, congrArg fin hvalue⟩
    | _ => cases hsafe
  · rintro ⟨n, hn, rfl⟩
    exact isCount_nat.mpr hn

/-! ## Sums -/

theorem add_nat {m n : ℕ} (h : m + n < 2 ^ 53) : (fin m).add (fin n) = fin (m + n : ℕ) := by
  show roundBinary64 ((m : ℚ) + n) = _
  rw [← Nat.cast_add]
  exact roundBinary64_nat h

theorem roundBinary64_two_pow : roundBinary64 ((2 ^ 53 : ℕ) : ℚ) = fin (2 ^ 53 : ℕ) := by
  decide +kernel

/-- What is at least 2^53 is not rounded below it. -/
theorem not_isSafeInteger_round {n : ℕ} (h : 2 ^ 53 ≤ n) : (roundBinary64 (n : ℚ)).isSafeInteger = false := by
  have hmono : (roundBinary64 ((2 ^ 53 : ℕ) : ℚ)).le (roundBinary64 (n : ℚ)) = true :=
    roundBinary64_mono (by norm_num) (Nat.cast_le.mpr h)
  rw [roundBinary64_two_pow] at hmono
  by_contra hsafe
  have hzero : (fin 0).le (roundBinary64 (n : ℚ)) = true := by
    cases hround : roundBinary64 (n : ℚ) with
    | fin q =>
      rw [hround, le_fin] at hmono
      rw [le_fin]
      exact (Nat.cast_nonneg _).trans hmono
    | posInf => rfl
    | nan | negInf =>
      rw [hround] at hmono
      cases hmono
  obtain ⟨k, hk, hround⟩ := isCount_iff.mp (Bool.and_eq_true_iff.mpr ⟨Bool.not_eq_false _ ▸ hsafe, hzero⟩)
  rw [hround, nat_le_nat] at hmono
  omega

theorem isCount_round {n : ℕ} (h : (roundBinary64 (n : ℚ)).isSafeInteger = true) : (roundBinary64 (n : ℚ)).isCount = true := by
  by_cases hn : n < 2 ^ 53
  · rw [roundBinary64_nat hn]
    exact isCount_nat.mpr hn
  · rw [not_isSafeInteger_round (not_lt.mp hn)] at h
    cases h

theorem isSafeInteger_add {m n : ℕ} : ((fin m).add (fin n)).isSafeInteger = true ↔ m + n < 2 ^ 53 := by
  constructor
  · intro h
    by_contra hlarge
    have hround := not_isSafeInteger_round (not_lt.mp hlarge)
    rw [Nat.cast_add] at hround
    exact Bool.false_ne_true (hround.symm.trans h)
  · intro h
    rw [add_nat h]
    exact isSafeInteger_nat.mpr h

theorem isCount_add {m n : ℕ} : ((fin m).add (fin n)).isCount = true ↔ m + n < 2 ^ 53 := by
  constructor
  · intro h
    exact isSafeInteger_add.mp (Bool.and_eq_true_iff.mp h).1
  · intro h
    rw [add_nat h]
    exact isCount_nat.mpr h

end PiWebUi.Lib.JsNumber
