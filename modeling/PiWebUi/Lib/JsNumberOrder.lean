/-
  PiWebUi.Lib.JsNumberOrder — rounding keeps the order.

  `roundBinary64` of a larger rational is not smaller (`roundBinary64_mono`): within a
  binade both are rounded to one spacing, and across binades the power of two between
  them separates the results. So `Math.floor(x * a) <= Math.floor(x * b)` when `a <= b`
  and `x` is positive (`floor_mul_mono`).
-/

import PiWebUi.Lib.JsNumber

namespace PiWebUi.Lib.JsNumber

/-! ## Comparisons -/

theorem le_fin {a b : ℚ} : (fin a).le (fin b) = true ↔ a ≤ b := by
  simp [le, lt, le_iff_lt_or_eq]

variable {x y z a m : JsNumber} {q : ℚ}

theorem not_lt_of_le_of_le (hxy : x.le y = true) (hyz : y.le z = true) : z.lt x = false := by
  cases x <;> cases y <;> cases z <;> simp_all [le, lt]
  rcases hxy with hxy | rfl <;> rcases hyz with hyz | rfl <;> linarith

theorem lt_of_lt_of_le (hxy : x.lt y = true) (hyz : y.le z = true) : x.lt z = true := by
  cases x <;> cases y <;> cases z <;> simp_all [le, lt]
  rcases hyz with hyz | rfl
  · exact hxy.trans hyz
  · exact hxy

theorem lt_trans (hxy : x.lt y = true) (hyz : y.lt z = true) : x.lt z = true := by
  cases x <;> cases y <;> cases z <;> simp_all [lt]
  exact hxy.trans hyz

theorem lt_asymm (h : x.lt y = true) : y.lt x = false := by
  cases x <;> cases y <;> simp_all [lt]
  exact h.le

/-- What is at or above `x` is not below a `z` that `x` is not below. -/
theorem not_lt_of_not_lt_of_le (hz : x.lt z = false) (hy : x.le y = true) : y.lt z = false := by
  cases x <;> cases y <;> cases z <;> simp_all [le, lt]
  rcases hy with hy | rfl
  · exact hz.trans hy.le
  · exact hz

theorem floor_mono (h : x.le y = true) : x.floor.le y.floor = true := by
  cases x <;> cases y <;> simp_all [le, lt, floor]
  rcases h with h | rfl
  · exact (Int.floor_mono h.le).lt_or_eq
  · exact .inr rfl

theorem max_ne_nan (hx : x ≠ nan) (hy : y ≠ nan) : x.max y ≠ nan := by
  cases x <;> cases y <;> simp_all [max, lt]
  split <;> simp

theorem min_ne_nan (hx : x ≠ nan) (hy : y ≠ nan) : x.min y ≠ nan := by
  cases x <;> cases y <;> simp_all [min, lt]
  split <;> simp

theorem floor_ne_nan (hx : x ≠ nan) : x.floor ≠ nan := by
  cases x <;> simp_all [floor]

/-- For a number, `y >= x` is not `y < x`. -/
theorem le_eq_not_lt (hx : x ≠ nan) (q : ℚ) : x.le (fin q) = !(fin q).lt x := by
  cases x with
  | nan => exact absurd rfl hx
  | fin a =>
    rw [Bool.eq_iff_iff, le_fin]
    simp [lt]
  | _ => simp [le, lt]

theorem fin_le_eq_not_lt (hx : x ≠ nan) : (fin q).le x = !x.lt (fin q) := by
  cases x with
  | nan => exact absurd rfl hx
  | fin a =>
    rw [Bool.eq_iff_iff, le_fin]
    simp [lt]
  | _ => simp [le, lt]

/-! ## Rounding -/

theorem pow2_eq_zpow (e : ℤ) : pow2 e = (2 : ℚ) ^ e := by
  obtain ⟨k, rfl | rfl⟩ := Int.eq_nat_or_neg e
  · rw [pow2_natCast, zpow_natCast]
    push_cast
    rfl
  · rw [pow2_neg, zpow_neg, zpow_natCast]
    push_cast
    rw [one_div]

/-- A positive rational is in its binade. -/
theorem binade_spec (hq : 0 < q) : (2 : ℚ) ^ binade q ≤ q ∧ q < (2 : ℚ) ^ (binade q + 1) := by
  set a := Nat.log2 q.num.natAbs with ha
  set b := Nat.log2 q.den with hb
  have hnum : q.num.natAbs ≠ 0 := by
    rw [Int.natAbs_ne_zero]
    exact (Rat.num_pos.mpr hq).ne'
  have hn : (q.num.natAbs : ℚ) = q.num := by
    simpa only [Int.cast_natCast] using congrArg (fun z : ℤ => (z : ℚ)) (Int.natAbs_of_nonneg (Rat.num_pos.mpr hq).le)
  have hdpos : (0 : ℚ) < q.den := by exact_mod_cast q.den_pos
  have hval : q = q.num.natAbs / q.den := by
    rw [hn]
    exact (Rat.num_div_den q).symm
  have hna : ((2 ^ a : ℕ) : ℚ) ≤ q.num.natAbs := Nat.cast_le.mpr (Nat.log2_self_le hnum)
  have hna' : (q.num.natAbs : ℚ) < ((2 ^ (a + 1) : ℕ) : ℚ) := Nat.cast_lt.mpr (Nat.lt_log2_self)
  have hdb : ((2 ^ b : ℕ) : ℚ) ≤ q.den := Nat.cast_le.mpr (Nat.log2_self_le q.den_nz)
  have hdb' : (q.den : ℚ) < ((2 ^ (b + 1) : ℕ) : ℚ) := Nat.cast_lt.mpr (Nat.lt_log2_self)
  have hlow : (2 : ℚ) ^ ((a : ℤ) - b - 1) ≤ q := by
    rw [hval, le_div_iff₀ hdpos]
    calc (2 : ℚ) ^ ((a : ℤ) - b - 1) * q.den
        ≤ (2 : ℚ) ^ ((a : ℤ) - b - 1) * ((2 ^ (b + 1) : ℕ) : ℚ) := mul_le_mul_of_nonneg_left hdb'.le (zpow_pos two_pos _).le
      _ = (2 : ℚ) ^ (a : ℤ) := by
        rw [Nat.cast_pow, ← zpow_natCast, Nat.cast_ofNat, ← zpow_add₀ two_ne_zero]
        congr 1
        push_cast
        ring
      _ ≤ q.num.natAbs := by
        rw [zpow_natCast]
        exact_mod_cast hna
  have hhigh : q < (2 : ℚ) ^ ((a : ℤ) - b + 1) := by
    rw [hval, div_lt_iff₀ hdpos]
    calc (q.num.natAbs : ℚ) < ((2 ^ (a + 1) : ℕ) : ℚ) := hna'
      _ = (2 : ℚ) ^ ((a : ℤ) - b + 1) * ((2 ^ b : ℕ) : ℚ) := by
        rw [Nat.cast_pow, Nat.cast_pow, ← zpow_natCast, ← zpow_natCast, Nat.cast_ofNat, ← zpow_add₀ two_ne_zero]
        congr 1
        push_cast
        ring
      _ ≤ (2 : ℚ) ^ ((a : ℤ) - b + 1) * q.den := mul_le_mul_of_nonneg_left hdb (zpow_pos two_pos _).le
  simp only [binade, ← ha, ← hb, pow2_eq_zpow]
  split
  · next h => exact ⟨h, hhigh⟩
  · next h =>
    refine ⟨hlow, ?_⟩
    rw [sub_add_cancel]
    exact not_le.mp h

theorem binade_mono {p : ℚ} (hp : 0 < p) (h : p ≤ q) : binade p ≤ binade q := by
  by_contra hlt
  have hq := (binade_spec (hp.trans_le h)).2
  have : (2 : ℚ) ^ (binade q + 1) ≤ (2 : ℚ) ^ binade p := zpow_le_zpow_right₀ one_le_two (by omega)
  exact absurd (((binade_spec hp).1.trans h).trans_lt hq) (not_lt.mpr this)

theorem roundHalfEven_mono {x y : ℚ} (h : x ≤ y) : roundHalfEven x ≤ roundHalfEven y := by
  have hfloor : ⌊x⌋ ≤ ⌊y⌋ := Int.floor_mono h
  have hle : roundHalfEven x ≤ ⌊x⌋ + 1 := by
    simp only [roundHalfEven]
    split_ifs <;> omega
  have hge : ⌊y⌋ ≤ roundHalfEven y := by
    simp only [roundHalfEven]
    split_ifs <;> omega
  rcases hfloor.lt_or_eq with hlt | heq
  · omega
  · simp only [roundHalfEven, heq]
    split_ifs <;> first | omega | linarith

/-- The multiple of `2^e` a rational is rounded to. -/
def onGrid (e : ℤ) (q : ℚ) : ℚ := roundHalfEven (q / 2 ^ e) * 2 ^ e

def spacing (q : ℚ) : ℤ := Max.max (binade q - 52) (-1074)

theorem onGrid_mono (e : ℤ) {p : ℚ} (h : p ≤ q) : onGrid e p ≤ onGrid e q := by
  have hpos : (0 : ℚ) < 2 ^ e := zpow_pos two_pos e
  have hround : roundHalfEven (p / 2 ^ e) ≤ roundHalfEven (q / 2 ^ e) := roundHalfEven_mono (div_le_div_of_nonneg_right h hpos.le)
  exact mul_le_mul_of_nonneg_right (by exact_mod_cast hround) hpos.le

/-- A coarser power of two is on the grid. -/
theorem onGrid_zpow {e m : ℤ} (h : e ≤ m) : onGrid e ((2 : ℚ) ^ m) = 2 ^ m := by
  obtain ⟨k, rfl⟩ := Int.le.dest h
  have hne : (2 : ℚ) ^ e ≠ 0 := (zpow_pos two_pos e).ne'
  have hdiv : (2 : ℚ) ^ (e + (k : ℤ)) / 2 ^ e = ((2 ^ k : ℤ) : ℚ) := by
    rw [zpow_add₀ two_ne_zero, mul_div_cancel_left₀ _ hne, zpow_natCast]
    push_cast
    rfl
  rw [onGrid, hdiv, roundHalfEven_int, zpow_add₀ two_ne_zero, zpow_natCast]
  push_cast
  ring

theorem onGrid_spacing_mono {p : ℚ} (hp : 0 < p) (h : p ≤ q) : onGrid (spacing p) p ≤ onGrid (spacing q) q := by
  have hb := binade_mono hp h
  by_cases he : spacing p = spacing q
  · rw [he]
    exact onGrid_mono _ h
  -- the power of two that begins the larger one's binade is between them
  have hsp : spacing p ≤ binade q ∧ spacing q ≤ binade q ∧ binade p + 1 ≤ binade q := by
    simp only [spacing] at he ⊢
    omega
  calc onGrid (spacing p) p
      ≤ onGrid (spacing p) (2 ^ binade q) := onGrid_mono _
        ((binade_spec hp).2.le.trans (zpow_le_zpow_right₀ one_le_two hsp.2.2))
    _ = 2 ^ binade q := onGrid_zpow hsp.1
    _ = onGrid (spacing q) (2 ^ binade q) := (onGrid_zpow hsp.2.1).symm
    _ ≤ onGrid (spacing q) q := onGrid_mono _ (binade_spec (hp.trans_le h)).1

theorem roundBinary64_pos (hq : 0 < q) : roundBinary64 q =
    if pow2 overflowExponent ≤ onGrid (spacing q) q then posInf else fin (onGrid (spacing q) q) := by
  have hneg : ¬ q < 0 := not_lt.mpr hq.le
  simp only [roundBinary64, hq.ne', if_false, abs_of_pos hq, hneg, onGrid, spacing, pow2_eq_zpow]

theorem roundBinary64_mono {p : ℚ} (hp : 0 < p) (h : p ≤ q) : (roundBinary64 p).le (roundBinary64 q) = true := by
  have hgrid := onGrid_spacing_mono hp h
  rw [roundBinary64_pos hp, roundBinary64_pos (hp.trans_le h)]
  by_cases hover : pow2 overflowExponent ≤ onGrid (spacing q) q
  · rw [if_pos hover]
    split <;> rfl
  · rw [if_neg hover, if_neg fun hp' => hover (hp'.trans hgrid)]
    exact le_fin.mpr hgrid

theorem roundBinary64_ne_nan (q : ℚ) : roundBinary64 q ≠ nan := by
  simp only [roundBinary64]
  split_ifs <;> simp

theorem sub_ne_nan (hx : x.isFinite = true) (hy : y ≠ nan) : x.sub y ≠ nan := by
  cases x with
  | fin a => cases y <;> first | exact roundBinary64_ne_nan _ | simp_all [sub]
  | _ => cases hx

theorem roundBinary64_nonpos (hq : q ≤ 0) : (fin 0).lt (roundBinary64 q) = false := by
  rcases hq.lt_or_eq with hneg | rfl
  · have hgrid : 0 ≤ onGrid (spacing |q|) |q| := by
      have hmono := onGrid_mono (spacing |q|) (abs_nonneg q)
      have hzero : onGrid (spacing |q|) 0 = 0 := by simp [onGrid, roundHalfEven]
      rwa [hzero] at hmono
    simp only [onGrid, spacing] at hgrid
    simp only [roundBinary64, hneg.ne, hneg, if_false, if_true, pow2_eq_zpow]
    split
    · rfl
    · simpa [lt] using hgrid
  · simp [roundBinary64, lt]

theorem roundBinary64_neg (hq : q < 0) : roundBinary64 q =
    if pow2 overflowExponent ≤ onGrid (spacing |q|) |q| then negInf else fin (-onGrid (spacing |q|) |q|) := by
  simp only [roundBinary64, hq.ne, hq, if_false, if_true, onGrid, spacing, pow2_eq_zpow]

theorem roundBinary64_nonneg (hq : 0 ≤ q) : (fin 0).le (roundBinary64 q) = true := by
  rcases hq.lt_or_eq with hpos | rfl
  · have hgrid : 0 ≤ onGrid (spacing q) q := by
      have hmono := onGrid_mono (spacing q) hq
      have hzero : onGrid (spacing q) 0 = 0 := by simp [onGrid, roundHalfEven]
      rwa [hzero] at hmono
    rw [roundBinary64_pos hpos]
    split
    · rfl
    · exact le_fin.mpr hgrid
  · simp [roundBinary64, le]

/-- Rounding keeps the order of any two rationals. -/
theorem roundBinary64_le {p : ℚ} (h : p ≤ q) : (roundBinary64 p).le (roundBinary64 q) = true := by
  by_cases hp : 0 < p
  · exact roundBinary64_mono hp h
  by_cases hq : q < 0
  · -- below zero both are mirrored
    have hp' : p < 0 := h.trans_lt hq
    have hgrid := onGrid_spacing_mono (abs_pos.mpr hq.ne) (abs_le_abs_of_nonpos hq.le h)
    rw [roundBinary64_neg hp', roundBinary64_neg hq]
    by_cases hover : pow2 overflowExponent ≤ onGrid (spacing |p|) |p|
    · rw [if_pos hover]
      split <;> rfl
    · rw [if_neg hover, if_neg fun hq' => hover (hq'.trans hgrid)]
      exact le_fin.mpr (neg_le_neg hgrid)
  · have hlow := roundBinary64_nonpos (not_lt.mp hp)
    have hhigh := roundBinary64_nonneg (not_lt.mp hq)
    have hnan := roundBinary64_ne_nan p
    cases hrp : roundBinary64 p <;> cases hrq : roundBinary64 q <;> simp_all [le, lt]
    rename_i a b
    exact le_iff_lt_or_eq.mp (hlow.trans (hhigh.elim (fun h => h.le) (fun h => h.le)))

/-! ## Amounts added and taken -/

/-- What is not below `m` when more is taken is not when less is. -/
theorem sub_not_lt (hle : y.le x = true) (h : (a.sub x).lt m = false) : (a.sub y).lt m = false := by
  cases a with
  | nan | posInf => cases y <;> rfl
  | negInf =>
    cases y with
    | nan | negInf => rfl
    | posInf =>
      cases x <;> simp_all [le, lt, sub]
    | fin b =>
      cases x with
      | nan => cases hle
      | negInf => simp [le, lt] at hle
      | posInf | fin b' => exact h
  | fin a =>
    cases y with
    | nan | negInf => rfl
    | posInf => cases x <;> simp_all [le, lt, sub]
    | fin b =>
      cases x with
      | nan => cases hle
      | negInf => simp [le, lt] at hle
      | posInf => cases m <;> simp_all [lt, sub]
      | fin b' =>
        have hbb : b ≤ b' := le_fin.mp hle
        exact not_lt_of_not_lt_of_le h (roundBinary64_le (by linarith))

theorem max_not_lt : ((fin 0).max x).lt m = false ↔ x = nan ∨ (fin 0).lt m = false ∨ x.lt m = false := by
  cases x with
  | nan => simp [max, lt]
  | negInf | posInf => cases m <;> simp [max, lt]
  | fin q =>
    show (if (fin 0).lt (fin q) then fin q else fin 0).lt m = false ↔ _
    by_cases hq : (0 : ℚ) < q
    · cases m <;> simp [lt, hq]
      intro hm
      exact hm.trans hq.le
    · cases m <;> simp [lt, hq]
      intro hm
      exact hm.trans (not_lt.mp hq)

/-- The same of a remainder that stops at zero. -/
theorem max_sub_not_lt (hle : y.le x = true) (h : ((fin 0).max (a.sub x)).lt m = false) : ((fin 0).max (a.sub y)).lt m = false := by
  rw [max_not_lt] at h ⊢
  rcases h with hnan | hzero | hlt
  · have hm : (a.sub x).lt m = false := by
      rw [hnan]
      cases m <;> rfl
    exact .inr (.inr (sub_not_lt hle hm))
  · exact .inr (.inl hzero)
  · exact .inr (.inr (sub_not_lt hle hlt))

theorem le_trans_false (hle : y.le x = true) (h : m.le x = false) : m.le y = false := by
  cases m <;> cases x <;> cases y <;> simp_all [le, lt]
  rename_i a b d
  have hda : d < a := hle.elim (fun hd => hd.trans (lt_of_le_of_ne h.1 fun he => h.2 he.symm)) fun hd => hd ▸ lt_of_le_of_ne h.1 fun he => h.2 he.symm
  exact ⟨hda.le, hda.ne'⟩

theorem lt_of_le_of_lt (hxy : x.le y = true) (hyz : y.lt z = true) : x.lt z = true := by
  cases x <;> cases y <;> cases z <;> simp_all [le, lt]
  rcases hxy with hxy | rfl
  · exact hxy.trans hyz
  · exact hyz

/-- Less added to an amount does not reach what more does not; `-Infinity` is no amount to
    add an overflow to. -/
theorem add_not_le (ha : a ≠ negInf ∨ m ≠ negInf) (hy : (fin 0).le y = true) (hle : y.le x = true)
    (h : m.le (a.add x) = false) : m.le (a.add y) = false := by
  cases y with
  | nan => cases hle
  | negInf => cases hy
  | posInf =>
    cases x with
    | posInf => exact h
    | _ => simp_all [le, lt]
  | fin b =>
    cases a with
    | nan => cases m <;> rfl
    | posInf => cases x <;> simp_all [le, lt, add]
    | negInf =>
      cases m <;> simp_all [le, lt, add]
    | fin a =>
      cases x with
      | nan => cases hle
      | negInf => simp [le, lt] at hle
      | posInf => cases m <;> simp_all [le, lt, add]
      | fin b' =>
        have hbb : b ≤ b' := le_fin.mp hle
        exact le_trans_false (roundBinary64_le (by linarith)) h

theorem add_lt (hy : (fin 0).le y = true) (hle : y.le x = true) (h : (a.add x).lt m = true) : (a.add y).lt m = true := by
  cases y with
  | nan => cases hle
  | negInf => cases hy
  | posInf =>
    cases x with
    | posInf => exact h
    | _ => simp_all [le, lt]
  | fin b =>
    cases x with
    | nan => cases hle
    | negInf => simp [le, lt] at hle
    | posInf => cases a <;> cases m <;> simp_all [lt, add]
    | fin b' =>
      cases a with
      | fin a =>
        have hbb : b ≤ b' := le_fin.mp hle
        exact lt_of_le_of_lt (roundBinary64_le (by linarith)) h
      | _ => exact h

/-- A reservation a turn: fewer turns, not more reserved. -/
theorem mul_nat_mono {m n k : ℕ} (h : m ≤ n) : ((fin m).mul (fin k)).le ((fin n).mul (fin k)) = true := by
  have hcast : (m : ℚ) * k ≤ n * k := by exact_mod_cast Nat.mul_le_mul_right k h
  exact roundBinary64_le hcast

theorem mul_nat_nonneg (n k : ℕ) : (fin 0).le ((fin n).mul (fin k)) = true :=
  roundBinary64_nonneg (by positivity)

/-- What lies further back than a non-negative span stays further back. -/
theorem lt_sub_mono {span : JsNumber} (hspan : span.lt (fin 0) = false) (hle : x.le y = true) (h : span.lt (x.sub z) = true) :
    span.lt (y.sub z) = true := by
  cases x with
  | nan => cases hle
  | negInf => cases z <;> cases span <;> simp_all [lt, sub]
  | posInf =>
    cases y <;> simp_all [le, lt]
  | fin a =>
    cases z with
    | nan | posInf => cases span <;> simp_all [lt, sub]
    | negInf => cases y <;> simp_all [le, lt, sub]
    | fin b =>
      cases y with
      | nan => cases hle
      | negInf => simp_all [le, lt]
      | posInf => cases span <;> simp_all [lt, sub]
      | fin a' =>
        have haa : a ≤ a' := le_fin.mp hle
        have hpos : 0 < a - b := by
          by_contra hn
          have hround := roundBinary64_nonpos (not_lt.mp hn)
          change span.lt (roundBinary64 (a - b)) = true at h
          cases hr : roundBinary64 (a - b) <;> rw [hr] at h hround <;> cases span <;> simp_all [lt]
          linarith
        have hmono : (roundBinary64 (a - b)).le (roundBinary64 (a' - b)) = true := roundBinary64_mono hpos (by linarith)
        exact lt_of_lt_of_le h hmono

/-- `Math.floor(x * a) <= Math.floor(x * b)`. -/
theorem floor_mul_mono (hx : (fin 0).lt x = true) {a b : ℚ} (ha : 0 < a) (h : a ≤ b) :
    (x.mul (fin a)).floor.le (x.mul (fin b)).floor = true := by
  apply floor_mono
  cases x with
  | fin q =>
    have hq : 0 < q := of_decide_eq_true hx
    exact roundBinary64_mono (mul_pos hq ha) (mul_le_mul_of_nonneg_left h hq.le)
  | posInf =>
    have hinf : ∀ {c : ℚ}, 0 < c → posInf.mul (fin c) = posInf := fun {c} hc => by
      simp [mul, hc.ne', isNegative, not_lt.mpr hc.le]
    rw [hinf ha, hinf (ha.trans_le h)]
    rfl
  | negInf | nan => cases hx

end PiWebUi.Lib.JsNumber
