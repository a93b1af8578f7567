/-
  PiWebUi.Lib.JsNumber — JavaScript numbers.

  A number is NaN, an infinity, or a finite value given as the rational it is; the
  two zeros are one value, as they are under `===` and every comparison. `Math.floor`,
  `Math.min`, `Math.max` and the comparisons follow the language: a comparison with NaN
  is false and NaN is contagious. `roundBinary64` is the rounding a decimal literal and
  every arithmetic result goes through (ties to even, overflow to an infinity), and
  `toText` is `Number::toString` in base ten.
-/

import Mathlib.Data.Rat.Floor
import Mathlib.Data.Nat.Digits.Lemmas
import Mathlib.Data.Nat.Log
import Mathlib.Tactic.Ring
import Mathlib.Tactic.Linarith
import Mathlib.Tactic.NormNum
import Mathlib.Algebra.Order.Field.Rat
import PiWebUi.Lib.JsString

namespace PiWebUi.Lib

open List

inductive JsNumber where
  | nan
  | negInf
  | posInf
  | fin (q : ℚ)
  deriving DecidableEq

namespace JsNumber

instance : Coe ℚ JsNumber := ⟨fin⟩

def isFinite : JsNumber → Bool
  | fin _ => true
  | _ => false

/-- `a < b`. -/
def lt : JsNumber → JsNumber → Bool
  | fin a, fin b => a < b
  | negInf, fin _ | negInf, posInf | fin _, posInf => true
  | _, _ => false

/-- `a <= b`. -/
def le : JsNumber → JsNumber → Bool
  | nan, _ | _, nan => false
  | a, b => a.lt b || a == b

def floor : JsNumber → JsNumber
  | fin q => fin ⌊q⌋
  | x => x

/-- `Math.max(a, b)`. -/
def max : JsNumber → JsNumber → JsNumber
  | nan, _ | _, nan => nan
  | a, b => if a.lt b then b else a

/-- `Math.min(a, b)`. -/
def min : JsNumber → JsNumber → JsNumber
  | nan, _ | _, nan => nan
  | a, b => if b.lt a then b else a

/-! ## Rounding -/

def pow2 (e : ℤ) : ℚ := if 0 ≤ e then (2 ^ e.toNat : ℕ) else 1 / (2 ^ (-e).toNat : ℕ)

/-- The exponent of the binade of a positive rational. -/
def binade (q : ℚ) : ℤ :=
  let e : ℤ := Nat.log2 q.num.natAbs - Nat.log2 q.den
  if pow2 e ≤ q then e else e - 1

/-- Values from 2^1024 on overflow. -/
def overflowExponent : ℕ := 1024

def roundHalfEven (q : ℚ) : ℤ :=
  let f := ⌊q⌋
  if q - f < 1 / 2 then f
  else if 1 / 2 < q - f then f + 1
  else if f % 2 = 0 then f else f + 1

/-- The binary64 value nearest to `q`. -/
def roundBinary64 (q : ℚ) : JsNumber :=
  if q = 0 then fin 0
  else
    let e := Max.max (binade |q| - 52) (-1074)
    let v := roundHalfEven (|q| / pow2 e) * pow2 e
    if pow2 overflowExponent ≤ v then (if q < 0 then negInf else posInf)
    else fin (if q < 0 then -v else v)

/-- `a + b`. -/
def add : JsNumber → JsNumber → JsNumber
  | fin a, fin b => roundBinary64 (a + b)
  | nan, _ | _, nan | posInf, negInf | negInf, posInf => nan
  | posInf, _ | _, posInf => posInf
  | negInf, _ | _, negInf => negInf

/-- `a - b`. -/
def sub : JsNumber → JsNumber → JsNumber
  | fin a, fin b => roundBinary64 (a - b)
  | nan, _ | _, nan | posInf, posInf | negInf, negInf => nan
  | posInf, _ | _, negInf => posInf
  | negInf, _ | _, posInf => negInf

def isNegative : JsNumber → Bool
  | negInf => true
  | fin q => q < 0
  | _ => false

/-- `a * b`. -/
def mul : JsNumber → JsNumber → JsNumber
  | fin a, fin b => roundBinary64 (a * b)
  | nan, _ | _, nan => nan
  | a, b =>
    if a = fin 0 ∨ b = fin 0 then nan
    else if a.isNegative = b.isNegative then posInf else negInf

/-- `a / n`, for a positive `n`. -/
def divNat : JsNumber → ℕ → JsNumber
  | fin a, n => roundBinary64 (a / n)
  | a, _ => a

theorem roundHalfEven_int (z : ℤ) : roundHalfEven (z : ℚ) = z := by
  simp [roundHalfEven]

theorem pow2_natCast (k : ℕ) : pow2 k = (2 ^ k : ℕ) := by
  simp [pow2]

theorem pow2_neg (k : ℕ) : pow2 (-(k : ℤ)) = 1 / (2 ^ k : ℕ) := by
  by_cases hk : k = 0
  · simp [pow2, hk]
  · have : ¬ (0 : ℤ) ≤ -(k : ℤ) := by omega
    rw [pow2, if_neg this, neg_neg, Int.toNat_natCast]

variable {n : ℕ} {x y : JsNumber}

theorem binade_nat (hn : n ≠ 0) : binade (n : ℚ) = Nat.log2 n := by
  have hden : (n : ℚ).den = 1 := Rat.den_natCast n
  have hnum : (n : ℚ).num.natAbs = n := by simp
  have hle : pow2 (Nat.log2 n : ℤ) ≤ (n : ℚ) := by
    rw [pow2_natCast]
    exact Nat.cast_le.mpr (Nat.log2_self_le hn)
  simp only [binade, hden, hnum]
  have h1 : Nat.log2 1 = 0 := by decide
  simp [h1, hle]

/-- Integers below 2^53 are exact. -/
theorem roundBinary64_nat (h : n < 2 ^ 53) : roundBinary64 (n : ℚ) = fin n := by
  by_cases hn : n = 0
  · subst hn; simp [roundBinary64]
  have hpos : (0 : ℚ) < n := by exact_mod_cast Nat.pos_of_ne_zero hn
  have hlog : Nat.log2 n < 53 := (Nat.log2_lt hn).mpr h
  set k := 52 - Nat.log2 n with hk
  have he : Max.max ((Nat.log2 n : ℤ) - 52) (-1074) = -(k : ℤ) := by omega
  have h2k : ((2 ^ k : ℕ) : ℚ) ≠ 0 := by positivity
  have hq : (n : ℚ) / (1 / ((2 ^ k : ℕ) : ℚ)) = ((n * 2 ^ k : ℕ) : ℤ) := by
    push_cast; field_simp
  have hv : ((n * 2 ^ k : ℕ) : ℤ) * (1 / ((2 ^ k : ℕ) : ℚ)) = n := by
    push_cast; field_simp
  have hbig : ¬ pow2 overflowExponent ≤ (n : ℚ) := by
    rw [pow2_natCast]
    have h53 : 2 ^ 53 ≤ 2 ^ overflowExponent := Nat.pow_le_pow_right (by norm_num) (by decide)
    exact not_le.mpr (Nat.cast_lt.mpr (lt_of_lt_of_le h h53))
  have hneg : ¬ (n : ℚ) < 0 := not_lt.mpr hpos.le
  simp only [roundBinary64, ne_of_gt hpos, if_false, abs_of_pos hpos, binade_nat hn, he, pow2_neg, hq,
    roundHalfEven_int, hv, hbig, hneg]

/-! ## Whole numbers -/

/-- No finite value has a fraction. -/
def Whole : JsNumber → Prop
  | fin q => ∃ z : ℤ, q = z
  | _ => True

theorem whole_nat (n : ℕ) : Whole (fin n) := ⟨n, by simp⟩

theorem whole_floor (x : JsNumber) : Whole x.floor := by
  cases x with
  | fin q => exact ⟨⌊q⌋, rfl⟩
  | _ => trivial

theorem whole_ite (b : Prop) [Decidable b] (hx : Whole x) (hy : Whole y) : Whole (if b then x else y) := by
  split
  · exact hx
  · exact hy

theorem whole_max (hx : Whole x) (hy : Whole y) : Whole (x.max y) := by
  cases x <;> cases y <;> first | trivial | exact whole_ite _ hy hx

theorem whole_min (hx : Whole x) (hy : Whole y) : Whole (x.min y) := by
  cases x <;> cases y <;> first | trivial | exact whole_ite _ hy hx

/-- Rounding a whole number gives a whole number: below 2^53 it is exact, above it the
    spacing of the values is a power of two. -/
theorem whole_roundBinary64 (z : ℤ) : Whole (roundBinary64 z) := by
  have habs : |(z : ℚ)| = ((z.natAbs : ℤ) : ℚ) := by simp
  set e : ℤ := Max.max (binade |(z : ℚ)| - 52) (-1074) with he
  obtain ⟨v, hv⟩ : ∃ v : ℤ, roundHalfEven (|(z : ℚ)| / pow2 e) * pow2 e = v := by
    by_cases h0 : 0 ≤ e
    · obtain ⟨k, hk⟩ := Int.eq_ofNat_of_zero_le h0
      exact ⟨roundHalfEven (|(z : ℚ)| / pow2 e) * (2 ^ k : ℕ), by rw [hk, pow2_natCast]; push_cast; rfl⟩
    · obtain ⟨k, hk⟩ : ∃ k : ℕ, e = -(k : ℤ) := ⟨e.natAbs, by omega⟩
      refine ⟨z.natAbs, ?_⟩
      have h2 : ((2 ^ k : ℕ) : ℚ) ≠ 0 := by positivity
      have hq : |(z : ℚ)| / pow2 e = ((z.natAbs * 2 ^ k : ℕ) : ℤ) := by
        rw [habs, hk, pow2_neg]; push_cast; field_simp
      rw [hq, roundHalfEven_int, hk, pow2_neg]
      push_cast; field_simp
  simp only [roundBinary64, ← he, hv]
  split
  · exact ⟨0, by simp⟩
  · refine whole_ite _ (whole_ite _ trivial trivial) ?_
    split
    · exact ⟨-v, by push_cast; rfl⟩
    · exact ⟨v, rfl⟩

theorem whole_sub (hx : Whole x) (hy : Whole y) : Whole (x.sub y) := by
  cases x with
  | fin a =>
    cases y with
    | fin b =>
      obtain ⟨m, rfl⟩ := hx
      obtain ⟨n, rfl⟩ := hy
      show Whole (roundBinary64 (m - n))
      rw [← Int.cast_sub]
      exact whole_roundBinary64 _
    | _ => trivial
  | _ => cases y <;> trivial

/-- A whole bound that is not reached still holds one more. -/
theorem not_lt_succ (hx : Whole x) (h : x.le (fin n) = false) : x.lt (fin (n + 1 : ℕ)) = false := by
  cases x with
  | fin q =>
    obtain ⟨z, rfl⟩ := hx
    simp only [le, lt, Bool.or_eq_false_iff, decide_eq_false_iff_not, not_lt] at h ⊢
    have hle : (n : ℚ) ≤ z := h.1
    have hne : (z : ℚ) ≠ n := by simpa using h.2
    have hzn : z ≠ n := fun e => hne (by rw [e]; simp)
    have hle' : (n : ℤ) ≤ z := by exact_mod_cast hle
    have : (n + 1 : ℕ) ≤ z := by push_cast; omega
    exact_mod_cast this
  | negInf => simp [le, lt] at h
  | _ => rfl

theorem not_lt_of_le {m : ℕ} (hmn : m ≤ n) (h : x.lt (fin n) = false) : x.lt (fin m) = false := by
  cases x with
  | fin q =>
    simp only [lt, decide_eq_false_iff_not, not_lt] at h ⊢
    exact le_trans (by exact_mod_cast hmn) h
  | negInf => simp [lt] at h
  | _ => rfl

theorem not_max_lt (x y : JsNumber) : (x.max y).lt x = false := by
  cases x with
  | fin a =>
    cases y with
    | fin b =>
      show (if decide (a < b) = true then fin b else fin a).lt (fin a) = false
      split
      · next h => simpa [lt] using le_of_lt (of_decide_eq_true h)
      · simp [lt]
    | _ => simp [max, lt]
  | _ => cases y <;> rfl

/-! ## Decimal text -/

def natText (n : ℕ) : JsString :=
  if n = 0 then [48] else (Nat.digits 10 n).reverse.map fun d => (48 + d).toUInt16

def zeros (n : ℕ) : JsString := List.replicate n 48

/-- The `n` with `10^(n-1) ≤ q < 10^n`, for a positive rational. -/
def decimalExponent (q : ℚ) : ℤ :=
  if 1 ≤ q then (Nat.digits 10 ⌊q⌋.toNat).length
  else 1 - ((List.range 400).find? fun k => (1 : ℚ) ≤ q * (10 ^ k : ℕ)).getD 0

def pow10 (e : ℤ) : ℚ := if 0 ≤ e then (10 ^ e.toNat : ℕ) else 1 / (10 ^ (-e).toNat : ℕ)

/-- The `k` digits `s` and the exponent `n` whose `s × 10^(n-k)` rounds to `q`, the
    closest ones when two do. Rounding up may reach the next power of ten. -/
def digitsOfLength (q : ℚ) (k : ℕ) : Option (ℕ × ℤ) :=
  let n := decimalExponent q
  let low := ⌊q * pow10 (k - n)⌋.toNat
  let good s := roundBinary64 (s * pow10 (n - k)) = fin q ∧ 10 ^ (k - 1) ≤ s
  let dist s := |(s : ℚ) * pow10 (n - k) - q|
  if good low ∧ (¬ good (low + 1) ∨ dist low ≤ dist (low + 1)) then some (low, n)
  else if good (low + 1) then
    if low + 1 = 10 ^ k then some (10 ^ (k - 1), n + 1) else some (low + 1, n)
  else none

def positiveText (q : ℚ) : JsString :=
  let (s, n) := ((List.range 17).findSome? fun k => digitsOfLength q (k + 1)).getD (0, 0)
  let ds := natText s
  let k := ds.length
  if k ≤ n ∧ n ≤ 21 then ds ++ zeros (n.toNat - k)
  else if 0 < n ∧ n ≤ 21 then ds.take n.toNat ++ unit '.' :: ds.drop n.toNat
  else if -6 < n ∧ n ≤ 0 then js "0." ++ zeros (-n).toNat ++ ds
  else
    let mantissa := if k = 1 then ds else ds.take 1 ++ unit '.' :: ds.drop 1
    mantissa ++ (if 0 < n then js "e+" else js "e-") ++ natText (n - 1).natAbs

/-- `String(x)`. An integer below 2^53 has no shorter decimal that rounds to it, so
    its text is its digits. -/
def toText : JsNumber → JsString
  | nan => js "NaN"
  | posInf => js "Infinity"
  | negInf => js "-Infinity"
  | fin q =>
    if q = q.num.natAbs ∧ q.num.natAbs < 2 ^ 53 then natText q.num.natAbs
    else if q < 0 then unit '-' :: positiveText (-q)
    else positiveText q

theorem toText_nat (h : n < 2 ^ 53) : toText (fin n) = natText n := by
  have hq : (n : ℚ).num.natAbs = n := by simp
  simp only [toText, hq, h, and_self, if_true]

/-! ## Reading digits -/

def digitsValue (ds : JsString) : ℕ := ds.foldl (fun a d => 10 * a + (d.toNat - 48)) 0

theorem natText_ne_nil (n : ℕ) : natText n ≠ [] := by
  unfold natText
  split
  · simp
  · simpa using Nat.digits_ne_nil_iff_ne_zero.mpr ‹_›

theorem digit_unit {d : ℕ} (h : d < 10) : (48 + d).toUInt16.toNat = 48 + d := by
  simp only [UInt16.toNat_ofNat', Nat.reducePow]; omega

theorem natText_digits {u : UInt16} (h : u ∈ natText n) : isDigit u = true := by
  unfold natText at h
  split at h
  · simp only [mem_singleton] at h; subst h; decide
  · obtain ⟨d, hd, rfl⟩ := mem_map.mp h
    have hlt : d < 10 := Nat.digits_lt_base (by norm_num) (mem_reverse.mp hd)
    have := digit_unit hlt
    simp only [isDigit, Bool.and_eq_true, decide_eq_true_eq, UInt16.le_iff_toNat_le, this]
    exact ⟨by simp, by simp; omega⟩

theorem foldl_digits (ds : List ℕ) (h : ∀ d ∈ ds, d < 10) (a : ℕ) :
    (ds.map fun d => (48 + d).toUInt16).foldl (fun a d => 10 * a + (d.toNat - 48)) a = ds.foldl (fun a d => 10 * a + d) a := by
  induction ds generalizing a with
  | nil => rfl
  | cons d ds ih =>
    simp only [map_cons, foldl_cons, digit_unit (h d (by simp))]
    rw [ih (fun x hx => h x (by simp [hx]))]
    congr 1; omega

/-- The text of a natural number reads back as the number. -/
theorem digitsValue_natText (n : ℕ) : digitsValue (natText n) = n := by
  unfold natText
  split
  · simp_all [digitsValue]
  · have hlt : ∀ d ∈ (Nat.digits 10 n).reverse, d < 10 := fun d hd =>
      Nat.digits_lt_base (by norm_num) (mem_reverse.mp hd)
    rw [digitsValue, foldl_digits _ hlt, foldl_reverse]
    have := Nat.ofDigits_eq_foldr 10 (Nat.digits 10 n)
    rw [Nat.ofDigits_digits] at this
    conv_rhs => rw [this]
    congr 1
    funext d a
    simp; ring

theorem natText_injective : Function.Injective natText := fun m n h => by
  rw [← digitsValue_natText m, h, digitsValue_natText]

/-- Only zero starts with the digit zero. -/
theorem natText_head (hn : n ≠ 0) {u : UInt16} {r : JsString} (h : natText n = u :: r) : u ≠ 48 := by
  rw [natText, if_neg hn] at h
  have hl := Nat.getLast_digit_ne_zero 10 hn
  have hne : Nat.digits 10 n ≠ [] := Nat.digits_ne_nil_iff_ne_zero.mpr hn
  obtain ⟨ds, d, hds⟩ := eq_nil_or_concat' (Nat.digits 10 n) |>.resolve_left hne
  have hd : d ≠ 0 := by simpa [hds] using hl
  have hlt : d < 10 := Nat.digits_lt_base (b := 10) (m := n) (by norm_num) (by simp [hds])
  simp only [hds, reverse_append, reverse_cons, reverse_nil, nil_append, singleton_append,
    map_cons, List.cons.injEq] at h
  rintro rfl
  have := digit_unit hlt
  rw [h.1] at this
  simp at this
  omega

/-! ## The characters of a number -/

/-- A digit, a sign, a point or a letter: no space, no control, nothing beyond ASCII. -/
def Graphic (u : UInt16) : Prop := 32 < u.toNat ∧ u.toNat < 128

/-- For a fixed text: the check by evaluation. -/
theorem graphic_of_all {s : JsString} (h : s.all (fun u => decide (32 < u.toNat ∧ u.toNat < 128)) = true) : ∀ u ∈ s, Graphic u :=
  fun u hu => by simpa [Graphic] using all_eq_true.mp h u hu

theorem graphic_natText {u : UInt16} (h : u ∈ natText n) : Graphic u := by
  have hd := natText_digits h
  simp only [isDigit, Bool.and_eq_true, decide_eq_true_eq, UInt16.le_iff_toNat_le, UInt16.reduceToNat] at hd
  exact ⟨by omega, by omega⟩

theorem graphic_zeros {u : UInt16} (h : u ∈ zeros n) : Graphic u := by
  cases eq_of_mem_replicate h
  exact ⟨by decide, by decide⟩

theorem graphic_point {ds : JsString} (h : ∀ u ∈ ds, Graphic u) (k : ℕ) : ∀ u ∈ ds.take k ++ unit '.' :: ds.drop k, Graphic u := by
  intro u hu
  rcases mem_append.mp hu with hu | hu
  · exact h u (mem_of_mem_take hu)
  · rcases mem_cons.mp hu with rfl | hu
    · exact ⟨by decide, by decide⟩
    · exact h u (mem_of_mem_drop hu)

theorem graphic_append {s t : JsString} (hs : ∀ u ∈ s, Graphic u) (ht : ∀ u ∈ t, Graphic u) : ∀ u ∈ s ++ t, Graphic u := by
  intro u hu
  exact (mem_append.mp hu).elim (hs u) (ht u)

theorem graphic_positiveText (q : ℚ) : ∀ u ∈ positiveText q, Graphic u := by
  have hn : ∀ n, ∀ u ∈ natText n, Graphic u := fun n u => graphic_natText
  have hz : ∀ n, ∀ u ∈ zeros n, Graphic u := fun n u => graphic_zeros
  unfold positiveText
  dsimp only
  split_ifs
  · exact graphic_append (hn _) (hz _)
  · exact graphic_point (hn _) _
  · refine graphic_append (graphic_append ?_ (hz _)) (hn _)
    exact graphic_of_all (by decide)
  all_goals
    refine graphic_append (graphic_append ?_ ?_) (hn _)
    · first
      | exact hn _
      | exact graphic_point (hn _) 1
    · exact graphic_of_all (by decide)

theorem graphic_toText : ∀ u ∈ toText x, Graphic u := by
  cases x with
  | nan | posInf | negInf => exact graphic_of_all (by decide)
  | fin q =>
    rw [toText]
    split
    · exact fun u => graphic_natText
    · split
      · intro u hu
        rcases mem_cons.mp hu with rfl | hu
        · exact ⟨by decide, by decide⟩
        · exact graphic_positiveText _ u hu
      · exact graphic_positiveText _

end JsNumber

end PiWebUi.Lib
