/-
  PiWebUi.Lib.Utf8 — UTF-8 texts: `Buffer.from(s, 'utf8')` and `buffer.toString('utf8')`.

  Octets are natural numbers. `encode` writes a string's code points (an unpaired
  surrogate as U+FFFD); `decode` is the decoder that never fails: an octet that cannot
  follow what came before ends the sequence with one U+FFFD and is read again as the first
  octet of the next one, and a sequence cut off by the end of the input is one U+FFFD.
-/

import PiWebUi.Lib.JsString
import Mathlib.Data.List.Basic
import Mathlib.Tactic.SplitIfs

namespace PiWebUi.Lib.Utf8

open List

def isSurrogate (u : UInt16) : Bool := isHighSurrogate u || isLowSurrogate u

/-- The octets of one code unit that is not part of a surrogate pair. -/
def encodeUnit (u : UInt16) : List ℕ :=
  let n := u.toNat
  if n < 0x80 then [n]
  else if n < 0x800 then [0xC0 + n / 64, 0x80 + n % 64]
  else if isSurrogate u then [0xEF, 0xBF, 0xBD]
  else [0xE0 + n / 4096, 0x80 + n / 64 % 64, 0x80 + n % 64]

/-- The code point of a surrogate pair. -/
def pairPoint (u v : UInt16) : ℕ := 0x10000 + (u.toNat - 0xD800) * 1024 + (v.toNat - 0xDC00)

def encodePair (u v : UInt16) : List ℕ :=
  let n := pairPoint u v
  [0xF0 + n / 262144, 0x80 + n / 4096 % 64, 0x80 + n / 64 % 64, 0x80 + n % 64]

def encode : JsString → List ℕ
  | [] => []
  | [u] => encodeUnit u
  | u :: v :: r => if isHighSurrogate u && isLowSurrogate v then encodePair u v ++ encode r else encodeUnit u ++ encode (v :: r)

/-- A code point begun: how many octets it still needs, its bits so far, and the range of
    the next octet. -/
structure Pending where
  needed : ℕ
  point : ℕ
  lower : ℕ
  upper : ℕ
deriving DecidableEq

def replacement : UInt16 := 0xFFFD

def units (point : ℕ) : JsString :=
  if point < 0x10000 then [point.toUInt16]
  else [(0xD800 + (point - 0x10000) / 1024).toUInt16, (0xDC00 + (point - 0x10000) % 1024).toUInt16]

/-- The first octet of a sequence. -/
def first (b : ℕ) : JsString × Option Pending :=
  if b < 0x80 then ([b.toUInt16], none)
  else if b < 0xC2 then ([replacement], none)
  else if b ≤ 0xDF then ([], some ⟨1, b - 0xC0, 0x80, 0xBF⟩)
  else if b ≤ 0xEF then ([], some ⟨2, b - 0xE0, if b = 0xE0 then 0xA0 else 0x80, if b = 0xED then 0x9F else 0xBF⟩)
  else if b ≤ 0xF4 then ([], some ⟨3, b - 0xF0, if b = 0xF0 then 0x90 else 0x80, if b = 0xF4 then 0x8F else 0xBF⟩)
  else ([replacement], none)

def next : Option Pending → ℕ → JsString × Option Pending
  | none, b => first b
  | some p, b =>
    if p.lower ≤ b ∧ b ≤ p.upper then
      let point := p.point * 64 + (b - 0x80)
      if p.needed = 1 then (units point, none) else ([], some ⟨p.needed - 1, point, 0x80, 0xBF⟩)
    else (replacement :: (first b).1, (first b).2)

def decodeFrom : Option Pending → List ℕ → JsString
  | none, [] => []
  | some _, [] => [replacement]
  | p, b :: bs => (next p b).1 ++ decodeFrom (next p b).2 bs

def decode (bytes : List ℕ) : JsString := decodeFrom none bytes

example : decode (encode (js "é€😀")) = js "é€😀" ∧ decode ((encode (js "a😀")).take 3) = js "a" ++ [replacement] := by
  decide

/-! ## Code units -/

/-- No unpaired surrogate. -/
def WellFormed : JsString → Prop
  | [] => True
  | [u] => isSurrogate u = false
  | u :: v :: r => if isHighSurrogate u && isLowSurrogate v then WellFormed r else isSurrogate u = false ∧ WellFormed (v :: r)

instance WellFormed.decidable : ∀ s, Decidable (WellFormed s)
  | [] => isTrue trivial
  | [u] => inferInstanceAs (Decidable (isSurrogate u = false))
  | u :: v :: r =>
    have := WellFormed.decidable r
    have := WellFormed.decidable (v :: r)
    inferInstanceAs (Decidable (if isHighSurrogate u && isLowSurrogate v then WellFormed r else isSurrogate u = false ∧ WellFormed (v :: r)))

variable {u : UInt16} {s : JsString} {p : List ℕ}

theorem surrogate_toNat : isSurrogate u = true ↔ 0xD800 ≤ u.toNat ∧ u.toNat ≤ 0xDFFF := by
  simp only [isSurrogate, isHighSurrogate, isLowSurrogate, Bool.or_eq_true, Bool.and_eq_true, decide_eq_true_eq,
    UInt16.le_iff_toNat_le, UInt16.reduceToNat]
  omega

theorem high_toNat : isHighSurrogate u = true ↔ 0xD800 ≤ u.toNat ∧ u.toNat ≤ 0xDBFF := by
  simp only [isHighSurrogate, Bool.and_eq_true, decide_eq_true_eq, UInt16.le_iff_toNat_le, UInt16.reduceToNat]

theorem low_toNat : isLowSurrogate u = true ↔ 0xDC00 ≤ u.toNat ∧ u.toNat ≤ 0xDFFF := by
  simp only [isLowSurrogate, Bool.and_eq_true, decide_eq_true_eq, UInt16.le_iff_toNat_le, UInt16.reduceToNat]

theorem toUInt16_toNat (u : UInt16) : u.toNat.toUInt16 = u := by
  simp

theorem eq_toUInt16 {n : ℕ} (h : n = u.toNat) : n.toUInt16 = u := by
  rw [h, toUInt16_toNat]

theorem not_pair_of_plain (h : isSurrogate u = false) (v : UInt16) : (isHighSurrogate u && isLowSurrogate v) = false := by
  have hu := (Bool.or_eq_false_iff.mp h).1
  simp [hu]

theorem wellFormed_append {t : JsString} (hs : WellFormed s) (ht : WellFormed t) : WellFormed (s ++ t) := by
  induction s using encode.induct with
  | case1 => exact ht
  | case2 u =>
    have hu : isSurrogate u = false := hs
    cases t with
    | nil => exact hs
    | cons v t =>
      show WellFormed (u :: v :: t)
      rw [WellFormed, not_pair_of_plain hu v, if_neg (by simp)]
      exact ⟨hu, ht⟩
  | case3 u v r h ih =>
    rw [WellFormed, if_pos h] at hs
    show WellFormed (u :: v :: (r ++ t))
    rw [WellFormed, if_pos h]
    exact ih hs
  | case4 u v r h ih =>
    rw [WellFormed, if_neg h] at hs
    show WellFormed (u :: v :: (r ++ t))
    rw [WellFormed, if_neg h]
    exact ⟨hs.1, ih hs.2⟩

theorem wellFormed_of_forall (h : ∀ u ∈ s, isSurrogate u = false) : WellFormed s := by
  induction s with
  | nil => trivial
  | cons u s ih =>
    have hs := ih fun v hv => h v (mem_cons_of_mem _ hv)
    exact wellFormed_append (s := [u]) (h u (by simp)) hs

/-- For a fixed text: the check by evaluation. -/
theorem wellFormed_of_all (h : s.all (!isSurrogate ·) = true) : WellFormed s :=
  wellFormed_of_forall fun u hu => by simpa using all_eq_true.mp h u hu

theorem encode_cons (h : isSurrogate u = false) (r : JsString) : encode (u :: r) = encodeUnit u ++ encode r := by
  cases r with
  | nil => simp [encode]
  | cons v r => rw [encode, not_pair_of_plain h v, if_neg (by simp)]

/-- Nothing is joined across a unit that is no surrogate. -/
theorem encode_append_cons (s : JsString) (h : isSurrogate u = false) (r : JsString) :
    encode (s ++ u :: r) = encode s ++ encodeUnit u ++ encode r := by
  induction s using encode.induct with
  | case1 => simp [encode, encode_cons h]
  | case2 v =>
    have hlow := (Bool.or_eq_false_iff.mp h).2
    show encode (v :: u :: r) = _
    have hpair : ¬ (isHighSurrogate v && isLowSurrogate u) = true := by simp [hlow]
    rw [show encode (v :: u :: r) = encodeUnit v ++ encode (u :: r) by rw [encode, if_neg hpair], encode_cons h, encode,
      append_assoc]
  | case3 v w s hp ih =>
    show encode (v :: w :: (s ++ u :: r)) = _
    rw [encode, if_pos hp, ih, encode, if_pos hp]
    simp only [append_assoc]
  | case4 v w s hp ih =>
    show encode (v :: w :: (s ++ u :: r)) = _
    rw [encode, if_neg hp, encode, if_neg hp]
    have ih : encode (w :: (s ++ u :: r)) = encode (w :: s) ++ encodeUnit u ++ encode r := ih
    rw [ih]
    simp only [append_assoc]

theorem length_encodeUnit (u : UInt16) : (encodeUnit u).length = if u < 0x80 then 1 else if u < 0x800 then 2 else 3 := by
  have h1 : u < 0x80 ↔ u.toNat < 0x80 := UInt16.lt_iff_toNat_lt
  have h2 : u < 0x800 ↔ u.toNat < 0x800 := UInt16.lt_iff_toNat_lt
  simp only [encodeUnit, h1, h2]
  split_ifs <;> rfl

theorem utf8Length_eq (s : JsString) : utf8Length s = (encode s).length := by
  induction s using encode.induct with
  | case1 => rfl
  | case2 u => rw [utf8Length, encode, length_encodeUnit]
  | case3 u v r h ih =>
    simp only [Bool.and_eq_true] at h
    have hu := high_toNat.mp h.1
    have h1 : ¬ u < 0x80 := by grind [UInt16.lt_iff_toNat_lt]
    have h2 : ¬ u < 0x800 := by grind [UInt16.lt_iff_toNat_lt]
    simp only [utf8Length, encode, h1, h2, h.1, h.2, Bool.and_self, if_true, if_false, ih, length_append]
    rfl
  | case4 u v r h ih =>
    rw [utf8Length, encode, if_neg h, if_neg h, length_append, length_encodeUnit, ih]
    split_ifs <;> rfl

/-- Units that are no surrogates are counted apart from what follows them. -/
theorem utf8Length_append (h : ∀ u ∈ s, isSurrogate u = false) (r : JsString) :
    utf8Length (s ++ r) = utf8Length s + utf8Length r := by
  induction s with
  | nil => simp [utf8Length]
  | cons u s ih =>
    have hu := h u mem_cons_self
    have hs := ih fun v hv => h v (mem_cons_of_mem u hv)
    rw [utf8Length_eq, utf8Length_eq, utf8Length_eq] at hs
    rw [utf8Length_eq, utf8Length_eq, utf8Length_eq, List.cons_append, encode_cons hu, encode_cons hu, length_append,
      length_append, hs]
    omega

theorem utf8Length_append_cons (s : JsString) (h : u.toNat < 128) (r : JsString) :
    utf8Length (s ++ u :: r) = utf8Length s + 1 + utf8Length r := by
  have hu : isSurrogate u = false := by
    rw [← Bool.not_eq_true, surrogate_toNat]
    omega
  have hone : (encodeUnit u).length = 1 := by
    rw [length_encodeUnit, if_pos (UInt16.lt_iff_toNat_lt.mpr h)]
  rw [utf8Length_eq, encode_append_cons s hu, length_append, length_append, hone, ← utf8Length_eq, ← utf8Length_eq]

theorem utf8Length_cons (h : u.toNat < 128) (r : JsString) : utf8Length (u :: r) = 1 + utf8Length r := by
  simpa [utf8Length] using utf8Length_append_cons [] h r

/-! ## Reading back -/

theorem decode_encodeUnit (h : isSurrogate u = false) (r : List ℕ) :
    decodeFrom none (encodeUnit u ++ r) = u :: decodeFrom none r := by
  have hlt : u.toNat < 65536 := u.toNat_lt
  have hsur : ¬ (0xD800 ≤ u.toNat ∧ u.toNat ≤ 0xDFFF) := by
    rw [← surrogate_toNat, h]
    simp
  simp only [encodeUnit, h]
  split_ifs with h1 h2 h3
  · simp [decodeFrom, next, first, h1]
  · have hp : (0xC0 + u.toNat / 64 - 0xC0) * 64 + (0x80 + u.toNat % 64 - 0x80) = u.toNat := by omega
    simp (disch := omega) only [List.cons_append, nil_append, decodeFrom, next, first, if_true, if_pos, if_neg, hp, units, toUInt16_toNat]
  · cases h3
  · have hc : (if 0xE0 + u.toNat / 4096 = 0xE0 then 0xA0 else 0x80) ≤ 0x80 + u.toNat / 64 % 64 ∧
        0x80 + u.toNat / 64 % 64 ≤ (if 0xE0 + u.toNat / 4096 = 0xED then 0x9F else 0xBF) := by
      split_ifs <;> omega
    have hp : ((0xE0 + u.toNat / 4096 - 0xE0) * 64 + (0x80 + u.toNat / 64 % 64 - 0x80)) * 64 + (0x80 + u.toNat % 64 - 0x80) = u.toNat := by
      omega
    simp (disch := omega) only [List.cons_append, nil_append, decodeFrom, next, first, if_true, if_pos hc, if_pos, if_neg, hp, units,
      toUInt16_toNat, Nat.reduceSub]

theorem decode_encodePair {v : UInt16} (hu : isHighSurrogate u = true) (hv : isLowSurrogate v = true) (r : List ℕ) :
    decodeFrom none (encodePair u v ++ r) = u :: v :: decodeFrom none r := by
  have hu' := high_toNat.mp hu
  have hv' := low_toNat.mp hv
  obtain ⟨n, hn⟩ : ∃ n, n = pairPoint u v := ⟨_, rfl⟩
  have hn' : n = 0x10000 + (u.toNat - 0xD800) * 1024 + (v.toNat - 0xDC00) := hn
  simp only [encodePair, ← hn]
  have hc : (if 0xF0 + n / 262144 = 0xF0 then 0x90 else 0x80) ≤ 0x80 + n / 4096 % 64 ∧
      0x80 + n / 4096 % 64 ≤ (if 0xF0 + n / 262144 = 0xF4 then 0x8F else 0xBF) := by
    split_ifs <;> omega
  have hp : (((0xF0 + n / 262144 - 0xF0) * 64 + (0x80 + n / 4096 % 64 - 0x80)) * 64 + (0x80 + n / 64 % 64 - 0x80)) * 64 +
      (0x80 + n % 64 - 0x80) = n := by
    omega
  have h1 : (0xD800 + (n - 0x10000) / 1024).toUInt16 = u := eq_toUInt16 (by omega)
  have h2 : (0xDC00 + (n - 0x10000) % 1024).toUInt16 = v := eq_toUInt16 (by omega)
  simp (disch := omega) only [List.cons_append, nil_append, decodeFrom, next, first, if_true, if_pos hc, if_pos, if_neg, hp, units, h1, h2,
    Nat.reduceSub]

theorem decode_encode_append (hs : WellFormed s) (r : List ℕ) : decodeFrom none (encode s ++ r) = s ++ decodeFrom none r := by
  induction s using encode.induct with
  | case1 => rfl
  | case2 u => exact decode_encodeUnit hs r
  | case3 u v s h ih =>
    rw [WellFormed, if_pos h] at hs
    simp only [Bool.and_eq_true] at h
    rw [encode, if_pos (by simp [h.1, h.2]), append_assoc, decode_encodePair h.1 h.2, ih hs]
    rfl
  | case4 u v s h ih =>
    rw [WellFormed, if_neg h] at hs
    rw [encode, if_neg h, append_assoc, decode_encodeUnit hs.1, ih hs.2]
    rfl

theorem decode_encode (hs : WellFormed s) : decode (encode s) = s := by
  have h := decode_encode_append hs []
  simpa [decode, decodeFrom] using h

/-! ## A text cut off -/

/-- A sequence begun and not finished. -/
theorem decode_cut_unit (h : isSurrogate u = false) (hp : p <+: encodeUnit u) (hne : p ≠ [])
    (hcut : p ≠ encodeUnit u) : decode p = [replacement] := by
  have hlt : u.toNat < 65536 := u.toNat_lt
  have hsur : ¬ (0xD800 ≤ u.toNat ∧ u.toNat ≤ 0xDFFF) := by
    rw [← surrogate_toNat, h]
    simp
  have htake := prefix_iff_eq_take.mp hp
  have hlen : p.length < (encodeUnit u).length := Nat.lt_of_le_of_ne hp.length_le fun he => hcut (hp.eq_of_length he)
  have hpos : 0 < p.length := length_pos_iff.mpr hne
  generalize p.length = k at htake hlen hpos
  subst htake
  simp only [encodeUnit, h] at hlen ⊢
  split_ifs at hlen ⊢ with h1 h2 h3
  · simp only [length_singleton] at hlen
    omega
  · simp only [length_cons, length_nil] at hlen
    obtain rfl : k = 1 := by omega
    simp (disch := omega) [decode, decodeFrom, next, first, if_pos, if_neg]
  · cases h3
  · have hc : (if 0xE0 + u.toNat / 4096 = 0xE0 then 0xA0 else 0x80) ≤ 0x80 + u.toNat / 64 % 64 ∧
        0x80 + u.toNat / 64 % 64 ≤ (if 0xE0 + u.toNat / 4096 = 0xED then 0x9F else 0xBF) := by
      split_ifs <;> omega
    simp only [length_cons, length_nil] at hlen
    obtain rfl | rfl : k = 1 ∨ k = 2 := by omega
    all_goals
      simp (disch := omega) only [take_succ_cons, take_zero, decode, decodeFrom, next, first, if_pos hc, if_pos, if_neg, nil_append]

theorem decode_cut_pair {v : UInt16} (hu : isHighSurrogate u = true) (hv : isLowSurrogate v = true)
    (hp : p <+: encodePair u v) (hne : p ≠ []) (hcut : p ≠ encodePair u v) : decode p = [replacement] := by
  have hu' := high_toNat.mp hu
  have hv' := low_toNat.mp hv
  have htake := prefix_iff_eq_take.mp hp
  have hlen : p.length < (encodePair u v).length := Nat.lt_of_le_of_ne hp.length_le fun he => hcut (hp.eq_of_length he)
  have hpos : 0 < p.length := length_pos_iff.mpr hne
  generalize p.length = k at htake hlen hpos
  subst htake
  obtain ⟨n, hn⟩ : ∃ n, n = pairPoint u v := ⟨_, rfl⟩
  have hn' : n = 0x10000 + (u.toNat - 0xD800) * 1024 + (v.toNat - 0xDC00) := hn
  simp only [encodePair, ← hn] at hlen ⊢
  have hc : (if 0xF0 + n / 262144 = 0xF0 then 0x90 else 0x80) ≤ 0x80 + n / 4096 % 64 ∧
      0x80 + n / 4096 % 64 ≤ (if 0xF0 + n / 262144 = 0xF4 then 0x8F else 0xBF) := by
    split_ifs <;> omega
  simp only [length_cons, length_nil] at hlen
  obtain rfl | rfl | rfl : k = 1 ∨ k = 2 ∨ k = 3 := by omega
  all_goals
    simp (disch := omega) only [take_succ_cons, take_zero, decode, decodeFrom, next, first, if_pos hc, if_pos, if_neg, nil_append,
      Nat.reduceSub]

/-- What is read of a part of a text's octets: a part of the text, and one U+FFFD where a
    sequence is cut. -/
def CutOf (s : JsString) (p : List ℕ) : Prop :=
  ∃ t, t <+: s ∧ (decode p = t ∧ p.length = (encode t).length ∨ decode p = t ++ [replacement] ∧ (encode t).length < p.length)

/-- The octets `c` of what starts a text, and those of the rest of it. -/
theorem cutOf_cons {c : List ℕ} {x : JsString} (hdec : ∀ r, decodeFrom none (c ++ r) = x ++ decodeFrom none r)
    (hcut : ∀ p, p <+: c → p ≠ [] → p ≠ c → decode p = [replacement]) (henc : ∀ t, t <+: s → encode (x ++ t) = c ++ encode t)
    (ih : ∀ p, p <+: encode s → CutOf s p) (hp : p <+: c ++ encode s) : CutOf (x ++ s) p := by
  by_cases hnil : p = []
  · subst hnil
    exact ⟨[], nil_prefix, .inl ⟨rfl, rfl⟩⟩
  rcases prefix_or_prefix_of_prefix hp (prefix_append c (encode s)) with h | ⟨q, rfl⟩
  · by_cases hall : p = c
    · subst hall
      refine ⟨x, prefix_append x s, .inl ⟨?_, ?_⟩⟩
      · have := hdec []
        simpa [decode, decodeFrom] using this
      · have := henc [] nil_prefix
        simp only [append_nil] at this
        rw [this]
        simp [encode]
    · exact ⟨[], nil_prefix, .inr ⟨hcut p h hnil hall, length_pos_iff.mpr hnil⟩⟩
  · obtain ⟨t, ht, hread⟩ := ih q ((prefix_append_right_inj c).mp hp)
    refine ⟨x ++ t, (prefix_append_right_inj x).mpr ht, ?_⟩
    rw [show decode (c ++ q) = x ++ decode q from hdec q, henc t ht, length_append, length_append]
    rcases hread with ⟨hd, hl⟩ | ⟨hd, hl⟩
    · exact .inl ⟨by rw [hd], by omega⟩
    · exact .inr ⟨by rw [hd, append_assoc], by omega⟩

theorem decode_prefix (hs : WellFormed s) : ∀ p, p <+: encode s → CutOf s p := by
  induction s using encode.induct with
  | case1 =>
    intro p hp
    obtain rfl : p = [] := prefix_nil.mp hp
    exact ⟨[], nil_prefix, .inl ⟨rfl, rfl⟩⟩
  | case2 u =>
    intro p hp
    refine cutOf_cons (c := encodeUnit u) (x := [u]) (s := []) (decode_encodeUnit hs) (fun p => decode_cut_unit hs) ?_ ?_ (by simpa [encode] using hp)
    · intro t ht
      exact encode_cons hs t
    · intro q hq
      obtain rfl : q = [] := prefix_nil.mp hq
      exact ⟨[], nil_prefix, .inl ⟨rfl, rfl⟩⟩
  | case3 u v s h ih =>
    rw [WellFormed, if_pos h] at hs
    intro p hp
    rw [encode, if_pos h] at hp
    have h' := Bool.and_eq_true_iff.mp h
    refine cutOf_cons (x := [u, v]) (decode_encodePair h'.1 h'.2) (fun p => decode_cut_pair h'.1 h'.2) ?_ (ih hs) hp
    intro t ht
    show encode (u :: v :: t) = _
    rw [encode, if_pos h]
  | case4 u v s h ih =>
    rw [WellFormed, if_neg h] at hs
    intro p hp
    rw [encode, if_neg h] at hp
    refine cutOf_cons (x := [u]) (decode_encodeUnit hs.1) (fun p => decode_cut_unit hs.1) ?_ (ih hs.2) hp
    intro t _
    exact encode_cons hs.1 t

/-- Cutting a text off makes what is read at most two octets longer. -/
theorem utf8Length_decode_prefix (hs : WellFormed s) (hp : p <+: encode s) : utf8Length (decode p) ≤ p.length + 2 := by
  obtain ⟨t, -, ⟨hd, hl⟩ | ⟨hd, hl⟩⟩ := decode_prefix hs p hp
  · rw [hd, utf8Length_eq]
    omega
  · have h := encode_append_cons t (u := replacement) (by decide) []
    rw [hd, utf8Length_eq, h, length_append, length_append]
    have h3 : (encodeUnit replacement).length = 3 := by decide
    simp only [encode, length_nil]
    omega

end PiWebUi.Lib.Utf8
