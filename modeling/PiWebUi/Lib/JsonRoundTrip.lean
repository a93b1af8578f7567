/-
  PiWebUi.Lib.JsonRoundTrip — `JSON.parse(JSON.stringify(v)) = v`.

  For every value whose numbers are natural and below 2^53 and whose objects have no
  repeated key (`Plain`): the text is one line, no shorter than one code unit, and
  parses back to the value (`parse_stringify`). `parseValue_stringify` is the rule for
  a value followed by more text; the induction is on the value, and the fuel it needs
  is twice the length of its text.
-/

import PiWebUi.Lib.Json

namespace PiWebUi.Lib.Json

open JsNumber List

mutual
/-- Numbers are natural and exact, and no object repeats a key. -/
def Plain : Json → Prop
  | num x => ∃ n : ℕ, n < 2 ^ 53 ∧ x = fin n
  | arr xs => PlainElements xs
  | obj fs => (fs.map (·.1)).Nodup ∧ PlainMembers fs
  | _ => True

def PlainElements : List Json → Prop
  | [] => True
  | x :: xs => Plain x ∧ PlainElements xs

def PlainMembers : List (JsString × Json) → Prop
  | [] => True
  | (_, v) :: fs => Plain v ∧ PlainMembers fs
end

/-! ## Strings -/

theorem hexValue_hexDigit : ∀ n < 16, hexValue (hexDigit n) = some n := by decide

theorem parseString_plain {u : UInt16} (hq : u ≠ 34) (hb : u ≠ 92) (hc : ¬ u < 32) (r : JsString) :
    parseString (u :: r) = (parseString r).map fun p => (u :: p.1, p.2) := by
  rw [parseString.eq_def]
  split
  · simp_all
  · simp_all
  · simp_all
  · rename_i h
    simp only [List.cons.injEq] at h
    obtain ⟨rfl, rfl⟩ := h
    simp only [hq, hb, hc, if_false, or_self]
    cases parseString r <;> rfl

theorem parseString_unicodeEscape (u : UInt16) (r : JsString) :
    parseString (unicodeEscape u ++ r) = (parseString r).map fun p => (u :: p.1, p.2) := by
  have hlt : u.toNat < 65536 := u.toNat_lt
  have h1 := hexValue_hexDigit (u.toNat / 4096) (by omega)
  have h2 := hexValue_hexDigit (u.toNat / 256 % 16) (by omega)
  have h3 := hexValue_hexDigit (u.toNat / 16 % 16) (by omega)
  have h4 := hexValue_hexDigit (u.toNat % 16) (by omega)
  have hu : (4096 * (u.toNat / 4096) + 256 * (u.toNat / 256 % 16) + 16 * (u.toNat / 16 % 16) +
      u.toNat % 16).toUInt16 = u := by
    rw [show 4096 * (u.toNat / 4096) + 256 * (u.toNat / 256 % 16) + 16 * (u.toNat / 16 % 16) +
      u.toNat % 16 = u.toNat by omega]
    exact UInt16.ofNat_toNat
  simp only [unicodeEscape, List.cons_append, nil_append]
  rw [parseString]
  simp only [h1, h2, h3, h4, Option.bind_eq_bind, Option.bind_some, hu]
  cases parseString r <;> rfl

theorem parseString_escapeUnit (u : UInt16) (r : JsString) :
    parseString (escapeUnit u ++ r) = (parseString r).map fun p => (u :: p.1, p.2) := by
  have short (e : UInt16) (he : e ≠ 117) (hs : simpleEscape e = some u) :
      parseString (92 :: e :: r) = (parseString r).map fun p => (u :: p.1, p.2) := by
    rw [parseString.eq_def]
    split
    · simp_all
    · simp_all
    · rename_i h
      simp only [List.cons.injEq, true_and] at h
      obtain ⟨rfl, rfl⟩ := h
      simp only [hs]
      cases parseString r <;> rfl
    · rename_i h
      simp only [List.cons.injEq] at h
      obtain ⟨rfl, rfl⟩ := h
      rename_i hnot
      exact absurd rfl (hnot e r rfl)
  unfold escapeUnit
  split_ifs with h1 h2 h3 h4 h5 h6 h7 h8
  · subst h1; exact short 34 (by decide) (by decide)
  · subst h2; exact short 92 (by decide) (by decide)
  · subst h3; exact short 98 (by decide) (by decide)
  · subst h4; exact short 116 (by decide) (by decide)
  · subst h5; exact short 110 (by decide) (by decide)
  · subst h6; exact short 102 (by decide) (by decide)
  · subst h7; exact short 114 (by decide) (by decide)
  · exact parseString_unicodeEscape u r
  · exact parseString_plain h1 h2 (fun h => h8 (Or.inl h)) r

theorem surrogate_plain {u : UInt16} (h : isHighSurrogate u = true ∨ isLowSurrogate u = true) : u ≠ 34 ∧ u ≠ 92 ∧ ¬ u < 32 := by
  simp only [isHighSurrogate, isLowSurrogate, Bool.and_eq_true, decide_eq_true_eq, UInt16.le_iff_toNat_le] at h
  refine ⟨?_, ?_, ?_⟩
  · rintro rfl; revert h; decide
  · rintro rfl; revert h; decide
  · intro hlt
    have := UInt16.lt_iff_toNat_lt.mp hlt
    simp at h this
    omega

theorem parseString_escape (s r : JsString) : parseString (escape s ++ 34 :: r) = some (s, r) := by
  induction s using escape.induct with
  | case1 => simp [escape, parseString]
  | case2 u => rw [escape, parseString_escapeUnit]; simp [parseString]
  | case3 u v s h ih =>
    simp only [Bool.and_eq_true] at h
    obtain ⟨hu1, hu2, hu3⟩ := surrogate_plain (Or.inl h.1)
    obtain ⟨hv1, hv2, hv3⟩ := surrogate_plain (Or.inr h.2)
    simp only [escape, h.1, h.2, Bool.and_self, if_true, List.cons_append]
    rw [parseString_plain hu1 hu2 hu3, parseString_plain hv1 hv2 hv3, ih]
    rfl
  | case4 u v s h ih =>
    rw [escape, if_neg h, append_assoc, parseString_escapeUnit, ih]
    rfl

/-! ## Numbers -/

/-- What follows a value inside a JSON text: a comma, a bracket, a brace or nothing. -/
def Stop (r : JsString) : Prop := ∀ u t, r = u :: t → u = 44 ∨ u = 93 ∨ u = 125

theorem stop_nil : Stop [] := by intro _ _ h; cases h

theorem stop_elements (xs : List Json) (r : JsString) : Stop (stringifyElements xs ++ r) := by
  intro u t h
  cases xs <;> simp only [stringifyElements, List.cons_append, List.cons.injEq] at h <;> simp [← h.1]

theorem stop_members (fs : List (JsString × Json)) (r : JsString) : Stop (stringifyMembers fs ++ r) := by
  intro u t h
  cases fs <;> simp only [stringifyMembers, List.cons_append, List.cons.injEq] at h <;> simp [← h.1]

theorem span_digits (n : ℕ) {r : JsString} (hr : Stop r) : (natText n ++ r).span isDigit = (natText n, r) := by
  have hall : ∀ u ∈ natText n, isDigit u = true := fun u hu => natText_digits hu
  have hstop : r.takeWhile isDigit = [] ∧ r.dropWhile isDigit = r := by
    cases r with
    | nil => simp
    | cons u t =>
      have : isDigit u = false := by rcases hr u t rfl with rfl | rfl | rfl <;> decide
      simp [this]
  rw [span_eq_takeWhile_dropWhile, takeWhile_append_of_pos hall, dropWhile_append_of_pos hall,
    hstop.1, hstop.2, append_nil]

theorem parseInteger_natText (n : ℕ) {r : JsString} (hr : Stop r) : parseInteger (natText n ++ r) = some (n, r) := by
  unfold parseInteger
  rw [span_digits n hr]
  split
  · rename_i h; simp only [Prod.mk.injEq] at h; exact absurd h.1 (natText_ne_nil n)
  · rename_i ds r' h
    simp only [Prod.mk.injEq] at h
    obtain ⟨h, rfl⟩ := h
    have hn : n = 0 := by
      by_contra hn
      exact natText_head hn h rfl
    subst hn
    simp only [natText, if_true, List.cons.injEq, true_and] at h
    simp [← h]
  · rename_i h
    simp only [Prod.mk.injEq] at h
    obtain ⟨rfl, rfl⟩ := h
    rw [digitsValue_natText]

theorem parseNumber_natText {n : ℕ} (hn : n < 2 ^ 53) {r : JsString} (hr : Stop r) :
    parseNumber (natText n ++ r) = some (num (fin n), r) := by
  have hfrac : parseFraction r = some (0, 0, r) := by
    unfold parseFraction
    split
    · rename_i s; rcases hr _ _ rfl with h | h | h <;> exact absurd h (by decide)
    · rfl
  have hexp : parseExponent r = some (0, r) := by
    unfold parseExponent
    split
    · rename_i u s
      have : ¬ (u = 101 ∨ u = 69) := by rcases hr u s rfl with rfl | rfl | rfl <;> decide
      simp [this]
    · rfl
  have hq : ((n : ℚ) + ((0 : ℕ) : ℚ) / ((10 ^ 0 : ℕ) : ℚ)) * pow10 0 = n := by simp [pow10]
  unfold parseNumber
  split
  · rename_i s h
    cases htext : natText n with
    | nil => exact absurd htext (natText_ne_nil n)
    | cons u t =>
      rw [htext, List.cons_append, List.cons.injEq] at h
      have : isDigit u = true := natText_digits (n := n) (by rw [htext]; simp)
      rw [h.1] at this
      exact absurd this (by decide)
  · simp [parseUnsigned, parseInteger_natText n hr, hfrac, hexp, pow10, roundBinary64_nat hn]

/-! ## Values -/

theorem skipSpace_cons {u : UInt16} (h : isSpace u = false) (r : JsString) : skipSpace (u :: r) = u :: r := by
  simp [skipSpace, h]

/-- The first code unit of a text. -/
theorem stringify_head (v : Json) (hv : Plain v) :
    ∃ u t, stringify v = u :: t ∧ (isDigit u = true ∨ u ∈ ([110, 116, 102, 34, 91, 123] : List UInt16)) := by
  match v with
  | null => exact ⟨110, _, rfl, by simp⟩
  | bool true => exact ⟨116, _, rfl, by simp⟩
  | bool false => exact ⟨102, _, rfl, by simp⟩
  | str s => exact ⟨34, _, rfl, by simp⟩
  | arr [] => exact ⟨91, _, rfl, by simp⟩
  | arr (_ :: _) => exact ⟨91, _, by simp only [stringify]; rfl, by simp⟩
  | obj [] => exact ⟨123, _, rfl, by simp⟩
  | obj ((_, _) :: _) => exact ⟨123, _, by simp only [stringify]; rfl, by simp⟩
  | num x =>
    obtain ⟨n, hn, rfl⟩ := hv
    simp only [stringify, isFinite, if_true, toText_nat hn]
    cases h : natText n with
    | nil => exact absurd h (natText_ne_nil n)
    | cons u t => exact ⟨u, t, rfl, Or.inl (natText_digits (n := n) (by rw [h]; simp))⟩

theorem head_not_space {u : UInt16} (h : isDigit u = true ∨ u ∈ ([110, 116, 102, 34, 91, 123] : List UInt16)) :
    isSpace u = false ∧ u ≠ 93 ∧ u ≠ 125 := by
  have space_le : isSpace u = true → u = 32 ∨ u = 9 ∨ u = 10 ∨ u = 13 := by
    simp [isSpace, or_assoc]
  rcases h with h | h
  · refine ⟨?_, ?_, ?_⟩
    · by_contra hs
      rcases space_le (by simpa using hs) with rfl | rfl | rfl | rfl <;> exact absurd h (by decide)
    · rintro rfl; exact absurd h (by decide)
    · rintro rfl; exact absurd h (by decide)
  · simp only [mem_cons, not_mem_nil, or_false] at h
    rcases h with rfl | rfl | rfl | rfl | rfl | rfl <;> decide

theorem setField_fresh {fs : List (JsString × Json)} {k : JsString} (h : k ∉ fs.map (·.1)) (v : Json) :
    setField fs k v = fs ++ [(k, v)] := by
  have : fs.any (·.1 = k) = false := by
    simp only [any_eq_false, decide_eq_true_eq]
    intro f hf he
    exact h (mem_map.mpr ⟨f, hf, he⟩)
  simp [setField, this]

theorem expect_word (word : JsString) (v : Json) (r : JsString) : expect word v (word ++ r) = some (v, r) := by
  simp [expect]

mutual
theorem parseValue_stringify : ∀ (v : Json) (n : ℕ) (r : JsString), Plain v → Stop r →
    2 * (stringify v).length ≤ n → parseValue n (stringify v ++ r) = some (v, r)
  | v, 0, r, hv, _, hn => by
    obtain ⟨u, t, h, -⟩ := stringify_head v hv
    rw [h] at hn
    simp at hn
  | null, n + 1, r, _, _, _ => expect_word (js "ull") null r
  | bool true, n + 1, r, _, _, _ => expect_word (js "rue") (bool true) r
  | bool false, n + 1, r, _, _, _ => expect_word (js "alse") (bool false) r
  | num x, n + 1, r, hv, hr, _ => by
    obtain ⟨m, hm, rfl⟩ := hv
    simp only [stringify, isFinite, if_true, toText_nat hm]
    have hp := parseNumber_natText hm hr
    cases h : natText m with
    | nil => exact absurd h (natText_ne_nil m)
    | cons u t =>
      rw [h] at hp
      have hd : isDigit u = true := natText_digits (n := m) (by rw [h]; simp)
      rw [parseValue, List.cons_append, skipSpace_cons (head_not_space (Or.inl hd)).1]
      rw [List.cons_append] at hp
      split
      all_goals first
        | exact hp
        | (rename_i h; simp only [List.cons.injEq] at h; rw [h.1] at hd; exact absurd hd (by decide))
  | str s, n + 1, r, _, _, _ => by
    simp only [stringify, quote, List.cons_append, append_assoc, nil_append]
    rw [parseValue, skipSpace_cons (by decide)]
    simp only [parseString_escape, Option.map_some]
  | arr [], n + 1, r, _, _, _ => by
    show parseValue (n + 1) (91 :: 93 :: r) = _
    rw [parseValue, skipSpace_cons (by decide)]
    simp only [skipSpace_cons (show isSpace 93 = false by decide)]
  | arr (x :: xs), n + 1, r, hv, _, hn => by
    simp only [Plain, PlainElements] at hv
    obtain ⟨u, t, hu, hhead⟩ := stringify_head x hv.1
    have hrest := parseElement_stringify x xs n [] r hv.1 hv.2
      (by simp only [stringify, length_cons, length_append] at hn; omega)
    simp only [stringify, List.cons_append, append_assoc]
    rw [parseValue, skipSpace_cons (by decide)]
    simp only [hu, List.cons_append] at hrest ⊢
    rw [skipSpace_cons (head_not_space hhead).1]
    split
    · rename_i h
      simp only [List.cons.injEq] at h
      exact absurd h.1 (head_not_space hhead).2.1
    · simpa using hrest
  | obj [], n + 1, r, _, _, _ => by
    show parseValue (n + 1) (123 :: 125 :: r) = _
    rw [parseValue, skipSpace_cons (by decide)]
    simp only [skipSpace_cons (show isSpace 125 = false by decide)]
  | obj ((k, v) :: fs), n + 1, r, hv, _, hn => by
    simp only [Plain, PlainMembers, map_cons] at hv
    have hrest := parseMember_stringify k v fs n [] r (by simpa using hv.1) hv.2.1 hv.2.2
      (by simp only [stringify, length_cons, length_append] at hn; omega)
    simp only [stringify, List.cons_append, append_assoc]
    rw [parseValue, skipSpace_cons (by decide)]
    simp only [quote, List.cons_append, append_assoc] at hrest ⊢
    rw [skipSpace_cons (by decide)]
    simpa using hrest

theorem parseElement_stringify : ∀ (x : Json) (xs : List Json) (n : ℕ) (done : List Json) (r : JsString),
    Plain x → PlainElements xs → 2 * ((stringify x).length + (stringifyElements xs).length) ≤ n →
      parseElement n done (stringify x ++ (stringifyElements xs ++ r)) = some (arr (done ++ x :: xs), r)
  | _, xs, 0, _, _, _, _, hn => by
    cases xs <;> simp [stringifyElements] at hn
  | x, [], n + 1, done, r, hx, _, hn => by
    simp only [stringifyElements, length_singleton] at hn
    rw [parseElement, parseValue_stringify x n _ hx (stop_elements [] r) (by omega)]
    simp [stringifyElements, skipSpace_cons (show isSpace 93 = false by decide)]
  | x, y :: ys, n + 1, done, r, hx, hxs, hn => by
    simp only [PlainElements] at hxs
    simp only [stringifyElements, length_cons, length_append] at hn
    have ih := parseElement_stringify y ys n (done ++ [x]) r hxs.1 hxs.2 (by omega)
    rw [parseElement, parseValue_stringify x n _ hx (stop_elements (y :: ys) r) (by omega)]
    simp only [stringifyElements, List.cons_append, Option.bind_eq_bind, Option.bind_some,
      skipSpace_cons (show isSpace 44 = false by decide), append_assoc]
    simpa using ih

theorem parseMember_stringify : ∀ (k : JsString) (v : Json) (fs : List (JsString × Json)) (n : ℕ)
    (done : List (JsString × Json)) (r : JsString), (done.map (·.1) ++ k :: fs.map (·.1)).Nodup → Plain v → PlainMembers fs →
    2 * ((quote k).length + 1 + (stringify v).length + (stringifyMembers fs).length) ≤ n →
      parseMember n done (quote k ++ 58 :: (stringify v ++ (stringifyMembers fs ++ r))) =
        some (obj (done ++ (k, v) :: fs), r)
  | _, _, _, 0, _, _, _, _, _, hn => by simp at hn
  | k, v, [], n + 1, done, r, hk, hv, _, hn => by
    have hfresh : k ∉ done.map (·.1) := by
      simp only [map_nil] at hk
      exact fun h => (nodup_append.mp hk).2.2 k h k (by simp) rfl
    rw [parseMember]
    simp only [quote, List.cons_append, append_assoc, nil_append,
      skipSpace_cons (show isSpace 34 = false by decide), parseString_escape, Option.bind_eq_bind, Option.bind_some,
      skipSpace_cons (show isSpace 58 = false by decide)]
    rw [parseValue_stringify v n _ hv (stop_members [] r) (by simp only [stringifyMembers] at hn; omega)]
    simp [stringifyMembers, skipSpace_cons (show isSpace 125 = false by decide), setField_fresh hfresh]
  | k, v, (l, w) :: fs, n + 1, done, r, hk, hv, hfs, hn => by
    simp only [PlainMembers] at hfs
    simp only [map_cons] at hk
    have hfresh : k ∉ done.map (·.1) := fun h => (nodup_append.mp hk).2.2 k h k (by simp) rfl
    simp only [stringifyMembers, length_cons, length_append] at hn
    have ih := parseMember_stringify l w fs n (done ++ [(k, v)]) r (by simpa using hk) hfs.1 hfs.2 (by omega)
    rw [parseMember]
    simp only [quote, List.cons_append, append_assoc, nil_append,
      skipSpace_cons (show isSpace 34 = false by decide), parseString_escape, Option.bind_eq_bind, Option.bind_some,
      skipSpace_cons (show isSpace 58 = false by decide)]
    rw [parseValue_stringify v n _ hv (stop_members ((l, w) :: fs) r) (by omega)]
    simp only [stringifyMembers, List.cons_append, append_assoc, Option.bind_some,
      skipSpace_cons (show isSpace 44 = false by decide), setField_fresh hfresh]
    simpa [quote] using ih
end

/-- Reading back a printed value gives the value. -/
theorem parse_stringify (v : Json) (hv : Plain v) : parse (stringify v) = some v := by
  have h := parseValue_stringify v (2 * (stringify v).length + 1) [] hv stop_nil (by omega)
  rw [append_nil] at h
  simp [parse, h, skipSpace]

/-! ## One line -/

theorem hexDigit_ne_newline : ∀ n < 16, hexDigit n ≠ newline := by decide

theorem newline_not_mem_escapeUnit (u : UInt16) : newline ∉ escapeUnit u := by
  unfold escapeUnit
  split_ifs with h1 h2 h3 h4 h5 h6 h7 h8
  iterate 7 decide
  · have hlt : u.toNat < 65536 := u.toNat_lt
    simp only [unicodeEscape, mem_cons, not_mem_nil, or_false, not_or]
    exact ⟨by decide, by decide, (hexDigit_ne_newline _ (by omega)).symm, (hexDigit_ne_newline _ (by omega)).symm,
      (hexDigit_ne_newline _ (by omega)).symm, (hexDigit_ne_newline _ (by omega)).symm⟩
  · simp only [mem_singleton]
    exact Ne.symm h5

theorem newline_not_mem_escape (s : JsString) : newline ∉ escape s := by
  induction s using escape.induct with
  | case1 => simp [escape]
  | case2 u => exact newline_not_mem_escapeUnit u
  | case3 u v s h ih =>
    have hne {w : UInt16} (hw : isHighSurrogate w = true ∨ isLowSurrogate w = true) : newline ≠ w := by
      rintro rfl; revert hw; decide
    simp only [Bool.and_eq_true] at h
    simp [escape, h.1, h.2, ih, hne (Or.inl h.1), hne (Or.inr h.2)]
  | case4 u v s h ih =>
    rw [escape, if_neg h]
    simp [ih, newline_not_mem_escapeUnit u]

theorem newline_not_mem_quote (s : JsString) : newline ∉ quote s := by
  have : newline ≠ 34 := by decide
  simp [quote, newline_not_mem_escape s, this]

mutual
/-- A printed value is one line. -/
theorem newline_not_mem_stringify : ∀ v : Json, newline ∉ stringify v
  | null => by decide
  | bool true => by decide
  | bool false => by decide
  | str s => newline_not_mem_quote s
  | num x => by
    simp only [stringify]
    split
    · exact fun h => absurd (graphic_toText _ h).1 (by decide)
    · decide
  | arr [] => by decide
  | arr (x :: xs) => by
    have : newline ≠ 91 := by decide
    simp [stringify, this, newline_not_mem_stringify x, newline_not_mem_elements xs]
  | obj [] => by decide
  | obj ((k, v) :: fs) => by
    have h1 : newline ≠ 123 := by decide
    have h2 : newline ≠ 58 := by decide
    simp [stringify, h1, h2, newline_not_mem_quote k, newline_not_mem_stringify v, newline_not_mem_members fs]

theorem newline_not_mem_elements : ∀ xs : List Json, newline ∉ stringifyElements xs
  | [] => by decide
  | x :: xs => by
    have : newline ≠ 44 := by decide
    simp [stringifyElements, this, newline_not_mem_stringify x, newline_not_mem_elements xs]

theorem newline_not_mem_members : ∀ fs : List (JsString × Json), newline ∉ stringifyMembers fs
  | [] => by decide
  | (k, v) :: fs => by
    have h1 : newline ≠ 44 := by decide
    have h2 : newline ≠ 58 := by decide
    simp [stringifyMembers, h1, h2, newline_not_mem_quote k, newline_not_mem_stringify v, newline_not_mem_members fs]
end

/-! ## Values without a repeated key -/

mutual
/-- No object in the value has a key twice. -/
def UniqueKeys : Json → Prop
  | arr xs => UniqueKeysElements xs
  | obj fs => (fs.map (·.1)).Nodup ∧ UniqueKeysMembers fs
  | _ => True

def UniqueKeysElements : List Json → Prop
  | [] => True
  | x :: xs => UniqueKeys x ∧ UniqueKeysElements xs

def UniqueKeysMembers : List (JsString × Json) → Prop
  | [] => True
  | (_, v) :: fs => UniqueKeys v ∧ UniqueKeysMembers fs
end

theorem uniqueKeysElements_iff (xs : List Json) : UniqueKeysElements xs ↔ ∀ x ∈ xs, UniqueKeys x := by
  induction xs with
  | nil => simp [UniqueKeysElements]
  | cons x xs ih => simp [UniqueKeysElements, ih]

theorem uniqueKeysMembers_iff (fs : List (JsString × Json)) : UniqueKeysMembers fs ↔ ∀ f ∈ fs, UniqueKeys f.2 := by
  induction fs with
  | nil => simp [UniqueKeysMembers]
  | cons f fs ih => simp [UniqueKeysMembers, ih]

theorem plainElements_iff (xs : List Json) : PlainElements xs ↔ ∀ x ∈ xs, Plain x := by
  induction xs with
  | nil => simp [PlainElements]
  | cons x xs ih => simp [PlainElements, ih]

theorem plainMembers_iff (fs : List (JsString × Json)) : PlainMembers fs ↔ ∀ f ∈ fs, Plain f.2 := by
  induction fs with
  | nil => simp [PlainMembers]
  | cons f fs ih => simp [PlainMembers, ih]

/-- With unique keys, `get` finds every member. -/
theorem get_of_mem {fs : List (JsString × Json)} (h : (fs.map (·.1)).Nodup) {f : JsString × Json} (hf : f ∈ fs) :
    get (obj fs) f.1 = some f.2 := by
  induction fs with
  | nil => simp at hf
  | cons g fs ih =>
    simp only [map_cons, nodup_cons] at h
    simp only [get, find?_cons]
    rcases mem_cons.mp hf with rfl | hf
    · simp
    · have hne : g.1 ≠ f.1 := fun e => h.1 (e ▸ mem_map_of_mem hf)
      simpa [hne, get] using ih h.2 hf

end PiWebUi.Lib.Json
