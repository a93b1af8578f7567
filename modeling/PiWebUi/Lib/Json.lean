/-
  PiWebUi.Lib.Json — JSON values, `JSON.stringify` and `JSON.parse`.

  An object is the list of its own properties in creation order. `stringify` escapes
  what the language escapes: the quote, the backslash, the controls below U+0020 and
  every unpaired surrogate (well-formed `JSON.stringify`). `parse` accepts exactly
  RFC 8259 texts; a repeated member overwrites the first one in place, and a number
  is rounded to binary64. Each recursive call of the parser consumes a code unit, so
  the text's length is enough fuel.
-/

import PiWebUi.Lib.JsNumber

namespace PiWebUi.Lib

open List

inductive Json where
  | null
  | bool (b : Bool)
  | num (x : JsNumber)
  | str (s : JsString)
  | arr (xs : List Json)
  | obj (fields : List (JsString × Json))

namespace Json

mutual
def decEq : (v w : Json) → Decidable (v = w)
  | null, null => isTrue rfl
  | bool b, bool c => if h : b = c then isTrue (h ▸ rfl) else isFalse (h ∘ bool.inj)
  | num x, num y => if h : x = y then isTrue (h ▸ rfl) else isFalse (h ∘ num.inj)
  | str s, str t => if h : s = t then isTrue (h ▸ rfl) else isFalse (h ∘ str.inj)
  | arr xs, arr ys =>
    match decEqList xs ys with
    | isTrue h => isTrue (h ▸ rfl)
    | isFalse h => isFalse (h ∘ arr.inj)
  | obj fs, obj gs =>
    match decEqFields fs gs with
    | isTrue h => isTrue (h ▸ rfl)
    | isFalse h => isFalse (h ∘ obj.inj)
  | null, bool _ | null, num _ | null, str _ | null, arr _ | null, obj _
  | bool _, null | bool _, num _ | bool _, str _ | bool _, arr _ | bool _, obj _
  | num _, null | num _, bool _ | num _, str _ | num _, arr _ | num _, obj _
  | str _, null | str _, bool _ | str _, num _ | str _, arr _ | str _, obj _
  | arr _, null | arr _, bool _ | arr _, num _ | arr _, str _ | arr _, obj _
  | obj _, null | obj _, bool _ | obj _, num _ | obj _, str _ | obj _, arr _ => isFalse (by simp)

def decEqList : (xs ys : List Json) → Decidable (xs = ys)
  | [], [] => isTrue rfl
  | [], _ :: _ | _ :: _, [] => isFalse (by simp)
  | x :: xs, y :: ys =>
    match decEq x y, decEqList xs ys with
    | isTrue h, isTrue k => isTrue (h ▸ k ▸ rfl)
    | isFalse h, _ => isFalse (h ∘ (List.cons.inj · |>.1))
    | _, isFalse k => isFalse (k ∘ (List.cons.inj · |>.2))

def decEqFields : (fs gs : List (JsString × Json)) → Decidable (fs = gs)
  | [], [] => isTrue rfl
  | [], _ :: _ | _ :: _, [] => isFalse (by simp)
  | (k, v) :: fs, (l, w) :: gs =>
    match decEq v w, decEqFields fs gs with
    | isTrue h, isTrue t => if e : k = l then isTrue (e ▸ h ▸ t ▸ rfl) else isFalse (by simp [e])
    | isFalse h, _ => isFalse (by simp [h])
    | _, isFalse t => isFalse (by simp [t])
end

instance : DecidableEq Json := decEq

/-- The own property `key` of an object; `none` for every other value. -/
def get (v : Json) (key : JsString) : Option Json :=
  match v with
  | obj fields => (fields.find? (·.1 = key)).map (·.2)
  | _ => none

/-- `Object.keys`. -/
def keys : Json → List JsString
  | obj fields => fields.map (·.1)
  | _ => []

/-- Assign an own property: in place when it exists, at the end otherwise. -/
def setField (fields : List (JsString × Json)) (key : JsString) (v : Json) : List (JsString × Json) :=
  if fields.any (·.1 = key) then fields.map fun f => if f.1 = key then (key, v) else f
  else fields ++ [(key, v)]

theorem find_replace (fs : List (JsString × Json)) (j k : JsString) (v : Json) :
    ((fs.map fun f => if f.1 = k then (k, v) else f).find? (·.1 = j)).map (·.2) =
      if j = k then (if fs.any (·.1 = k) then some v else none) else (fs.find? (·.1 = j)).map (·.2) := by
  induction fs with
  | nil => simp
  | cons f fs ih =>
    rw [map_cons]
    by_cases hf : f.1 = k
    · by_cases hj : j = k
      · simp [hf, hj]
      · rw [if_pos hf, find?_cons_of_neg (by simpa using Ne.symm hj), ih, if_neg hj, if_neg hj,
          find?_cons_of_neg (by simpa [hf] using Ne.symm hj)]
    · rw [if_neg hf]
      by_cases hfj : f.1 = j
      · have hj : j ≠ k := hfj ▸ hf
        rw [if_neg hj, find?_cons_of_pos (by simpa using hfj), find?_cons_of_pos (by simpa using hfj)]
      · rw [find?_cons_of_neg (by simpa using hfj), find?_cons_of_neg (by simpa using hfj), ih]
        simp only [any_cons, hf, decide_false, Bool.false_or]

theorem get_setField (fs : List (JsString × Json)) (j k : JsString) (v : Json) :
    (obj (setField fs k v)).get j = if j = k then some v else (obj fs).get j := by
  simp only [get, setField]
  by_cases hany : fs.any (·.1 = k) = true
  · rw [if_pos hany, find_replace, if_pos hany]
  · rw [if_neg hany, find?_append]
    have hnone : fs.find? (·.1 = k) = none :=
      find?_eq_none.mpr fun f hf hfk => hany (any_eq_true.mpr ⟨f, hf, hfk⟩)
    by_cases hj : j = k
    · subst hj; simp [hnone]
    · simp [hj, Ne.symm hj]

/-! ## `JSON.stringify` -/

def hexDigit (n : ℕ) : UInt16 := if n < 10 then (48 + n).toUInt16 else (87 + n).toUInt16

def unicodeEscape (u : UInt16) : JsString :=
  let n := u.toNat
  [92, 117, hexDigit (n / 4096), hexDigit (n / 256 % 16), hexDigit (n / 16 % 16), hexDigit (n % 16)]

/-- One code unit that is not part of a surrogate pair. -/
def escapeUnit (u : UInt16) : JsString :=
  if u = 34 then [92, 34]
  else if u = 92 then [92, 92]
  else if u = 8 then [92, 98]
  else if u = 9 then [92, 116]
  else if u = 10 then [92, 110]
  else if u = 12 then [92, 102]
  else if u = 13 then [92, 114]
  else if u < 32 ∨ isHighSurrogate u ∨ isLowSurrogate u then unicodeEscape u
  else [u]

def escape : JsString → JsString
  | [] => []
  | [u] => escapeUnit u
  | u :: v :: r =>
    if isHighSurrogate u && isLowSurrogate v then u :: v :: escape r
    else escapeUnit u ++ escape (v :: r)

def quote (s : JsString) : JsString := 34 :: (escape s ++ [34])

mutual
def stringify : Json → JsString
  | null => js "null"
  | bool true => js "true"
  | bool false => js "false"
  | num x => if x.isFinite then x.toText else js "null"
  | str s => quote s
  | arr [] => js "[]"
  | arr (x :: xs) => 91 :: (stringify x ++ stringifyElements xs)
  | obj [] => js "{}"
  | obj ((k, v) :: fs) => 123 :: (quote k ++ 58 :: (stringify v ++ stringifyMembers fs))

/-- The elements after the first, and the bracket. -/
def stringifyElements : List Json → JsString
  | [] => [93]
  | x :: xs => 44 :: (stringify x ++ stringifyElements xs)

/-- The members after the first, and the brace. -/
def stringifyMembers : List (JsString × Json) → JsString
  | [] => [125]
  | (k, v) :: fs => 44 :: (quote k ++ 58 :: (stringify v ++ stringifyMembers fs))
end

/-! ## `JSON.parse` -/

def isSpace (u : UInt16) : Bool := u = 32 || u = 9 || u = 10 || u = 13

def skipSpace : JsString → JsString
  | [] => []
  | u :: r => if isSpace u then skipSpace r else u :: r

def hexValue (u : UInt16) : Option ℕ :=
  if 48 ≤ u && u ≤ 57 then some (u.toNat - 48)
  else if 97 ≤ u && u ≤ 102 then some (u.toNat - 87)
  else if 65 ≤ u && u ≤ 70 then some (u.toNat - 55)
  else none

def simpleEscape (u : UInt16) : Option UInt16 :=
  if u = 34 then some 34
  else if u = 92 then some 92
  else if u = 47 then some 47
  else if u = 98 then some 8
  else if u = 102 then some 12
  else if u = 110 then some 10
  else if u = 114 then some 13
  else if u = 116 then some 9
  else none

/-- The body of a string literal, after its opening quote. -/
def parseString : JsString → Option (JsString × JsString)
  | [] => none
  | 92 :: 117 :: a :: b :: c :: d :: r => do
    let n := 4096 * (← hexValue a) + 256 * (← hexValue b) + 16 * (← hexValue c) + (← hexValue d)
    let (s, rest) ← parseString r
    some (n.toUInt16 :: s, rest)
  | 92 :: u :: r => do
    let e ← simpleEscape u
    let (s, rest) ← parseString r
    some (e :: s, rest)
  | u :: r =>
    if u = 34 then some ([], r)
    else if u < 32 ∨ u = 92 then none
    else do
      let (s, rest) ← parseString r
      some (u :: s, rest)

/-- The integer part: a zero alone, or digits that do not start with zero. -/
def parseInteger (s : JsString) : Option (ℕ × JsString) :=
  match s.span isDigit with
  | ([], _) => none
  | (48 :: ds, r) => some (0, ds ++ r)
  | (ds, r) => some (JsNumber.digitsValue ds, r)

/-- The fraction: its digits and how many there are. -/
def parseFraction : JsString → Option (ℕ × ℕ × JsString)
  | 46 :: s =>
    match s.span isDigit with
    | ([], _) => none
    | (ds, r) => some (JsNumber.digitsValue ds, ds.length, r)
  | s => some (0, 0, s)

def parseExponentDigits (neg : Bool) (s : JsString) : Option (ℤ × JsString) :=
  match s.span isDigit with
  | ([], _) => none
  | (ds, r) => some (if neg then -(JsNumber.digitsValue ds : ℤ) else JsNumber.digitsValue ds, r)

def parseExponent : JsString → Option (ℤ × JsString)
  | u :: s =>
    if u = 101 ∨ u = 69 then
      match s with
      | 43 :: r => parseExponentDigits false r
      | 45 :: r => parseExponentDigits true r
      | r => parseExponentDigits false r
    else some (0, u :: s)
  | [] => some (0, [])

def parseUnsigned (neg : Bool) (s : JsString) : Option (Json × JsString) := do
  let (int, s) ← parseInteger s
  let (frac, k, s) ← parseFraction s
  let (exp, s) ← parseExponent s
  let q := ((int : ℚ) + frac / (10 ^ k : ℕ)) * JsNumber.pow10 exp
  some (num (JsNumber.roundBinary64 (if neg then -q else q)), s)

def parseNumber : JsString → Option (Json × JsString)
  | 45 :: s => parseUnsigned true s
  | s => parseUnsigned false s

def expect (word : JsString) (v : Json) (s : JsString) : Option (Json × JsString) :=
  if word.isPrefixOf s then some (v, s.drop word.length) else none

mutual
def parseValue : ℕ → JsString → Option (Json × JsString)
  | 0, _ => none
  | n + 1, s =>
    match skipSpace s with
    | 123 :: r =>
      match skipSpace r with
      | 125 :: r => some (obj [], r)
      | r => parseMember n [] r
    | 91 :: r =>
      match skipSpace r with
      | 93 :: r => some (arr [], r)
      | r => parseElement n [] r
    | 34 :: r => (parseString r).map fun p => (str p.1, p.2)
    | 116 :: r => expect (js "rue") (bool true) r
    | 102 :: r => expect (js "alse") (bool false) r
    | 110 :: r => expect (js "ull") null r
    | r => parseNumber r

/-- One element and what follows it; `done` are the elements before it. -/
def parseElement : ℕ → List Json → JsString → Option (Json × JsString)
  | 0, _, _ => none
  | n + 1, done, s => do
    let (v, r) ← parseValue n s
    match skipSpace r with
    | 44 :: r => parseElement n (done ++ [v]) r
    | 93 :: r => some (arr (done ++ [v]), r)
    | _ => none

/-- One member and what follows it; `done` are the members before it. -/
def parseMember : ℕ → List (JsString × Json) → JsString → Option (Json × JsString)
  | 0, _, _ => none
  | n + 1, done, s =>
    match skipSpace s with
    | 34 :: r => do
      let (k, r) ← parseString r
      match skipSpace r with
      | 58 :: r => do
        let (v, r) ← parseValue n r
        match skipSpace r with
        | 44 :: r => parseMember n (setField done k v) r
        | 125 :: r => some (obj (setField done k v), r)
        | _ => none
      | _ => none
    | _ => none
end

/-- `JSON.parse`; `none` where it throws a SyntaxError. -/
def parse (text : JsString) : Option Json :=
  match parseValue (2 * text.length + 1) text with
  | some (v, r) => if skipSpace r = [] then some v else none
  | none => none

example : parse (js "\x7b\"a\":[1,2.5e1,\"x\\n\"],\"a\" : null\x7d") = some (obj [(js "a", null)]) := by decide +kernel

end Json

end PiWebUi.Lib
