/-
  PiWebUi.Lib.JsText — the string methods of the language.

  `indexFrom` is `indexOf(needle, start)`, `trim` and `collapseSpace` (a replacement of
  `/\s+/g` by one space) use the white space and line terminators of the language,
  `Json.toText` is `String(value)` and `isoString` is `Date.prototype.toISOString` of an
  instant between 1970 and 9999. A text contains itself (`includes_self`), and an
  occurrence that starts at or after the search position is found
  (`indexFrom_append`).
-/

import PiWebUi.Lib.Json

namespace PiWebUi.Lib

/-- White space and line terminators: what `trim` strips and `\s` matches. -/
def isWhiteSpace (u : UInt16) : Bool :=
  (9 ≤ u && u ≤ 13) || u = 0x20 || u = 0xA0 || u = 0x1680 || (0x2000 ≤ u && u ≤ 0x200A) ||
    u = 0x2028 || u = 0x2029 || u = 0x202F || u = 0x205F || u = 0x3000 || u = 0xFEFF

def trim (s : JsString) : JsString := ((s.dropWhile isWhiteSpace).reverse.dropWhile isWhiteSpace).reverse

/-- `text.replace(/\s+/g, ' ')`; `inSpace` says that the previous unit was white space. -/
def collapseSpaceFrom : Bool → JsString → JsString
  | _, [] => []
  | inSpace, u :: r =>
    if isWhiteSpace u then
      if inSpace then collapseSpaceFrom true r else 32 :: collapseSpaceFrom true r
    else u :: collapseSpaceFrom false r

def collapseSpace (s : JsString) : JsString := collapseSpaceFrom false s

/-! ## Searching -/

/-- `haystack.indexOf(needle, start)`; `none` is `-1`. -/
def indexFrom (haystack needle : JsString) (start : ℕ) : Option ℕ :=
  ((List.range (haystack.length + 1 - start)).find? fun i => needle.isPrefixOf (haystack.drop (start + i))).map (start + ·)

def includes (haystack needle : JsString) : Bool := (indexFrom haystack needle 0).isSome

theorem indexFrom_isSome {haystack needle : JsString} {start : ℕ} : (indexFrom haystack needle start).isSome = true ↔
      ∃ i, start ≤ i ∧ i ≤ haystack.length ∧ needle.isPrefixOf (haystack.drop i) = true := by
  rw [indexFrom, Option.isSome_map, List.find?_isSome]
  constructor
  · rintro ⟨i, hi, hp⟩
    rw [List.mem_range] at hi
    exact ⟨start + i, by omega, by omega, hp⟩
  · rintro ⟨i, hs, hl, hp⟩
    refine ⟨i - start, List.mem_range.mpr (by omega), ?_⟩
    rw [show start + (i - start) = i by omega]
    exact hp

theorem indexFrom_append (p needle r : JsString) {start : ℕ} (h : start ≤ p.length) :
    (indexFrom (p ++ needle ++ r) needle start).isSome = true := by
  rw [indexFrom_isSome]
  refine ⟨p.length, h, by simp, ?_⟩
  rw [List.append_assoc, List.drop_left]
  exact List.isPrefixOf_iff_prefix.mpr ⟨r, rfl⟩

theorem includes_self (s : JsString) : includes s s = true := by
  have h := indexFrom_append [] s [] (Nat.le_refl 0)
  simpa [includes] using h

/-! ## `String(value)` -/

namespace Json

mutual
def toText : Json → JsString
  | null => js "null"
  | bool b => js (if b then "true" else "false")
  | num x => x.toText
  | str s => s
  | arr xs => elementsText xs
  | obj _ => js "[object Object]"

/-- `xs.join(',')`: `null` is the empty text. -/
def elementsText : List Json → JsString
  | [] => []
  | [x] => elementText x
  | x :: xs => elementText x ++ js "," ++ elementsText xs

def elementText : Json → JsString
  | null => []
  | bool b => js (if b then "true" else "false")
  | num x => x.toText
  | str s => s
  | arr xs => elementsText xs
  | obj _ => js "[object Object]"
end

/-- `String(value ?? fallback)`. -/
def textOr (v : Option Json) (fallback : JsString) : JsString :=
  match v with
  | none | some null => fallback
  | some w => w.toText

end Json

/-! ## Instants -/

def pad (width : ℕ) (n : ℕ) : JsString :=
  JsNumber.zeros (width - (JsNumber.natText n).length) ++ JsNumber.natText n

/-- The civil date (year, month, day) of a day counted from 1970-01-01; eras are 400 years
    that start on 1 March. -/
def civilDate (day : ℕ) : ℕ × ℕ × ℕ :=
  let z := day + 719468
  let era := z / 146097
  let dayOfEra := z % 146097
  let yearOfEra := (dayOfEra - dayOfEra / 1460 + dayOfEra / 36524 - dayOfEra / 146096) / 365
  let dayOfYear := dayOfEra - (365 * yearOfEra + yearOfEra / 4 - yearOfEra / 100)
  let mp := (5 * dayOfYear + 2) / 153
  let month := if mp < 10 then mp + 3 else mp - 9
  (yearOfEra + era * 400 + (if month ≤ 2 then 1 else 0), month, dayOfYear - (153 * mp + 2) / 5 + 1)

/-- `new Date(ms).toISOString()`. -/
def isoString (ms : ℕ) : JsString :=
  let (year, month, day) := civilDate (ms / 86400000)
  let rest := ms % 86400000
  pad 4 year ++ js "-" ++ pad 2 month ++ js "-" ++ pad 2 day ++ js "T" ++ pad 2 (rest / 3600000) ++ js ":" ++
    pad 2 (rest / 60000 % 60) ++ js ":" ++ pad 2 (rest / 1000 % 60) ++ js "." ++ pad 3 (rest % 1000) ++ js "Z"

example : isoString 1791244799042 = js "2026-10-05T23:59:59.042Z" := by decide +kernel

end PiWebUi.Lib
