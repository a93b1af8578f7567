/-
  PiWebUi.Lib.JsString — JavaScript strings as lists of UTF-16 code units.

  A JavaScript string is any sequence of 16-bit code units, unpaired surrogates
  included, and `length`, `slice` and `split` count code units. `js` embeds a Lean
  literal; `lines` is `split('\n')`; `utf8Length` is `Buffer.byteLength`.
-/

import Mathlib.Data.List.Basic

namespace PiWebUi.Lib

abbrev JsString := List UInt16

instance : LawfulBEq JsString := inferInstanceAs (LawfulBEq (List UInt16))

/-- The UTF-16 encoding of one character. -/
def utf16 (c : Char) : JsString :=
  if c.toNat < 0x10000 then [c.toNat.toUInt16]
  else
    let x := c.toNat - 0x10000
    [(0xD800 + x / 0x400).toUInt16, (0xDC00 + x % 0x400).toUInt16]

def js (s : String) : JsString := s.toList.flatMap utf16

/-- The code unit of an ASCII character. -/
def unit (c : Char) : UInt16 := c.toNat.toUInt16

def newline : UInt16 := 10

def isHighSurrogate (u : UInt16) : Bool := 0xD800 ≤ u && u ≤ 0xDBFF

def isLowSurrogate (u : UInt16) : Bool := 0xDC00 ≤ u && u ≤ 0xDFFF

def isDigit (u : UInt16) : Bool := 48 ≤ u && u ≤ 57

/-- `Buffer.byteLength`: an unpaired surrogate is encoded as U+FFFD, three bytes. -/
def utf8Length : JsString → Nat
  | [] => 0
  | [u] => if u < 0x80 then 1 else if u < 0x800 then 2 else 3
  | u :: v :: r =>
    if u < 0x80 then 1 + utf8Length (v :: r)
    else if u < 0x800 then 2 + utf8Length (v :: r)
    else if isHighSurrogate u && isLowSurrogate v then 4 + utf8Length r
    else 3 + utf8Length (v :: r)

/-! ## Lines -/

/-- `text.split('\n')`. -/
def lines : JsString → List JsString
  | [] => [[]]
  | u :: r =>
    if u = newline then [] :: lines r
    else match lines r with
      | l :: ls => (u :: l) :: ls
      | [] => [[u]]

/-- `parts.join('\n')`. -/
def joinLines (ls : List JsString) : JsString := List.intercalate [newline] ls

theorem length_le_utf8Length (s : JsString) : s.length ≤ utf8Length s := by
  fun_induction utf8Length s <;> simp only [List.length_cons, List.length_nil] at * <;> omega

theorem lines_ne_nil (s : JsString) : lines s ≠ [] := by
  cases s with
  | nil => simp [lines]
  | cons u r =>
    simp only [lines]
    split
    · simp
    · split <;> simp

/-- A text without a newline is one line. -/
theorem lines_of_no_newline {s : JsString} (h : newline ∉ s) : lines s = [s] := by
  induction s with
  | nil => rfl
  | cons u r ih =>
    simp only [List.mem_cons, not_or] at h
    simp [lines, Ne.symm h.1, ih h.2]

/-- A newline separates the lines before it from the lines after it. -/
theorem lines_append_newline (p s : JsString) : lines (p ++ newline :: s) = lines p ++ lines s := by
  induction p with
  | nil => simp [lines]
  | cons u p ih =>
    simp only [List.cons_append, lines, ih]
    split
    · rfl
    · cases hp : lines p with
      | nil => exact absurd hp (lines_ne_nil p)
      | cons l ls => rfl

theorem joinLines_singleton (l : JsString) : joinLines [l] = l := by
  simp [joinLines, List.intercalate]

end PiWebUi.Lib
