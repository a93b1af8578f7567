/-
  PiWebUi.Lib.JsonLine — a printed value as a text on its own line.

  `JSON.stringify` is well formed: whatever the strings of a value hold, its text has no
  unpaired surrogate (`wellFormed_stringify`), so its octets read back as the text. An
  object's text starts and ends with its braces (`stringify_obj`).
-/

import PiWebUi.Lib.JsonRoundTrip
import PiWebUi.Lib.Utf8

namespace PiWebUi.Lib.Json

open Utf8

theorem wellFormed_graphic {s : JsString} (h : ∀ u ∈ s, JsNumber.Graphic u) : WellFormed s := by
  refine wellFormed_of_forall fun u hu => ?_
  have := (h u hu).2
  rw [← Bool.not_eq_true, surrogate_toNat]
  omega

theorem hexDigit_plain : ∀ n < 16, isSurrogate (hexDigit n) = false := by decide

theorem wellFormed_escapeUnit (u : UInt16) : WellFormed (escapeUnit u) := by
  unfold escapeUnit
  split_ifs with h1 h2 h3 h4 h5 h6 h7 h8
  iterate 7 exact wellFormed_of_all (by decide)
  · have hlt : u.toNat < 65536 := u.toNat_lt
    refine wellFormed_of_forall fun v hv => ?_
    simp only [unicodeEscape, List.mem_cons, List.not_mem_nil, or_false] at hv
    rcases hv with rfl | rfl | rfl | rfl | rfl | rfl
    · decide
    · decide
    all_goals exact hexDigit_plain _ (by omega)
  · have hs : isSurrogate u = false := by
      rw [← Bool.not_eq_true, isSurrogate, Bool.or_eq_true]
      exact fun h => h8 (.inr h)
    exact hs

theorem wellFormed_escape (s : JsString) : WellFormed (escape s) := by
  induction s using escape.induct with
  | case1 => trivial
  | case2 u => exact wellFormed_escapeUnit u
  | case3 u v s h ih =>
    rw [escape, if_pos h, WellFormed, if_pos h]
    exact ih
  | case4 u v s h ih =>
    rw [escape, if_neg h]
    exact wellFormed_append (wellFormed_escapeUnit u) ih

theorem wellFormed_cons {u : UInt16} (h : isSurrogate u = false) {s : JsString} (hs : WellFormed s) : WellFormed (u :: s) :=
  wellFormed_append (s := [u]) h hs

theorem wellFormed_quote (s : JsString) : WellFormed (quote s) :=
  wellFormed_cons (by decide) (wellFormed_append (wellFormed_escape s) (wellFormed_of_all (by decide)))

mutual
theorem wellFormed_stringify : ∀ v : Json, WellFormed (stringify v)
  | null => wellFormed_of_all (by decide)
  | bool true => wellFormed_of_all (by decide)
  | bool false => wellFormed_of_all (by decide)
  | str s => wellFormed_quote s
  | num x => by
    simp only [stringify]
    split
    · exact wellFormed_graphic JsNumber.graphic_toText
    · exact wellFormed_of_all (by decide)
  | arr [] => wellFormed_of_all (by decide)
  | arr (x :: xs) => wellFormed_cons (by decide) (wellFormed_append (wellFormed_stringify x) (wellFormed_elements xs))
  | obj [] => wellFormed_of_all (by decide)
  | obj ((k, v) :: fs) => wellFormed_cons (by decide) (wellFormed_append (wellFormed_quote k)
      (wellFormed_cons (by decide) (wellFormed_append (wellFormed_stringify v) (wellFormed_members fs))))

theorem wellFormed_elements : ∀ xs : List Json, WellFormed (stringifyElements xs)
  | [] => wellFormed_of_all (by decide)
  | x :: xs => wellFormed_cons (by decide) (wellFormed_append (wellFormed_stringify x) (wellFormed_elements xs))

theorem wellFormed_members : ∀ fs : List (JsString × Json), WellFormed (stringifyMembers fs)
  | [] => wellFormed_of_all (by decide)
  | (k, v) :: fs => wellFormed_cons (by decide) (wellFormed_append (wellFormed_quote k)
      (wellFormed_cons (by decide) (wellFormed_append (wellFormed_stringify v) (wellFormed_members fs))))
end

theorem stringifyMembers_last : ∀ fs : List (JsString × Json), ∃ t, stringifyMembers fs = t ++ [125]
  | [] => ⟨[], rfl⟩
  | (k, v) :: fs => by
    obtain ⟨t, ht⟩ := stringifyMembers_last fs
    exact ⟨44 :: (quote k ++ 58 :: (stringify v ++ t)), by simp [stringifyMembers, ht]⟩

/-- The text of an object, between its braces. -/
theorem stringify_obj (fs : List (JsString × Json)) : ∃ t, stringify (.obj fs) = 123 :: (t ++ [125]) := by
  cases fs with
  | nil => exact ⟨[], by decide⟩
  | cons f fs =>
    obtain ⟨t, ht⟩ := stringifyMembers_last fs
    exact ⟨quote f.1 ++ 58 :: (stringify f.2 ++ t), by simp [stringify, ht]⟩

end PiWebUi.Lib.Json
