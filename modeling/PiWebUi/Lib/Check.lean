/-
  PiWebUi.Lib.Check — checks that return nothing or throw a message.

  `throwWhen` throws under a condition and `forEach` checks every element in order. A
  sequence of checks passes exactly when each of them does. Steps that give a value give one
  just when each of them does (`bind_eq_ok`).
-/

import PiWebUi.Lib.JsString

namespace PiWebUi.Lib

abbrev Check := Except JsString Unit

namespace Check

def throwWhen (bad : Bool) (message : JsString) : Check := if bad then .error message else .ok ()

def forEach {α : Type} (check : α → Check) : List α → Check
  | [] => .ok ()
  | x :: xs => do
    check x
    forEach check xs

@[simp] theorem throwWhen_ok {bad : Bool} {message : JsString} : throwWhen bad message = .ok () ↔ bad = false := by
  cases bad <;> simp [throwWhen]

@[simp] theorem bind_ok {x : Check} {f : Unit → Check} : (x >>= f) = .ok () ↔ x = .ok () ∧ f () = .ok () := by
  cases x with
  | error e => simp [bind, Except.bind]
  | ok u => cases u; simp [bind, Except.bind]

@[simp] theorem forEach_ok {α : Type} {check : α → Check} {xs : List α} :
    forEach check xs = .ok () ↔ ∀ x ∈ xs, check x = .ok () := by
  induction xs with
  | nil => simp [forEach]
  | cons x xs ih => simp [forEach, ih]

end Check

theorem bind_eq_ok {ε α β : Type} {x : Except ε α} {f : α → Except ε β} {b : β} :
    (x >>= f) = .ok b ↔ ∃ a, x = .ok a ∧ f a = .ok b := by
  cases x with
  | error e | ok a => simp [bind, Except.bind]

end PiWebUi.Lib
