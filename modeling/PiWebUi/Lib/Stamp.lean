/-
  PiWebUi.Lib.Stamp — a content that carries the number of its last change.

  A machine counts its changes and holds at most one content, stamped with the count at
  the change that made it. Where every step keeps the content, drops it or stamps a new
  one beyond the count (`Moves`), a stamp names one content for the whole run
  (`content_of_stamp`).
-/

import PiWebUi.Lib.Run
import Mathlib.Data.Nat.Notation

namespace PiWebUi.Lib

structure Stamped (σ α : Type) where
  count : σ → ℕ
  held : σ → Option (ℕ × α)

namespace Stamped

variable {σ ε α : Type} (S : Stamped σ α)

/-- No stamp is beyond the count. -/
def Bounded (s : σ) : Prop := ∀ h, S.held s = some h → h.1 ≤ S.count s

/-- The content stays, is dropped, or is one with a new stamp. -/
structure Moves (s s' : σ) : Prop where
  count : S.count s ≤ S.count s'
  held : ∀ h, S.held s' = some h → S.held s = some h ∨ S.count s < h.1 ∧ h.1 ≤ S.count s'

variable {S} {step : σ → ε → σ}

theorem Bounded.moves {s s' : σ} (h : S.Bounded s) (hm : S.Moves s s') : S.Bounded s' := by
  intro c hc
  rcases hm.held c hc with hsame | hnew
  · exact Nat.le_trans (h c hsame) hm.count
  · exact hnew.2

section

variable (hstep : ∀ s e, S.Moves s (step s e)) {s : σ}
include hstep

theorem bounded_run (h : S.Bounded s) (es : List ε) : S.Bounded (es.foldl step s) := by
  induction es generalizing s with
  | nil => exact h
  | cons e es ih => exact ih (h.moves (hstep s e))

/-- What is held with an old stamp was held then. -/
theorem held_of_old {es : List ε} {c : ℕ × α}
    (hc : S.held (es.foldl step s) = some c) (hold : c.1 ≤ S.count s) : S.held s = some c := by
  induction es generalizing s with
  | nil => exact hc
  | cons e es ih =>
    have hmove := hstep s e
    have hnext := ih hc (Nat.le_trans hold hmove.count)
    rcases hmove.held c hnext with hsame | hnew
    · exact hsame
    · omega

theorem content_of_stamp (h : S.Bounded s) {es : List ε} {n : ℕ} {a b : α}
    (ha : S.held s = some (n, a)) (hb : S.held (es.foldl step s) = some (n, b)) : a = b := by
  have hthen := held_of_old hstep hb (h (n, a) ha)
  rw [ha] at hthen
  exact congrArg Prod.snd (Option.some.inj hthen)

end

end Stamped

end PiWebUi.Lib
