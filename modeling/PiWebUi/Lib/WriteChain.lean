/-
  PiWebUi.Lib.WriteChain — the writes of one file, one after the other.

  A write takes the file's content when its turn comes, not when it is asked for, and
  replaces the file by a rename. It settles before or after that; who asked for it goes
  on when it has. A crash leaves the file and none of the writes.
-/

import Mathlib.Data.List.Basic

namespace PiWebUi.Lib

/-- `waiting` is who asked for each write, oldest first; the oldest is the one that runs. -/
structure WriteChain (α β : Type) where
  file : α
  waiting : List β
  snapshot : Option α
  renamed : Bool
deriving DecidableEq

namespace WriteChain

variable {α β : Type} {c : WriteChain α β}

def new (file : α) : WriteChain α β := ⟨file, [], none, false⟩

def persist (c : WriteChain α β) (op : β) : WriteChain α β := { c with waiting := c.waiting ++ [op] }

/-- The oldest write takes its content. -/
def stringify (c : WriteChain α β) (content : α) : WriteChain α β :=
  if c.waiting.isEmpty || c.snapshot.isSome then c else { c with snapshot := some content }

def rename (c : WriteChain α β) : WriteChain α β :=
  match c.snapshot with
  | some content => if c.renamed then c else { c with file := content, renamed := true }
  | none => c

/-- The oldest write is over. -/
def settle (c : WriteChain α β) : WriteChain α β := { c with waiting := c.waiting.tail, snapshot := none, renamed := false }

theorem settle_waiting {op : β} {rest : List β} (h : c.waiting = op :: rest) : c.settle.waiting = rest :=
  congrArg List.tail h

theorem stringify_cases (c : WriteChain α β) (content : α) :
    c.stringify content = c ∨ c.stringify content = { c with snapshot := some content } := by
  unfold stringify
  split
  · exact .inl rfl
  · exact .inr rfl

theorem rename_cases (c : WriteChain α β) :
    c.rename = c ∨ ∃ content, c.snapshot = some content ∧ c.rename = { c with file := content, renamed := true } := by
  unfold rename
  split
  · next content hs =>
    split
    · exact .inl rfl
    · exact .inr ⟨content, hs, rfl⟩
  · exact .inl rfl

/-- A content was taken for a write, and what was renamed is the file. -/
structure Wf (c : WriteChain α β) : Prop where
  waiting : c.snapshot ≠ none → c.waiting ≠ []
  renamed : c.renamed = true → c.snapshot = some c.file

theorem wf_new (file : α) : (new file : WriteChain α β).Wf := ⟨fun h => absurd rfl h, nofun⟩

theorem Wf.persist (h : c.Wf) (op : β) : (c.persist op).Wf :=
  ⟨fun _ => by simp [WriteChain.persist], h.renamed⟩

theorem Wf.stringify (h : c.Wf) (content : α) : (c.stringify content).Wf := by
  unfold WriteChain.stringify
  split
  · exact h
  · next hc =>
    simp only [Bool.or_eq_true, List.isEmpty_iff, not_or] at hc
    refine ⟨fun _ => hc.1, fun hr => ?_⟩
    have hs := h.renamed hr
    exact absurd (by rw [hs]; rfl) hc.2

theorem Wf.rename (h : c.Wf) : c.rename.Wf := by
  rcases rename_cases c with hsame | ⟨content, hs, hrenamed⟩
  · rw [hsame]
    exact h
  · rw [hrenamed]
    exact ⟨h.waiting, fun _ => hs⟩

theorem wf_settle (c : WriteChain α β) : c.settle.Wf := ⟨fun hs => absurd rfl hs, nofun⟩

end WriteChain

end PiWebUi.Lib
