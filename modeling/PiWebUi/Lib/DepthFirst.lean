/-
  PiWebUi.Lib.DepthFirst — a depth-first search for cycles.

  `visit` marks the nodes it has come to and, on a stack, those it is still in; it answers
  `true` at the first node that it comes to again while it is in it. What it has left is
  closed under edges and on no cycle (`Clean`), which every visit keeps
  (`visit_false`), and whatever is on the stack leads to the node it looks at
  (`visit_true`). Every visit that goes deeper marks a node, so as much fuel as there are
  nodes is enough (`visit_some`). `search_iff` puts the three together.
-/

import Mathlib.Data.Finset.SDiff
import Mathlib.Data.Finset.Card
import Mathlib.Logic.Relation

namespace PiWebUi.Lib.DepthFirst

open List Option

open Relation (TransGen ReflTransGen)

variable {α β : Type} [DecidableEq α]

structure Marks (α : Type) where
  visited : List α := []
  stack : List α := []

/-- The nodes one after the other, up to the first from which a cycle is found. -/
def visitEach (visit : α → Marks α → Option (Bool × Marks α)) : List α → Marks α → Option (Bool × Marks α)
  | [], s => some (false, s)
  | a :: as, s => (visit a s).bind fun r => if r.1 then some r else visitEach visit as r.2

/-- The search comes to a node. -/
def Marks.enter (s : Marks α) (a : α) : Marks α := { visited := a :: s.visited, stack := a :: s.stack }

/-- It is done with the node. -/
def Marks.leave (s : Marks α) (a : α) : Marks α := { s with stack := s.stack.filter (· ≠ a) }

def visit (next : α → List α) : ℕ → α → Marks α → Option (Bool × Marks α)
  | 0, _, _ => none
  | fuel + 1, a, s =>
    if a ∈ s.stack then some (true, s)
    else if a ∈ s.visited then some (false, s)
    else
      (visitEach (visit next fuel) (next a) (s.enter a)).bind fun r => if r.1 then some r else some (false, r.2.leave a)

/-- The first of the roots from which a cycle is found. -/
def search (next : α → List α) (fuel : ℕ) (node : β → α) : List β → Marks α → Option (Option β)
  | [], _ => some none
  | root :: roots, s =>
    (visit next fuel (node root) s).bind fun r => if r.1 then some (some root) else search next fuel node roots r.2

/-- An edge of the graph. -/
def Edge (next : α → List α) (a b : α) : Prop := b ∈ next a

/-- The search has come to the node and left it. -/
def Left (s : Marks α) (a : α) : Prop := a ∈ s.visited ∧ a ∉ s.stack

structure Clean (next : α → List α) (s : Marks α) : Prop where
  closed : ∀ a, Left s a → ∀ b ∈ next a, Left s b
  acyclic : ∀ a, Left s a → ¬ TransGen (Edge next) a a

/-- What a visit of the nodes leaves behind that finds no cycle. -/
structure Passed (next : α → List α) (as : List α) (s t : Marks α) : Prop where
  stack : t.stack = s.stack
  visited : ∀ a ∈ s.visited, a ∈ t.visited
  clean : Clean next t
  done : ∀ a ∈ as, Left t a

variable {next : α → List α} {fuel : ℕ} {a : α} {as : List α} {s t : Marks α} {nodes : List α}

omit [DecidableEq α] in
theorem Clean.reaches (h : Clean next s) {b : α} (ha : Left s a) (hab : ReflTransGen (Edge next) a b) : Left s b := by
  induction hab with
  | refl => exact ha
  | tail _ hedge ih => exact h.closed _ ih _ hedge

/-! ## No cycle is found -/

omit [DecidableEq α] in
theorem visitEach_passed {visit : α → Marks α → Option (Bool × Marks α)}
    (hvisit : ∀ a s t, Clean next s → visit a s = some (false, t) → Passed next [a] s t) :
    ∀ as s t, Clean next s → visitEach visit as s = some (false, t) → Passed next as s t := by
  intro as
  induction as with
  | nil =>
    intro s t hs h
    obtain rfl : s = t := by simpa [visitEach] using h
    exact ⟨rfl, fun _ ha => ha, hs, by simp⟩
  | cons a as ih =>
    intro s t hs h
    obtain ⟨⟨found, u⟩, hu, h⟩ := bind_eq_some_iff.mp h
    cases found with
    | true => simp at h
    | false =>
      have hfirst := hvisit a s u hs hu
      have hrest := ih u t hfirst.clean h
      refine ⟨hrest.stack.trans hfirst.stack, fun b hb => hrest.visited b (hfirst.visited b hb), hrest.clean, ?_⟩
      intro b hb
      rcases mem_cons.mp hb with rfl | hb
      · have hleft := hfirst.done b (by simp)
        exact ⟨hrest.visited b hleft.1, by rw [hrest.stack]; exact hleft.2⟩
      · exact hrest.done b hb

theorem Clean.enter (h : Clean next s) (ha : a ∉ s.visited) : Clean next (s.enter a) := by
  have hleft : ∀ b, Left (s.enter a) b ↔ Left s b := by
    intro b
    simp only [Left, Marks.enter, mem_cons, not_or]
    by_cases hb : b = a
    · subst hb
      simp [ha]
    · simp [hb]
  constructor
  · intro b hb c hc
    exact (hleft c).mpr (h.closed b ((hleft b).mp hb) c hc)
  · intro b hb
    exact h.acyclic b ((hleft b).mp hb)

/-- A node whose edges all lead to nodes that were left can be left itself. -/
theorem Clean.leave (h : Clean next t) (ha : a ∈ t.visited) (hin : a ∈ t.stack) (hdone : ∀ b ∈ next a, Left t b) :
    Clean next (t.leave a) := by
  have hleft : ∀ b, Left (t.leave a) b ↔ b = a ∨ Left t b := by
    intro b
    simp only [Left, Marks.leave, mem_filter, not_and, decide_eq_true_eq, not_not]
    by_cases hb : b = a
    · subst hb
      simp [ha]
    · simp [hb]
  constructor
  · intro b hb c hc
    rw [hleft] at hb ⊢
    rcases hb with rfl | hb
    · exact .inr (hdone c hc)
    · exact .inr (h.closed b hb c hc)
  · intro b hb hcycle
    rw [hleft] at hb
    rcases hb with rfl | hb
    · -- A cycle through `b` goes on in what was left before `b`, and `b` was not.
      obtain ⟨c, hc, hback⟩ := TransGen.head'_iff.mp hcycle
      exact (h.reaches (hdone c hc) hback).2 hin
    · exact h.acyclic b hb hcycle

theorem leave_enter_stack (h : t.stack = (s.enter a).stack) (ha : a ∉ s.stack) : (t.leave a).stack = s.stack := by
  rw [Marks.leave, h, Marks.enter, filter_cons_of_neg (by simp)]
  refine filter_eq_self.mpr fun b hb => ?_
  have hne : b ≠ a := by
    rintro rfl
    exact ha hb
  simpa using hne

theorem visit_false : ∀ fuel a s t, Clean next s → visit next fuel a s = some (false, t) → Passed next [a] s t := by
  intro fuel
  induction fuel with
  | zero => intro a s t _ h; simp [visit] at h
  | succ fuel ih =>
    intro a s t hs h
    rw [visit] at h
    by_cases hstack : a ∈ s.stack
    · simp [hstack] at h
    · rw [if_neg hstack] at h
      by_cases hvisited : a ∈ s.visited
      · obtain rfl : s = t := by simpa [hvisited] using h
        exact ⟨rfl, fun _ hb => hb, hs, by simpa using ⟨hvisited, hstack⟩⟩
      · rw [if_neg hvisited] at h
        obtain ⟨⟨found, u⟩, hu, h⟩ := bind_eq_some_iff.mp h
        cases found with
        | true => simp at h
        | false =>
          obtain rfl : u.leave a = t := by simpa using h
          have hpassed := visitEach_passed ih (next a) (s.enter a) u (hs.enter hvisited) hu
          have hmem : a ∈ u.visited := hpassed.visited a mem_cons_self
          have hin : a ∈ u.stack := by
            rw [hpassed.stack]
            exact mem_cons_self
          have hback := leave_enter_stack hpassed.stack hstack
          refine ⟨hback, fun b hb => hpassed.visited b (mem_cons_of_mem a hb), ?_, ?_⟩
          · exact hpassed.clean.leave hmem hin hpassed.done
          · intro b hb
            obtain rfl := mem_singleton.mp hb
            exact ⟨hmem, by rw [hback]; exact hstack⟩

/-! ## A cycle is found -/

omit [DecidableEq α] in
theorem visitEach_cycle {visit : α → Marks α → Option (Bool × Marks α)}
    (hfalse : ∀ a s t, Clean next s → visit a s = some (false, t) → Passed next [a] s t)
    (htrue : ∀ a s t, Clean next s → (∀ b ∈ s.stack, TransGen (Edge next) b a) → visit a s = some (true, t) →
      ∃ c, TransGen (Edge next) c c) :
    ∀ as s t, Clean next s → (∀ a ∈ as, ∀ b ∈ s.stack, TransGen (Edge next) b a) →
      visitEach visit as s = some (true, t) → ∃ c, TransGen (Edge next) c c := by
  intro as
  induction as with
  | nil => intro s t _ _ h; simp [visitEach] at h
  | cons a as ih =>
    intro s t hs hlead h
    obtain ⟨⟨found, u⟩, hu, h⟩ := bind_eq_some_iff.mp h
    cases found with
    | true => exact htrue a s u hs (hlead a mem_cons_self) hu
    | false =>
      have hfirst := hfalse a s u hs hu
      refine ih u t hfirst.clean (fun b hb c hc => ?_) h
      rw [hfirst.stack] at hc
      exact hlead b (mem_cons_of_mem a hb) c hc

theorem visit_true : ∀ fuel a s t, Clean next s → (∀ b ∈ s.stack, TransGen (Edge next) b a) →
    visit next fuel a s = some (true, t) → ∃ c, TransGen (Edge next) c c := by
  intro fuel
  induction fuel with
  | zero => intro a s t _ _ h; simp [visit] at h
  | succ fuel ih =>
    intro a s t hs hlead h
    rw [visit] at h
    by_cases hstack : a ∈ s.stack
    · exact ⟨a, hlead a hstack⟩
    · rw [if_neg hstack] at h
      by_cases hvisited : a ∈ s.visited
      · simp [hvisited] at h
      · rw [if_neg hvisited] at h
        obtain ⟨⟨found, u⟩, hu, h⟩ := bind_eq_some_iff.mp h
        cases found with
        | false => simp at h
        | true =>
          refine visitEach_cycle (visit_false fuel) ih (next a) (s.enter a) u (hs.enter hvisited) ?_ hu
          intro b hb c hc
          rcases mem_cons.mp hc with rfl | hc
          · exact .single hb
          · exact (hlead c hc).tail hb

/-! ## The search ends -/

/-- The nodes of `nodes` that the search has not come to. -/
def unvisited (nodes : List α) (s : Marks α) : ℕ := (nodes.toFinset \ s.visited.toFinset).card

theorem unvisited_enter (ha : a ∈ nodes) (hvisited : a ∉ s.visited) :
    unvisited nodes (s.enter a) < unvisited nodes s := by
  apply Finset.card_lt_card
  rw [Finset.ssubset_iff_of_subset]
  · refine ⟨a, by simp [ha, hvisited], by simp [Marks.enter]⟩
  · intro b hb
    simp only [Marks.enter, Finset.mem_sdiff, List.mem_toFinset, mem_cons, not_or] at hb ⊢
    exact ⟨hb.1, hb.2.2⟩

theorem unvisited_le (h : ∀ a ∈ s.visited, a ∈ t.visited) : unvisited nodes t ≤ unvisited nodes s := by
  apply Finset.card_le_card
  intro b hb
  simp only [Finset.mem_sdiff, List.mem_toFinset] at hb ⊢
  exact ⟨hb.1, fun hs => hb.2 (h b hs)⟩

theorem visitEach_some {visit : α → Marks α → Option (Bool × Marks α)}
    (hfalse : ∀ a s t, Clean next s → visit a s = some (false, t) → Passed next [a] s t)
    (hsome : ∀ a ∈ nodes, ∀ s, Clean next s → unvisited nodes s < fuel → ∃ r, visit a s = some r) :
    ∀ as s, (∀ a ∈ as, a ∈ nodes) → Clean next s → unvisited nodes s < fuel → ∃ r, visitEach visit as s = some r := by
  intro as
  induction as with
  | nil => intro s _ _ _; exact ⟨_, rfl⟩
  | cons a as ih =>
    intro s has hs hfuel
    obtain ⟨⟨found, u⟩, hu⟩ := hsome a (has a mem_cons_self) s hs hfuel
    rw [visitEach, hu]
    cases found with
    | true => exact ⟨_, rfl⟩
    | false =>
      have hfirst := hfalse a s u hs hu
      have hle := @unvisited_le _ _ s u nodes hfirst.visited
      exact ih u (fun b hb => has b (mem_cons_of_mem a hb)) hfirst.clean (by omega)

theorem visit_some (hnodes : ∀ a, ∀ b ∈ next a, b ∈ nodes) : ∀ fuel, ∀ a ∈ nodes, ∀ s, Clean next s →
    unvisited nodes s < fuel → ∃ r, visit next fuel a s = some r := by
  intro fuel
  induction fuel with
  | zero => intro a _ s _ h; omega
  | succ fuel ih =>
    intro a ha s hs hfuel
    rw [visit]
    by_cases hstack : a ∈ s.stack
    · exact ⟨_, if_pos hstack⟩
    · rw [if_neg hstack]
      by_cases hvisited : a ∈ s.visited
      · exact ⟨_, if_pos hvisited⟩
      · rw [if_neg hvisited]
        have hlt := unvisited_enter ha hvisited
        obtain ⟨⟨found, u⟩, hu⟩ := visitEach_some (visit_false fuel) ih (next a) (s.enter a) (hnodes a)
          (hs.enter hvisited) (by omega)
        rw [hu]
        cases found with
        | true | false => exact ⟨_, rfl⟩

/-! ## The search -/

/-- From clean marks, with no node on the stack, the search finds a root exactly if there
    is a cycle, or else it leaves every root. -/
theorem search_spec (hnodes : ∀ a, ∀ b ∈ next a, b ∈ nodes) {node : β → α} :
    ∀ (roots : List β) (s : Marks α), Clean next s → s.stack = [] → (∀ r ∈ roots, node r ∈ nodes) → unvisited nodes s < fuel →
      (∃ r, search next fuel node roots s = some (some r) ∧ ∃ c, TransGen (Edge next) c c) ∨
        (search next fuel node roots s = some none ∧
          ∃ t, Clean next t ∧ (∀ a, Left s a → Left t a) ∧ ∀ r ∈ roots, Left t (node r)) := by
  intro roots
  induction roots with
  | nil => intro s hs _ _ _; exact .inr ⟨rfl, s, hs, fun _ h => h, by simp⟩
  | cons root roots ih =>
    intro s hs hstack hroots hfuel
    obtain ⟨⟨found, u⟩, hu⟩ := visit_some hnodes fuel _ (hroots root mem_cons_self) s hs hfuel
    rw [search, hu]
    cases found with
    | true => exact .inl ⟨root, rfl, visit_true fuel _ s u hs (by simp [hstack]) hu⟩
    | false =>
      have hpassed := visit_false fuel _ s u hs hu
      have hle := @unvisited_le _ _ s u nodes hpassed.visited
      have hrest := ih u hpassed.clean (hpassed.stack.trans hstack) (fun r hr => hroots r (mem_cons_of_mem root hr))
        (by omega)
      rcases hrest with hfound | ⟨hnone, t, ht, hkeeps, hdone⟩
      · exact .inl hfound
      · refine .inr ⟨hnone, t, ht, ?_, ?_⟩
        · intro a ha
          exact hkeeps a ⟨hpassed.visited a ha.1, by rw [hpassed.stack]; exact ha.2⟩
        · intro r hr
          rcases mem_cons.mp hr with rfl | hr
          · exact hkeeps _ (hpassed.done _ (by simp))
          · exact hdone r hr

omit [DecidableEq α] in
theorem clean_empty : Clean next {} := by
  constructor
  all_goals
    intro a ha
    simp [Left] at ha

/-- If the roots are all the nodes and there is fuel for each, the search comes to an end
    and finds a root exactly if there is a cycle. -/
theorem search_iff (hnodes : ∀ a, ∀ b ∈ next a, a ∈ nodes ∧ b ∈ nodes) {node : β → α} {roots : List β}
    (hroots : ∀ a, a ∈ nodes ↔ ∃ r ∈ roots, node r = a) (hfuel : nodes.length < fuel) :
    ∃ r, search next fuel node roots {} = some r ∧ (r.isSome ↔ ∃ c, TransGen (Edge next) c c) := by
  have hmost : unvisited nodes ({} : Marks α) < fuel := by
    have hle : unvisited nodes ({} : Marks α) ≤ nodes.length :=
      (Finset.card_le_card Finset.sdiff_subset).trans (toFinset_card_le nodes)
    omega
  have hspec := search_spec (fun a b hb => (hnodes a b hb).2) roots {} clean_empty rfl
    (fun r hr => (hroots _).mpr ⟨r, hr, rfl⟩) hmost
  rcases hspec with ⟨r, hr, hcycle⟩ | ⟨hnone, t, ht, -, hdone⟩
  · exact ⟨some r, hr, by simpa using hcycle⟩
  · refine ⟨none, hnone, ?_⟩
    constructor
    · intro h
      simp at h
    · rintro ⟨c, hc⟩
      obtain ⟨b, hb, -⟩ := TransGen.head'_iff.mp hc
      obtain ⟨r, hr, rfl⟩ := (hroots c).mp (hnodes c b hb).1
      exact absurd hc (ht.acyclic _ (hdone r hr))

end PiWebUi.Lib.DepthFirst
