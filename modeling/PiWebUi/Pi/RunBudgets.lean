/-
  PiWebUi.Pi.RunBudgets — the two guards of a session's runs.

  Each guard's `observe` is `observeBy` of a rule (`RunBudgetGuard.observe_eq`,
  `ToolArgsBudgetGuard.observe_eq`), and the rule breaches a run at an event exactly where
  a counter of the run, counted over all its events, comes to be above its positive cap.
-/

import PiWebUi.Pi.BudgetOnce
import PiWebUi.Lib.JsNumberOrder

namespace PiWebUi.Pi.Budget

open PiWebUi.Lib BudgetGuard Option

/-! ## Caps -/

/-- Above a cap that is positive. -/
def Above (cap x : JsNumber) : Prop := (JsNumber.fin 0).lt cap = true ∧ cap.lt x = true

theorem above_iff {cap : JsNumber} (hcap : cap.le (.fin 0) = false) (x : JsNumber) : Above cap x ↔ cap.lt x = true := by
  constructor
  · exact fun h => h.2
  · intro h
    refine ⟨?_, h⟩
    cases cap with
    | nan => simp [JsNumber.lt] at h
    | negInf => simp [JsNumber.le, JsNumber.lt] at hcap
    | posInf => rfl
    | fin q =>
      rw [← Bool.not_eq_true, JsNumber.le_fin] at hcap
      simp only [JsNumber.lt, decide_eq_true_eq]
      exact lt_of_not_ge hcap

theorem not_above_of_disabled {cap : JsNumber} (hcap : cap.le (.fin 0) = true) (x : JsNumber) : ¬ Above cap x := by
  intro h
  have hle := JsNumber.not_lt_of_le_of_le hcap (z := .fin 0) (by decide)
  rw [h.1] at hle
  cases hle

theorem not_above_zero (cap : JsNumber) : ¬ Above cap (.fin 0) := by
  intro h
  have hasymm := JsNumber.lt_asymm h.1
  rw [h.2] at hasymm
  cases hasymm

/-! ## Streamed bytes and output tokens -/

namespace RunBudgetGuard

section

variable (caps : RunBudgetCaps)

def meter : Meter RunBudgetCounters where
  zero := {}
  count c event :=
    if eventType event = some (.str (js "message_update")) then
      { c with streamedBytes := c.streamedBytes + ((streamedDelta event).map utf8Length).getD 0 }
    else if eventType event = some (.str (js "message_end")) then
      { c with outputTokens := ((reportedOutput event).map c.outputTokens.add).getD c.outputTokens }
    else c
  Exceeds c := Above caps.streamedBytes (.fin c.streamedBytes) ∨ Above caps.outputTokens c.outputTokens

/-- The counters whose caps are not disabled are the same. -/
def Agrees (k c : RunBudgetCounters) : Prop :=
  (caps.streamedBytes.le (.fin 0) = false → k.streamedBytes = c.streamedBytes) ∧
    (caps.outputTokens.le (.fin 0) = false → k.outputTokens = c.outputTokens)

def tellDelta (k : RunBudgetCounters) (delta : JsString) : RunBudgetCounters × Option RunBudgetReason :=
  let streamedBytes := k.streamedBytes + utf8Length delta
  ({ k with streamedBytes },
    if caps.streamedBytes.lt (.fin streamedBytes) then some ⟨.streamedBytes, caps.streamedBytes, .fin streamedBytes⟩ else none)

def tellOutput (k : RunBudgetCounters) (output : JsNumber) : RunBudgetCounters × Option RunBudgetReason :=
  let outputTokens := k.outputTokens.add output
  ({ k with outputTokens }, if caps.outputTokens.lt outputTokens then some ⟨.outputTokens, caps.outputTokens, outputTokens⟩ else none)

def rule : BudgetRule RunBudgetCounters RunBudgetReason where
  zero := {}
  tally k event :=
    if eventType event = some (.str (js "message_update")) then
      if caps.streamedBytes.le (.fin 0) then (k, none) else ((streamedDelta event).map (tellDelta caps k)).getD (k, none)
    else if eventType event = some (.str (js "message_end")) then
      if caps.outputTokens.le (.fin 0) then (k, none) else ((reportedOutput event).map (tellOutput caps k)).getD (k, none)
    else (k, none)

end

variable {caps : RunBudgetCaps}

theorem observeDelta_eq (g : BudgetGuard RunBudgetCounters RunBudgetReason) (delta : JsString) :
    observeDelta caps g delta = g.tell (tellDelta caps g.run.counters delta) :=
  (tell_ite _ _ _ _).symm

theorem observeOutput_eq (g : BudgetGuard RunBudgetCounters RunBudgetReason) (output : JsNumber) :
    observeOutput caps g output = g.tell (tellOutput caps g.run.counters output) :=
  (tell_ite _ _ _ _).symm

theorem observe_eq (caps : RunBudgetCaps) : observe caps = observeBy (rule caps) := by
  funext g event
  unfold observe observeBy
  by_cases hstart : isAgentStart event = true
  · rw [if_pos hstart, if_pos hstart]
    rfl
  rw [if_neg hstart, if_neg hstart]
  by_cases hbreached : g.run.breached = true
  · rw [if_pos hbreached, if_pos hbreached, ite_self]
  rw [if_neg hbreached, if_neg hbreached]
  have hnothing := g.tell_nothing
  by_cases hupdate : eventType event = some (.str (js "message_update"))
  · simp only [rule, if_pos hupdate]
    cases hbytes : caps.streamedBytes.le (.fin 0) with
    | true => simp [hnothing]
    | false =>
      cases streamedDelta event with
      | none => simp [hnothing]
      | some delta => simp [observeDelta_eq]
  · simp only [rule, if_neg hupdate]
    by_cases hend : eventType event = some (.str (js "message_end"))
    · simp only [if_pos hend]
      cases htokens : caps.outputTokens.le (.fin 0) with
      | true => simp [hnothing]
      | false =>
        cases reportedOutput event with
        | none => simp [hnothing]
        | some output => simp [observeOutput_eq]
    · simp only [if_neg hend]
      rw [hnothing, ite_self]

theorem agrees (k c : RunBudgetCounters) (e : Json) (h : Agrees caps k c) :
    Agrees caps ((rule caps).tally k e).1 ((meter caps).count c e) := by
  unfold rule meter
  simp only
  split
  · cases hbytes : caps.streamedBytes.le (.fin 0) with
    | true =>
      rw [if_pos rfl]
      exact ⟨fun hfalse => absurd (hbytes.symm.trans hfalse) (by decide), h.2⟩
    | false =>
      rw [if_neg (by decide)]
      cases streamedDelta e with
      | none => exact h
      | some delta => exact ⟨fun _ => congrArg (· + utf8Length delta) (h.1 hbytes), h.2⟩
  · split
    · cases htokens : caps.outputTokens.le (.fin 0) with
      | true =>
        rw [if_pos rfl]
        exact ⟨h.1, fun hfalse => absurd (htokens.symm.trans hfalse) (by decide)⟩
      | false =>
        rw [if_neg (by decide)]
        cases reportedOutput e with
        | none => exact h
        | some output => exact ⟨h.1, fun _ => congrArg (·.add output) (h.2 htokens)⟩
    · exact h

theorem isSome_ite {α : Type} {b : Bool} {x : α} : (if b = true then some x else none).isSome = true ↔ b = true := by
  cases b with
  | true | false => simp

theorem breaches (k c : RunBudgetCounters) (e : Json) (h : Agrees caps k c) (hnot : ¬ (meter caps).Exceeds c) :
    ((rule caps).tally k e).2.isSome = true ↔ (meter caps).Exceeds ((meter caps).count c e) := by
  obtain ⟨hbefore, hbefore'⟩ := not_or.mp hnot
  unfold rule meter
  simp only
  by_cases hupdate : eventType e = some (.str (js "message_update"))
  · rw [if_pos hupdate, if_pos hupdate]
    -- the tokens stay as they were
    rw [or_iff_left hbefore']
    cases hbytes : caps.streamedBytes.le (.fin 0) with
    | true => exact iff_of_false (by simp) (not_above_of_disabled hbytes _)
    | false =>
      cases streamedDelta e with
      | none => exact iff_of_false (by simp) hbefore
      | some delta =>
        rw [above_iff hbytes, ← h.1 hbytes]
        exact isSome_ite
  · rw [if_neg hupdate, if_neg hupdate]
    by_cases hend : eventType e = some (.str (js "message_end"))
    · rw [if_pos hend, if_pos hend]
      -- the bytes stay as they were
      rw [or_iff_right hbefore]
      cases htokens : caps.outputTokens.le (.fin 0) with
      | true => exact iff_of_false (by simp) (not_above_of_disabled htokens _)
      | false =>
        cases reportedOutput e with
        | none => exact iff_of_false (by simp) hbefore'
        | some output =>
          rw [above_iff htokens]
          simp only [map_some, getD_some]
          rw [← h.2 htokens]
          exact isSome_ite
    · rw [if_neg hend, if_neg hend]
      exact iff_of_false (by simp) hnot

theorem meters (caps : RunBudgetCaps) : Meters (rule caps) (meter caps) (Agrees caps) where
  zero := ⟨fun _ => rfl, fun _ => rfl⟩
  nothing h := h.elim (not_above_zero _) (not_above_zero _)
  agrees := agrees
  breaches := breaches

end RunBudgetGuard

/-! ## Arguments of tool calls -/

namespace ToolArgsBudgetGuard

section

variable (caps : ToolArgsBudgetCaps)

def isCallBoundary (event : Json) : Bool := assistantTypeIn ["toolcall_start", "toolcall_end"] event

/-- The delta of a `toolcall_delta`. -/
def argsDelta (event : Json) : Option JsString :=
  if assistantTypeIn ["toolcall_delta"] event then assistantDelta event else none

def meter : Meter ToolArgsCounters where
  zero := {}
  count c event :=
    if eventType event = some (.str (js "message_update")) then
      if isCallBoundary event then resetCall c event else ((argsDelta event).map (countDelta c event)).getD c
    else c
  Exceeds c := (∃ i, Above caps.callChars (.fin (callCount c i))) ∨ Above caps.turnChars (.fin c.turnTotal)

def Agrees (k c : ToolArgsCounters) : Prop := caps.callChars.le (.fin 0) = false ∨ caps.turnChars.le (.fin 0) = false → k = c

def tellDelta (k : ToolArgsCounters) (event : Json) (delta : JsString) : ToolArgsCounters × Option ToolArgsReason :=
  let counters := countDelta k event delta
  let callObserved := ((contentIndex event).map (callCount counters)).getD 0
  (counters,
    if (JsNumber.fin 0).lt caps.callChars && caps.callChars.lt (.fin callObserved) then
      some ⟨.call, caps.callChars, callObserved, contentIndex event⟩
    else if (JsNumber.fin 0).lt caps.turnChars && caps.turnChars.lt (.fin counters.turnTotal) then
      some ⟨.turn, caps.turnChars, counters.turnTotal, contentIndex event⟩
    else none)

def rule : BudgetRule ToolArgsCounters ToolArgsReason where
  zero := {}
  tally k event :=
    if eventType event = some (.str (js "message_update")) then
      if caps.callChars.le (.fin 0) && caps.turnChars.le (.fin 0) then (k, none)
      else if isCallBoundary event then (resetCall k event, none)
      else ((argsDelta event).map (tellDelta caps k event)).getD (k, none)
    else (k, none)

end

variable {caps : ToolArgsBudgetCaps}

theorem observeDelta_eq (g : BudgetGuard ToolArgsCounters ToolArgsReason) (event : Json) (delta : JsString) :
    observeDelta caps g event delta = g.tell (tellDelta caps g.run.counters event delta) := by
  unfold observeDelta tellDelta
  simp only
  split
  · rfl
  · split <;> rfl

theorem observe_eq (caps : ToolArgsBudgetCaps) : observe caps = observeBy (rule caps) := by
  funext g event
  unfold observe observeBy
  by_cases hstart : isAgentStart event = true
  · rw [if_pos hstart, if_pos hstart]
    rfl
  rw [if_neg hstart, if_neg hstart]
  have hnothing := g.tell_nothing
  by_cases hupdate : eventType event = some (.str (js "message_update"))
  · rw [if_neg (not_not.mpr hupdate)]
    by_cases hbreached : g.run.breached = true
    · rw [if_pos hbreached, if_pos hbreached, ite_self]
    rw [if_neg hbreached, if_neg hbreached]
    simp only [rule, if_pos hupdate]
    cases hdisabled : caps.callChars.le (.fin 0) && caps.turnChars.le (.fin 0) with
    | true => simp [hnothing]
    | false =>
      unfold isCallBoundary argsDelta
      cases assistantTypeIn ["toolcall_start", "toolcall_end"] event with
      | true => rfl
      | false =>
        cases assistantTypeIn ["toolcall_delta"] event with
        | false => simp [hnothing]
        | true =>
          cases assistantDelta event with
          | none => simp [hnothing]
          | some delta => simp [observeDelta_eq]
  · rw [if_pos hupdate]
    simp only [rule, if_neg hupdate]
    rw [hnothing, ite_self]

theorem agrees (k c : ToolArgsCounters) (e : Json) (h : Agrees caps k c) :
    Agrees caps ((rule caps).tally k e).1 ((meter caps).count c e) := by
  intro henabled
  have hsame := h henabled
  subst hsame
  have hrule : (caps.callChars.le (.fin 0) && caps.turnChars.le (.fin 0)) = false := by
    rcases henabled with hcall | hturn
    · rw [hcall, Bool.false_and]
    · rw [hturn, Bool.and_false]
  unfold rule meter
  simp only [hrule]
  split
  · split
    next hfalse => cases hfalse
    next =>
      split
      · rfl
      · cases argsDelta e with
        | none | some delta => rfl
  · rfl

theorem callCount_countDelta (c : ToolArgsCounters) (e : Json) (delta : JsString) (i : JsNumber) :
    callCount (countDelta c e delta) i = if contentIndex e = some i then callCount c i + delta.length else callCount c i := by
  unfold countDelta callCount
  cases contentIndex e with
  | none => simp
  | some j =>
    simp only [JsMap.get_set, some.injEq]
    by_cases hij : i = j
    · subst hij
      simp
    · simp [hij, Ne.symm hij]

theorem callCount_resetCall (c : ToolArgsCounters) (e : Json) (i : JsNumber) :
    callCount (resetCall c e) i = if contentIndex e = some i then 0 else callCount c i := by
  unfold resetCall callCount
  cases contentIndex e with
  | none => simp
  | some j =>
    simp only [JsMap.get_delete, some.injEq]
    by_cases hij : i = j
    · subst hij
      simp
    · simp [hij, Ne.symm hij]

theorem resetCall_turnTotal (c : ToolArgsCounters) (e : Json) : (resetCall c e).turnTotal = c.turnTotal := by
  unfold resetCall
  cases contentIndex e with
  | none | some i => rfl

/-- The only count that a delta brings above the cap is its own call's. -/
theorem call_above_iff {c : ToolArgsCounters} (hcalls : ¬ ∃ i, Above caps.callChars (.fin (callCount c i))) (e : Json) (delta : JsString) :
    (∃ i, Above caps.callChars (.fin (callCount (countDelta c e delta) i))) ↔
      Above caps.callChars (.fin (((contentIndex e).map (callCount (countDelta c e delta))).getD 0)) := by
  constructor
  · intro h
    obtain ⟨i, hi⟩ := h
    by_cases hindex : contentIndex e = some i
    · rw [hindex]
      exact hi
    · rw [callCount_countDelta, if_neg hindex] at hi
      exact absurd ⟨i, hi⟩ hcalls
  · intro h
    cases hindex : contentIndex e with
    | none =>
      rw [hindex] at h
      exact absurd h (not_above_zero _)
    | some i =>
      rw [hindex] at h
      exact ⟨i, h⟩

theorem tellDelta_isSome (c : ToolArgsCounters) (e : Json) (delta : JsString) : (tellDelta caps c e delta).2.isSome = true ↔
      Above caps.callChars (.fin (((contentIndex e).map (callCount (countDelta c e delta))).getD 0)) ∨
        Above caps.turnChars (.fin (countDelta c e delta).turnTotal) := by
  unfold tellDelta Above
  simp only [Bool.and_eq_true]
  split
  next hcall => exact iff_of_true rfl (.inl hcall)
  next hcall =>
    rw [or_iff_right hcall]
    split
    next hturn => exact iff_of_true rfl hturn
    next hturn => exact iff_of_false (by simp) hturn

theorem breaches (k c : ToolArgsCounters) (e : Json) (h : Agrees caps k c) (hnot : ¬ (meter caps).Exceeds c) :
    ((rule caps).tally k e).2.isSome = true ↔ (meter caps).Exceeds ((meter caps).count c e) := by
  cases hdisabled : caps.callChars.le (.fin 0) && caps.turnChars.le (.fin 0) with
  | true =>
    obtain ⟨hcall, hturn⟩ := Bool.and_eq_true_iff.mp hdisabled
    refine iff_of_false ?_ ?_
    · simp [rule, hdisabled]
    · intro hexceeds
      rcases hexceeds with ⟨i, hi⟩ | hturns
      · exact not_above_of_disabled hcall _ hi
      · exact not_above_of_disabled hturn _ hturns
  | false =>
    have hsame : k = c := h (Bool.and_eq_false_iff.mp hdisabled)
    subst hsame
    obtain ⟨hcalls, hturn⟩ := not_or.mp hnot
    unfold rule meter
    simp only [hdisabled]
    by_cases hupdate : eventType e = some (.str (js "message_update"))
    · rw [if_pos hupdate, if_pos hupdate, if_neg (by decide)]
      by_cases hboundary : isCallBoundary e = true
      · rw [if_pos hboundary, if_pos hboundary]
        refine iff_of_false (by simp) ?_
        rw [resetCall_turnTotal]
        intro hexceeds
        rcases hexceeds with ⟨i, hi⟩ | hturns
        · rw [callCount_resetCall] at hi
          by_cases hindex : contentIndex e = some i
          · rw [if_pos hindex] at hi
            exact not_above_zero _ hi
          · rw [if_neg hindex] at hi
            exact hcalls ⟨i, hi⟩
        · exact hturn hturns
      · rw [if_neg hboundary, if_neg hboundary]
        cases argsDelta e with
        | none => exact iff_of_false (by simp) hnot
        | some delta =>
          simp only [map_some, getD_some]
          rw [tellDelta_isSome, call_above_iff hcalls]
    · rw [if_neg hupdate, if_neg hupdate]
      exact iff_of_false (by simp) hnot

theorem meters (caps : ToolArgsBudgetCaps) : Meters (rule caps) (meter caps) (Agrees caps) where
  zero := fun _ => rfl
  nothing h := by
    rcases h with ⟨i, hi⟩ | hturn
    · exact not_above_zero _ hi
    · exact not_above_zero _ hturn
  agrees := agrees
  breaches := breaches

end ToolArgsBudgetGuard

/-! ## Both -/

/-- In every run of every session both guards emit their reason once, at the first event at
    which a counter of the run is above its positive cap, and abort the run from there on,
    whatever was pending of the runs before. -/
theorem budgets_enforced_once (caps : RunBudgetCaps) (caps' : ToolArgsBudgetCaps) (steps : List Step) (n : ℕ) :
    EnforcedOnce (RunBudgetGuard.observe caps) (RunBudgetGuard.meter caps) steps n ∧
      EnforcedOnce (ToolArgsBudgetGuard.observe caps') (ToolArgsBudgetGuard.meter caps') steps n := by
  rw [RunBudgetGuard.observe_eq, ToolArgsBudgetGuard.observe_eq]
  exact ⟨enforced (RunBudgetGuard.meters caps) rfl steps n, enforced (ToolArgsBudgetGuard.meters caps') rfl steps n⟩

end PiWebUi.Pi.Budget
