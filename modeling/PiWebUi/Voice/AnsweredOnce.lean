/-
  PiWebUi.Voice.AnsweredOnce — tool calls run once and are answered once.

  The set of recent ids holds the last 256 that were remembered (`Remembers`). A message's
  calls keep count: those handed to the handler are exactly the declared, well-formed ones
  whose id is not among these (`Counted`), whatever came before. A batch's calls are
  answered after its await, and those of others by theirs; with every handler resolved the
  payloads stand in the calls' places. One rejection empties them, so the answers are the
  handlers' own exactly if no other handler of the batch has a payload to give then, or has
  still to answer (`calls_answered_iff`).
-/

import PiWebUi.Lib.InFlight
import PiWebUi.Lib.Run
import PiWebUi.Voice.ToolCalls

namespace PiWebUi.Voice.ToolCalls

open Lib ToolCallState List Option

/-! ## What is claimed -/

/-- The last 256. -/
def lastRemembered (ids : List JsString) : List JsString := ids.drop (ids.length - 256)

/-- Declared, well formed and no repeat of a recent id. -/
def Invokable (d : Delivered) : Prop :=
  d.name ∈ VOICE_FUNCTION_DECLARATIONS ∧ (∃ args, validateToolArguments d.name d.args = .ok args) ∧
    d.id ∉ lastRemembered d.remembered

/-- The handler was called with what the provider sent. -/
def CalledAs (s : ToolCallState) (a : AcceptedCall) : Prop :=
  ∃ d, s.delivered[a.number]? = some d ∧ a.name = d.name ∧ a.id = d.id ∧ validateToolArguments d.name d.args = .ok a.args

/-- A call that the handler was called for is answered with what it answered. -/
def Own (s : ToolCallState) : Prop :=
  ∀ r ∈ s.acknowledged, r.number ∈ s.invoked.map (·.number) →
    ∃ answer, s.answers r.number = some answer ∧ r.response = answer.payload.getD okResponse

structure AnsweredOnce (s : ToolCallState) : Prop where
  invoked : ∀ n d, s.delivered[n]? = some d → (Invokable d → (s.invoked.map (·.number)).count n = 1) ∧
    (¬ Invokable d → (s.invoked.map (·.number)).count n = 0)
  calledAs : ∀ a ∈ s.invoked, CalledAs s a
  acknowledged : ∀ n, (s.acknowledged.map (·.number)).count n ≤ 1
  acknowledgedAs : ∀ r ∈ s.acknowledged, ∃ d, s.delivered[r.number]? = some d ∧ r.name = d.name ∧ r.id = d.id
  own : Own s

/-- A batch that a rejection has settled is acknowledged when every handler of it has
    answered, and with nothing but `{ ok: true }`. -/
def Careful (c : ToolCallConfig) (s : ToolCallState) (e : ToolCallEvent) : Prop :=
  ∀ i, e = .resume i .written → c.ackToolCalls = true → ∀ b message, s.batches[i]? = some b → b.continued = false →
    b.outcome = some (.error message) → ∀ call ∈ b.calls, ∃ answer, s.answers call.number = some answer ∧
      answer.payload.getD okResponse = okResponse

/-! ## The remembered ids -/

structure Remembers (recent : RecentToolCallIds) (remembered : List JsString) : Prop where
  order : recent.order = lastRemembered remembered
  ids : ∀ id, id ∈ recent.ids ↔ id ∈ recent.order
  nodup : recent.order.Nodup
  nonempty : [] ∉ remembered

theorem evict_spec : ∀ (order ids : List JsString), order.Nodup → (∀ id, id ∈ ids ↔ id ∈ order) →
    (evict ids order).order = lastRemembered order ∧ ∀ id, id ∈ (evict ids order).ids ↔ id ∈ (evict ids order).order := by
  intro order
  induction order with
  | nil => intro ids _ hids; exact ⟨rfl, hids⟩
  | cons evicted order ih =>
    intro ids hnodup hids
    rw [evict]
    by_cases hmany : 256 < order.length + 1
    · rw [if_pos hmany]
      have hrest : ∀ id, id ∈ ids.filter (· ≠ evicted) ↔ id ∈ order := by
        intro id
        rw [mem_filter, hids, mem_cons]
        constructor
        · rintro ⟨rfl | hin, hne⟩
          · simp at hne
          · exact hin
        · intro hin
          have hne : id ≠ evicted := by
            rintro rfl
            exact (nodup_cons.mp hnodup).1 hin
          exact ⟨.inr hin, by simpa using hne⟩
      obtain ⟨horder, hmem⟩ := ih _ (nodup_cons.mp hnodup).2 hrest
      refine ⟨?_, hmem⟩
      have hdrop : (evicted :: order).length - 256 = (order.length - 256) + 1 := by
        rw [length_cons]
        omega
      rw [horder, lastRemembered, lastRemembered, hdrop, drop_succ_cons]
    · rw [if_neg hmany]
      have hdrop : (evicted :: order).length - 256 = 0 := by
        rw [length_cons]
        omega
      exact ⟨by rw [lastRemembered, hdrop, drop_zero], hids⟩

theorem lastRemembered_concat (l : List JsString) (id : JsString) :
    lastRemembered (lastRemembered l ++ [id]) = lastRemembered (l ++ [id]) := by
  simp only [lastRemembered, length_append, length_drop, length_singleton]
  by_cases hfew : l.length ≤ 256
  · rw [show l.length - 256 = 0 by omega, drop_zero]
    rfl
  · rw [show l.length - (l.length - 256) + 1 - 256 = 1 by omega, show l.length + 1 - 256 = l.length - 256 + 1 by omega,
      drop_append_of_le_length (by rw [length_drop]; omega), drop_append_of_le_length (by omega),
      drop_drop]

/-- The code's set and its queue, beside the bridge's list. -/
structure Mirrors (recent : RecentToolCallIds) (kept : List JsString) : Prop where
  order : recent.order = kept
  ids : ∀ id, id ∈ recent.ids ↔ id ∈ kept
  nodup : kept.Nodup

theorem Mirrors.remember {recent : RecentToolCallIds} {kept : List JsString} (h : Mirrors recent kept) {id : JsString}
    (hnew : id ∉ recent.ids) : Mirrors (rememberId recent id) (rememberToolCallId kept id) := by
  unfold rememberId rememberToolCallId
  split
  · exact h
  · have hnot : recent.ids.contains id = false := by simpa using hnew
    have hnodup : (kept ++ [id]).Nodup := by
      rw [nodup_append]
      refine ⟨h.nodup, nodup_singleton id, ?_⟩
      rintro x hx _ hy rfl
      rw [mem_singleton.mp hy] at hx
      exact hnew ((h.ids id).mpr hx)
    have hids : ∀ x, x ∈ recent.ids ++ [id] ↔ x ∈ kept ++ [id] := by
      intro x
      rw [mem_append, mem_append, h.ids]
    obtain ⟨horder, hmem⟩ := evict_spec _ _ hnodup hids
    rw [lastRemembered, length_append, length_singleton] at horder
    rw [hnot, h.order]
    exact ⟨horder, horder ▸ hmem, hnodup.sublist (drop_sublist _ _)⟩

/-- Over the ids of a run, none of them remembered when it comes, the set and its queue keep
    what the bridge's list does. -/
theorem memory_refines {ids : List JsString} (hnew : Run.Along rememberId (fun recent id => id ∉ recent.ids) {} ids) :
    Mirrors (ids.foldl rememberId {}) (ids.foldl rememberToolCallId []) :=
  Run.simulation (fun _ _ _ h hnew => h.remember hnew) ⟨rfl, fun _ => Iff.rfl, nodup_nil⟩ hnew

theorem two_ids_mirrored : let ids := [js "a", [], js "b"]
    Mirrors (ids.foldl rememberId {}) (ids.foldl rememberToolCallId []) :=
  memory_refines (by decide)

theorem Remembers.remember {s : ToolCallState} (h : Remembers s.recent s.remembered) {id : JsString}
    (hnew : id ∉ s.recent.ids) : Remembers (s.remember id).recent (s.remember id).remembered := by
  have hafter := Mirrors.remember ⟨rfl, h.ids, h.nodup⟩ hnew
  have horder := hafter.order
  refine ⟨?_, horder ▸ hafter.ids, horder ▸ hafter.nodup, ?_⟩
  · simp only [ToolCallState.remember]
    rw [horder, rememberToolCallId]
    split
    · exact h.order
    · rw [h.order, ← lastRemembered_concat]
      simp only [lastRemembered, length_append, length_singleton]
  · simp only [ToolCallState.remember]
    split
    · exact h.nonempty
    · next hempty =>
      rw [mem_append, not_or]
      exact ⟨h.nonempty, by simpa using fun h' : [] = id => hempty h'.symm⟩

/-- An id is in the set exactly if it is among the last 256. -/
theorem Remembers.contains_iff {s : ToolCallState} (h : Remembers s.recent s.remembered) (id : JsString) :
    s.recent.ids.contains id = true ↔ id ∈ lastRemembered s.remembered := by
  rw [contains_iff_mem, h.ids, h.order]

/-! ## Counting the calls -/

/-- The calls handed to the handler, and those about to be, are the invokable ones. -/
structure Counted (s : ToolCallState) (accepted : List AcceptedCall) : Prop where
  remembers : Remembers s.recent s.remembered
  nodup : ((s.invoked ++ accepted).map (·.number)).Nodup
  invokable : ∀ n, n ∈ (s.invoked ++ accepted).map (·.number) ↔ ∃ d, s.delivered[n]? = some d ∧ Invokable d
  calledAs : ∀ a ∈ s.invoked ++ accepted, CalledAs s a

variable {s t : ToolCallState} {accepted : List AcceptedCall} {call : FunctionCall}

theorem Counted.congr {accepted' : List AcceptedCall} (h : Counted s accepted) (hrecent : t.recent = s.recent)
    (hremembered : t.remembered = s.remembered) (hinvoked : t.invoked ++ accepted' = s.invoked ++ accepted)
    (hdelivered : t.delivered = s.delivered) : Counted t accepted' where
  remembers := by
    rw [hrecent, hremembered]
    exact h.remembers
  nodup := by
    rw [hinvoked]
    exact h.nodup
  invokable := by
    rw [hinvoked, hdelivered]
    exact h.invokable
  calledAs := by
    simp only [CalledAs, hinvoked, hdelivered]
    exact h.calledAs

theorem Counted.lt (h : Counted s accepted) {n : ℕ} (hn : n ∈ (s.invoked ++ accepted).map (·.number)) : n < s.delivered.length := by
  obtain ⟨d, hd, -⟩ := (h.invokable n).mp hn
  exact (List.getElem?_eq_some_iff.mp hd).1

theorem calledAs_deliver {a : AcceptedCall} (h : CalledAs s a) (call : FunctionCall) : CalledAs (s.deliver call) a := by
  obtain ⟨d, hd, hrest⟩ := h
  have hlt := (List.getElem?_eq_some_iff.mp hd).1
  exact ⟨d, by rw [deliver, getElem?_append_left hlt]; exact hd, hrest⟩

theorem deliver_last (s : ToolCallState) (call : FunctionCall) :
    (s.deliver call).delivered[s.delivered.length]? = some ⟨call, s.remembered⟩ :=
  getElem?_concat_length

/-- A delivered call that is the handler's, or is not, is counted as such. -/
theorem invokable_deliver (h : Counted s accepted) (n : ℕ) : (∃ d, (s.deliver call).delivered[n]? = some d ∧ Invokable d) ↔
      n ∈ (s.invoked ++ accepted).map (·.number) ∨ n = s.delivered.length ∧ Invokable ⟨call, s.remembered⟩ := by
  rw [h.invokable]
  by_cases hlt : n < s.delivered.length
  · have hne : n ≠ s.delivered.length := by omega
    simp only [deliver, getElem?_append_left hlt, hne, false_and, or_false]
  · have hold : s.delivered[n]? = none := getElem?_eq_none (by omega)
    by_cases heq : n = s.delivered.length
    · subst heq
      simp [deliver_last]
    · have hnew : (s.deliver call).delivered[n]? = none := by
        apply getElem?_eq_none
        simp only [deliver, length_append, length_singleton]
        omega
      simp [hold, hnew, heq]

theorem Counted.refuse (h : Counted s accepted) (hnot : ¬ Invokable ⟨call, s.remembered⟩) : Counted (s.deliver call) accepted where
  remembers := h.remembers
  nodup := h.nodup
  invokable n := by
    rw [invokable_deliver h]
    simp [hnot, deliver]
  calledAs a ha := calledAs_deliver (h.calledAs a ha) call

theorem Counted.accept (h : Counted s accepted) {args : Json} (hinvokable : Invokable ⟨call, s.remembered⟩)
    (hargs : validateToolArguments (Delivered.name ⟨call, s.remembered⟩) (Delivered.args ⟨call, s.remembered⟩) = .ok args)
    (hnew : (Delivered.id ⟨call, s.remembered⟩) ∉ s.recent.ids) :
    Counted ((s.deliver call).remember (Delivered.id ⟨call, s.remembered⟩))
      (accepted ++ [⟨s.delivered.length, Delivered.name ⟨call, s.remembered⟩, Delivered.id ⟨call, s.remembered⟩, args⟩]) where
  remembers := Remembers.remember (show Remembers (s.deliver call).recent (s.deliver call).remembered from h.remembers) hnew
  nodup := by
    have hfresh : s.delivered.length ∉ (s.invoked ++ accepted).map (·.number) := by
      intro hmem
      exact absurd (h.lt hmem) (Nat.lt_irrefl _)
    simp only [ToolCallState.remember, deliver]
    rw [← append_assoc, map_append, map_singleton, nodup_append]
    refine ⟨h.nodup, nodup_singleton _, ?_⟩
    rintro n hn _ hm rfl
    rw [mem_singleton.mp hm] at hn
    exact hfresh hn
  invokable n := by
    have hdelivered : ((s.deliver call).remember (Delivered.id ⟨call, s.remembered⟩)).delivered = (s.deliver call).delivered := rfl
    rw [hdelivered, invokable_deliver h]
    simp only [ToolCallState.remember, deliver]
    rw [← append_assoc, map_append, mem_append, map_singleton, mem_singleton]
    simp [hinvokable]
  calledAs a ha := by
    simp only [ToolCallState.remember, deliver] at ha
    rw [← append_assoc] at ha
    rcases mem_append.mp ha with ha | ha
    · exact calledAs_deliver (h.calledAs a ha) call
    · rw [mem_singleton.mp ha]
      exact ⟨⟨call, s.remembered⟩, deliver_last s call, rfl, rfl, hargs⟩

/-! ## A message -/

/-- What the scan of a message's calls keeps. -/
structure Scanned (s : ToolCallState) (t : Scan) : Prop where
  counted : Counted t.state t.accepted
  invoked : t.state.invoked = s.invoked
  batches : t.state.batches = s.batches
  answers : t.state.answers = s.answers
  acknowledged : t.state.acknowledged = s.acknowledged
  delivered : s.delivered <+: t.state.delivered
  later : ∀ a ∈ t.accepted, s.delivered.length ≤ a.number
  repeats : ∀ d ∈ t.duplicates, s.delivered.length ≤ d.number ∧ d.number ∉ (t.state.invoked ++ t.accepted).map (·.number) ∧
    ∃ e, t.state.delivered[d.number]? = some e ∧ d.name = e.name ∧ d.id = e.id
  distinct : (t.duplicates.map (·.number)).Nodup

theorem getElem?_deliver {d : Delivered} {n : ℕ} (h : s.delivered[n]? = some d) : (s.deliver call).delivered[n]? = some d := by
  rw [deliver, List.getElem?_append_left (List.getElem?_eq_some_iff.mp h).1]
  exact h

/-- A call that is not for the handler leaves the scan's lists, but for the repeats. -/
theorem Scanned.refuse {u : Scan} (h : Scanned s u) (hnot : ¬ Invokable ⟨call, u.state.remembered⟩) {errors : List JsString} :
    Scanned s { u with state := { u.state.deliver call with errors } } where
  counted := (h.counted.refuse hnot).congr rfl rfl rfl rfl
  invoked := h.invoked
  batches := h.batches
  answers := h.answers
  acknowledged := h.acknowledged
  delivered := h.delivered.trans (prefix_append _ _)
  later := h.later
  repeats d hd := by
    obtain ⟨hle, hnew, e, he, hsame⟩ := h.repeats d hd
    exact ⟨hle, hnew, e, getElem?_deliver he, hsame⟩
  distinct := h.distinct

theorem scanned_step {u : Scan} (h : Scanned s u) (call : FunctionCall) : Scanned s (scanCall u call) := by
  simp only [scanCall]
  by_cases hdeclared : VOICE_FUNCTION_DECLARATIONS.contains (Delivered.name ⟨call, u.state.remembered⟩) = true
  · simp only [hdeclared, Bool.not_true, Bool.false_eq_true, if_false]
    cases hargs : validateToolArguments (Delivered.name ⟨call, u.state.remembered⟩) (Delivered.args ⟨call, u.state.remembered⟩) with
    | error reason =>
      apply h.refuse
      rintro ⟨-, ⟨args, hok⟩, -⟩
      rw [hargs] at hok
      cases hok
    | ok args =>
      have hcontains := h.counted.remembers.contains_iff (Delivered.id ⟨call, u.state.remembered⟩)
      have hsame : (u.state.deliver call).recent = u.state.recent := rfl
      by_cases hrecent : u.state.recent.ids.contains (Delivered.id ⟨call, u.state.remembered⟩) = true
      · -- A repeat: its number is new, and it is no call for the handler.
        simp only [hsame, hrecent, if_true]
        have hnot : ¬ Invokable ⟨call, u.state.remembered⟩ := fun hinv => hinv.2.2 (hcontains.mp hrecent)
        have hrefused := @Scanned.refuse s call u h hnot u.state.errors
        have hfresh : u.state.delivered.length ∉ (u.state.invoked ++ u.accepted).map (·.number) := by
          intro hmem
          exact absurd (h.counted.lt hmem) (Nat.lt_irrefl _)
        refine ⟨hrefused.counted, h.invoked, h.batches, h.answers, h.acknowledged, hrefused.delivered, h.later, ?_, ?_⟩
        · exact forall_mem_append.mpr ⟨hrefused.repeats, forall_mem_singleton.mpr ⟨h.delivered.length_le, hfresh, _, deliver_last u.state call, rfl, rfl⟩⟩
        · rw [map_append, map_singleton, nodup_append]
          refine ⟨h.distinct, nodup_singleton _, ?_⟩
          rintro n hn _ hm rfl
          rw [mem_singleton.mp hm] at hn
          obtain ⟨d, hd, hnumber⟩ := mem_map.mp hn
          obtain ⟨-, -, e, he, -⟩ := h.repeats d hd
          have hlt := (List.getElem?_eq_some_iff.mp he).1
          rw [hnumber] at hlt
          exact Nat.lt_irrefl _ hlt
      · simp only [hsame, hrecent, Bool.false_eq_true, if_false]
        have hinvokable : Invokable ⟨call, u.state.remembered⟩ :=
          ⟨by simpa using hdeclared, ⟨args, hargs⟩, fun hmem => hrecent (hcontains.mpr hmem)⟩
        have hcounted := h.counted.accept hinvokable hargs (by simpa using hrecent)
        refine ⟨hcounted, h.invoked, h.batches, h.answers, h.acknowledged, h.delivered.trans (prefix_append _ _), ?_, ?_,
          h.distinct⟩
        · exact forall_mem_append.mpr ⟨h.later, forall_mem_singleton.mpr h.delivered.length_le⟩
        · intro d hd
          obtain ⟨hle, hnew, e, he, hsame⟩ := h.repeats d hd
          refine ⟨hle, ?_, e, getElem?_deliver he, hsame⟩
          have hlt := (List.getElem?_eq_some_iff.mp he).1
          rw [← append_assoc, map_append, mem_append, not_or]
          refine ⟨hnew, ?_⟩
          rw [map_singleton, mem_singleton]
          simp only
          omega
  · simp only [hdeclared, Bool.not_false, if_true]
    apply h.refuse
    rintro ⟨hmem, -⟩
    exact hdeclared (by simpa using hmem)

theorem scanned_calls (functionCalls : List FunctionCall) {u : Scan} (h : Scanned s u) :
    Scanned s (functionCalls.foldl scanCall u) := by
  induction functionCalls generalizing u with
  | nil => exact h
  | cons call functionCalls ih => exact ih (scanned_step h call)

/-! ## The batches -/

/-- The handler's calls are the batches' calls; those of a batch that waits are not
    acknowledged, and one that resolved has every handler's payload. -/
structure Batched (s : ToolCallState) : Prop where
  counted : Counted s []
  calls : s.invoked = s.batches.flatMap (·.calls)
  once : (s.acknowledged.map (·.number)).Nodup
  acknowledgedAs : ∀ r ∈ s.acknowledged, ∃ d, s.delivered[r.number]? = some d ∧ r.name = d.name ∧ r.id = d.id
  waiting : ∀ b ∈ s.batches, b.continued = false → ∀ call ∈ b.calls, call.number ∉ s.acknowledged.map (·.number)
  resolved : ∀ b ∈ s.batches, ∀ payloads, b.outcome = some (.ok payloads) →
    payloads = b.calls.map (fun call => (s.answers call.number).bind Answer.payload) ∧
      ∀ call ∈ b.calls, (s.answers call.number).isSome

theorem batched_init : Batched {} where
  counted := ⟨⟨rfl, fun _ => Iff.rfl, nodup_nil, not_mem_nil⟩, nodup_nil, fun n => by simp, nofun⟩
  calls := rfl
  once := nodup_nil
  acknowledgedAs _ h := by cases h
  waiting _ h := by cases h
  resolved _ h := by cases h

variable {c : ToolCallConfig}

theorem Batched.answeredOnce (h : Batched s) (hown : Own s) : AnsweredOnce s where
  invoked n d hd := by
    have hmem := h.counted.invokable n
    have hnodup := h.counted.nodup
    rw [append_nil] at hmem hnodup
    constructor
    · intro hinvokable
      exact count_eq_one_of_mem hnodup (hmem.mpr ⟨d, hd, hinvokable⟩)
    · intro hnot
      apply count_eq_zero_of_not_mem
      intro hn
      obtain ⟨e, he, hinvokable⟩ := hmem.mp hn
      rw [hd] at he
      cases he
      exact hnot hinvokable
  calledAs a ha := h.counted.calledAs a (mem_append_left _ ha)
  acknowledged := nodup_iff_count_le_one.mp h.once
  acknowledgedAs := h.acknowledgedAs
  own := hown

theorem Batched.number_lt (h : Batched s) {n : ℕ} (hn : n ∈ s.acknowledged.map (·.number)) : n < s.delivered.length := by
  obtain ⟨r, hr, rfl⟩ := mem_map.mp hn
  obtain ⟨d, hd, -⟩ := h.acknowledgedAs r hr
  exact (List.getElem?_eq_some_iff.mp hd).1

theorem Batched.mem_invoked (h : Batched s) {b : Batch} (hb : b ∈ s.batches) {call : AcceptedCall} (hcall : call ∈ b.calls) :
    call ∈ s.invoked := by
  rw [h.calls]
  exact mem_flatMap.mpr ⟨b, hb, hcall⟩

/-- No call is of two batches. -/
theorem Batched.apart (h : Batched s) {i j : ℕ} {b b' : Batch} (hb : s.batches[i]? = some b) (hb' : s.batches[j]? = some b')
    (hne : i ≠ j) {n : ℕ} (hn : n ∈ b.calls.map (·.number)) : n ∉ b'.calls.map (·.number) := by
  have hnodup := h.counted.nodup
  rw [append_nil, h.calls, map_flatMap, nodup_flatMap] at hnodup
  obtain ⟨hi, rfl⟩ := List.getElem?_eq_some_iff.mp hb
  obtain ⟨hj, rfl⟩ := List.getElem?_eq_some_iff.mp hb'
  have hpairs := pairwise_iff_getElem.mp hnodup.2
  intro hn'
  rcases Nat.lt_or_gt_of_ne hne with hlt | hlt
  · exact hpairs i j hi hj hlt hn hn'
  · exact hpairs j i hj hi hlt hn' hn

/-! ## What is acknowledged -/

def landed (rs : List Acknowledged) : Write → List Acknowledged
  | .written => rs
  | _ => []

/-- A write that fails or has no session leaves all but an error as it was. -/
structure Acked (s : ToolCallState) (rs : List Acknowledged) (t : ToolCallState) : Prop where
  recent : t.recent = s.recent
  remembered : t.remembered = s.remembered
  delivered : t.delivered = s.delivered
  invoked : t.invoked = s.invoked
  batches : t.batches = s.batches
  answers : t.answers = s.answers
  acknowledged : t.acknowledged = s.acknowledged ++ rs

theorem acked_acknowledge (s : ToolCallState) (rs : List Acknowledged) (write : Write) :
    Acked s (landed rs write) (s.acknowledge rs write) := by
  cases write with
  | written => exact ⟨rfl, rfl, rfl, rfl, rfl, rfl, rfl⟩
  | noSession | fails message => exact ⟨rfl, rfl, rfl, rfl, rfl, rfl, (append_nil _).symm⟩

theorem landed_sublist (rs : List Acknowledged) (write : Write) : (landed rs write).Sublist rs := by
  cases write with
  | written => exact List.Sublist.refl _
  | noSession | fails message => exact nil_sublist _

/-- The repeats of a message that its acknowledgement reaches the provider with. -/
def repeats (c : ToolCallConfig) (duplicates : List Duplicate) : List Acknowledged :=
  duplicates.map fun call => response c call.number call.id call.name none

theorem acked_duplicates (s : ToolCallState) (duplicates : List Duplicate) (write : Write) :
    Acked s (landed (repeats c duplicates) write) (s.acknowledgeDuplicates c duplicates write) := by
  simp only [acknowledgeDuplicates]
  by_cases hnone : duplicates = []
  · have hlanded : landed (repeats c duplicates) write = [] := by
      apply eq_nil_of_sublist_nil
      have := landed_sublist (repeats c duplicates) write
      rwa [hnone] at this ⊢
    rw [if_pos hnone, hlanded]
    exact ⟨rfl, rfl, rfl, rfl, rfl, rfl, (append_nil _).symm⟩
  · rw [if_neg hnone]
    exact acked_acknowledge s _ write

theorem mem_responses {calls : List AcceptedCall} {payloads : List (Option Json)} {r : Acknowledged}
    (h : r ∈ responses c calls payloads) :
    ∃ (k : ℕ) (call : AcceptedCall), calls[k]? = some call ∧ r = response c call.number call.id call.name (payloads[k]?.join) := by
  obtain ⟨k, hk, rfl⟩ := mem_mapIdx.mp h
  exact ⟨k, calls[k], getElem?_eq_getElem hk, rfl⟩

theorem responses_numbers (calls : List AcceptedCall) (payloads : List (Option Json)) :
    (responses c calls payloads).map (·.number) = calls.map (·.number) := by
  apply ext_getElem?
  intro k
  simp only [responses, getElem?_map, getElem?_mapIdx, Option.map_map]
  rfl

/-! ## The steps -/

theorem batches_invoke (s : ToolCallState) (accepted : List AcceptedCall) :
    (s.invoke accepted).batches = s.batches ++ if accepted = [] then [] else [{ calls := accepted }] := by
  simp only [invoke]
  by_cases hnone : accepted = []
  · rw [if_pos hnone, if_pos hnone, append_nil]
  · rw [if_neg hnone, if_neg hnone]

theorem invoked_invoke (s : ToolCallState) (accepted : List AcceptedCall) : (s.invoke accepted).invoked = s.invoked ++ accepted := by
  simp only [invoke]
  by_cases hnone : accepted = []
  · rw [if_pos hnone, hnone, append_nil]
  · rw [if_neg hnone]

theorem same_invoke (s : ToolCallState) (accepted : List AcceptedCall) :
    (s.invoke accepted).recent = s.recent ∧ (s.invoke accepted).remembered = s.remembered ∧
      (s.invoke accepted).delivered = s.delivered ∧ (s.invoke accepted).answers = s.answers ∧
      (s.invoke accepted).acknowledged = s.acknowledged := by
  simp only [invoke]
  by_cases hnone : accepted = []
  · rw [if_pos hnone]
    exact ⟨rfl, rfl, rfl, rfl, rfl⟩
  · rw [if_neg hnone]
    exact ⟨rfl, rfl, rfl, rfl, rfl⟩

/-- What a message leaves: its accepted calls in a batch of their own, and responses for
    some of its repeats. -/
structure Dispatched (s : ToolCallState) (accepted : List AcceptedCall) (rs : List Acknowledged) (t : ToolCallState) : Prop where
  counted : Counted t []
  invoked : t.invoked = s.invoked ++ accepted
  batches : t.batches = s.batches ++ if accepted = [] then [] else [{ calls := accepted }]
  answers : t.answers = s.answers
  acknowledged : t.acknowledged = s.acknowledged ++ rs
  delivered : s.delivered <+: t.delivered
  later : ∀ a ∈ accepted, s.delivered.length ≤ a.number
  repeats : ∀ r ∈ rs, s.delivered.length ≤ r.number ∧ r.number ∉ t.invoked.map (·.number) ∧
    ∃ d, t.delivered[r.number]? = some d ∧ r.name = d.name ∧ r.id = d.id
  distinct : (rs.map (·.number)).Nodup

theorem dispatched_handleToolCalls (h : Counted s []) (functionCalls : List FunctionCall) (write : Write) :
    ∃ accepted rs, Dispatched s accepted rs (s.handleToolCalls c functionCalls write) := by
  have hstart : Scanned s { state := s } :=
    ⟨h, rfl, rfl, rfl, rfl, prefix_refl _, nofun, nofun, nodup_nil⟩
  have hscan := scanned_calls functionCalls hstart
  simp only [handleToolCalls]
  generalize functionCalls.foldl scanCall { state := s } = u at hscan
  have hacked := acked_duplicates (c := c) u.state u.duplicates write
  generalize u.state.acknowledgeDuplicates c u.duplicates write = t at hacked
  obtain ⟨hrecent, hremembered, hdelivered, hanswers, hacknowledged⟩ := same_invoke t u.accepted
  have hinvoked := invoked_invoke t u.accepted
  have hbatches := batches_invoke t u.accepted
  rw [hacked.recent] at hrecent
  rw [hacked.remembered] at hremembered
  rw [hacked.delivered] at hdelivered
  rw [hacked.answers, hscan.answers] at hanswers
  rw [hacked.acknowledged, hscan.acknowledged] at hacknowledged
  rw [hacked.invoked] at hinvoked
  rw [hacked.batches, hscan.batches] at hbatches
  refine ⟨u.accepted, landed (repeats c u.duplicates) write, ?_, ?_, hbatches, hanswers, hacknowledged, ?_, hscan.later, ?_, ?_⟩
  · exact hscan.counted.congr hrecent hremembered (by rw [append_nil, hinvoked]) hdelivered
  · rw [hinvoked, hscan.invoked]
  · rw [hdelivered]
    exact hscan.delivered
  · intro r hr
    obtain ⟨d, hd, rfl⟩ := mem_map.mp ((landed_sublist _ _).subset hr)
    rw [hinvoked, hdelivered]
    exact hscan.repeats d hd
  · apply List.Nodup.sublist ((landed_sublist _ _).map _)
    rw [repeats, List.map_map]
    exact hscan.distinct

section Dispatched

variable {rs : List Acknowledged}

theorem Dispatched.not_repeat (h : Dispatched s accepted rs t) {call : AcceptedCall} (hcall : call ∈ t.invoked) :
    call.number ∉ rs.map (·.number) := by
  intro hmem
  obtain ⟨r, hr, hnumber⟩ := mem_map.mp hmem
  apply (h.repeats r hr).2.1
  rw [hnumber]
  exact mem_map.mpr ⟨call, hcall, rfl⟩

theorem Dispatched.mem_batches (h : Dispatched s accepted rs t) {b : Batch} (hb : b ∈ t.batches) :
    b ∈ s.batches ∨ b = { calls := accepted } := by
  rw [h.batches] at hb
  rcases mem_append.mp hb with hb | hb
  · exact .inl hb
  · by_cases hnone : accepted = []
    · rw [if_pos hnone] at hb
      cases hb
    · rw [if_neg hnone] at hb
      exact .inr (mem_singleton.mp hb)

theorem Batched.dispatched (h : Batched s) (hd : Dispatched s accepted rs t) : Batched t where
  counted := hd.counted
  calls := by
    rw [hd.invoked, hd.batches, flatMap_append, h.calls]
    by_cases hnone : accepted = []
    · rw [if_pos hnone, hnone, flatMap_nil]
    · rw [if_neg hnone, flatMap_singleton]
  once := by
    rw [hd.acknowledged, map_append, nodup_append]
    refine ⟨h.once, hd.distinct, ?_⟩
    intro n hn m hm hnm
    subst hnm
    obtain ⟨r, hr, rfl⟩ := mem_map.mp hm
    have hlt := h.number_lt hn
    have hle := (hd.repeats r hr).1
    omega
  acknowledgedAs r hr := by
    rw [hd.acknowledged] at hr
    rcases mem_append.mp hr with hr | hr
    · obtain ⟨d, hd', hsame⟩ := h.acknowledgedAs r hr
      obtain ⟨rest, hrest⟩ := hd.delivered
      refine ⟨d, ?_, hsame⟩
      rw [← hrest, List.getElem?_append_left (List.getElem?_eq_some_iff.mp hd').1]
      exact hd'
    · exact (hd.repeats r hr).2.2
  waiting b hb hcontinued call hcall := by
    rw [hd.acknowledged, map_append, mem_append, not_or]
    rcases hd.mem_batches hb with hold | rfl
    · refine ⟨h.waiting b hold hcontinued call hcall, hd.not_repeat ?_⟩
      rw [hd.invoked]
      exact mem_append_left _ (h.mem_invoked hold hcall)
    · constructor
      · intro hmem
        have hlt := h.number_lt hmem
        have hle := hd.later call hcall
        omega
      · apply hd.not_repeat
        rw [hd.invoked]
        exact mem_append_right _ hcall
  resolved b hb payloads hresolved := by
    rw [hd.answers]
    rcases hd.mem_batches hb with hold | rfl
    · exact h.resolved b hold payloads hresolved
    · cases hresolved

theorem Own.dispatched (hown : Own s) (h : Batched s) (hd : Dispatched s accepted rs t) : Own t := by
  intro r hr hin
  obtain ⟨call, hcall, hnumber⟩ := mem_map.mp hin
  rw [hd.acknowledged] at hr
  rw [hd.answers]
  rcases mem_append.mp hr with hr | hr
  · refine hown r hr ?_
    rw [hd.invoked] at hcall
    rcases mem_append.mp hcall with hcall | hcall
    · exact mem_map.mpr ⟨call, hcall, hnumber⟩
    · have hlt := h.number_lt (mem_map.mpr ⟨r, hr, rfl⟩)
      have hle := hd.later call hcall
      omega
  · exact absurd (mem_map.mpr ⟨r, hr, hnumber.symm⟩) (hd.not_repeat hcall)

end Dispatched

/-- An answer that counts is the call's first. -/
theorem settle_cases (s : ToolCallState) (number : ℕ) (answer : Answer) : s.settle number answer = s ∨ s.answers number = none ∧
        s.settle number answer =
          { s with
            answers := Function.update s.answers number (some answer)
            batches := s.batches.map (settleBatch (Function.update s.answers number (some answer)) number answer) } := by
  simp only [settle]
  by_cases hfirst : (s.invoked.any (·.number = number) && (s.answers number).isNone) = true
  · rw [if_pos hfirst]
    rw [Bool.and_eq_true, isNone_iff_eq_none] at hfirst
    exact .inr ⟨hfirst.2, rfl⟩
  · rw [if_neg hfirst]
    exact .inl rfl

theorem settleBatch_same (answers : ℕ → Option Answer) (number : ℕ) (answer : Answer) (b : Batch) :
    (settleBatch answers number answer b).calls = b.calls ∧ (settleBatch answers number answer b).continued = b.continued := by
  simp only [settleBatch]
  by_cases hdone : (b.outcome.isSome || !(b.calls.any (·.number = number))) = true
  · rw [if_pos hdone]
    exact ⟨rfl, rfl⟩
  · rw [if_neg hdone]
    cases answer with
    | rejected message => exact ⟨rfl, rfl⟩
    | resolved payload =>
      by_cases hall : (b.calls.all fun call => (answers call.number).isSome) = true
      · simp only [if_pos hall, and_self]
      · simp only [if_neg hall, and_self]

/-- A batch that is resolved was so before, or has all its handlers' payloads now. -/
theorem settleBatch_resolved {answers : ℕ → Option Answer} {number : ℕ} {answer : Answer} {b : Batch}
    {payloads : List (Option Json)} (h : (settleBatch answers number answer b).outcome = some (.ok payloads)) :
    b.outcome = some (.ok payloads) ∨ payloads = b.calls.map (fun call => (answers call.number).bind Answer.payload) ∧
        ∀ call ∈ b.calls, (answers call.number).isSome := by
  simp only [settleBatch] at h
  by_cases hdone : (b.outcome.isSome || !(b.calls.any (·.number = number))) = true
  · rw [if_pos hdone] at h
    exact .inl h
  · rw [if_neg hdone] at h
    cases answer with
    | rejected message => cases h
    | resolved payload =>
      by_cases hall : (b.calls.all fun call => (answers call.number).isSome) = true
      · simp only [if_pos hall, some.injEq, Except.ok.injEq] at h
        exact .inr ⟨h.symm, all_eq_true.mp hall⟩
      · simp only [if_neg hall] at h
        exact .inl h

theorem Batched.settle (h : Batched s) (hown : Own s) (number : ℕ) (answer : Answer) :
    Batched (s.settle number answer) ∧ Own (s.settle number answer) := by
  rcases settle_cases s number answer with hsame | ⟨hfirst, hsettle⟩
  · rw [hsame]
    exact ⟨h, hown⟩
  · rw [hsettle]
    have hold : ∀ n, (s.answers n).isSome → Function.update s.answers number (some answer) n = s.answers n := by
      intro n hn
      apply Function.update_of_ne
      rintro rfl
      rw [hfirst] at hn
      cases hn
    refine ⟨⟨h.counted.congr rfl rfl rfl rfl, ?_, h.once, h.acknowledgedAs, ?_, ?_⟩, ?_⟩
    · simp only [h.calls, flatMap_map, settleBatch_same]
    · intro b hb hcontinued call hcall
      obtain ⟨b', hb', rfl⟩ := mem_map.mp hb
      rw [(settleBatch_same _ _ _ b').2] at hcontinued
      rw [(settleBatch_same _ _ _ b').1] at hcall
      exact h.waiting b' hb' hcontinued call hcall
    · intro b hb payloads hresolved
      obtain ⟨b', hb', rfl⟩ := mem_map.mp hb
      rw [(settleBatch_same _ _ _ b').1]
      rcases settleBatch_resolved hresolved with hbefore | hnow
      · obtain ⟨hpayloads, hall⟩ := h.resolved b' hb' payloads hbefore
        constructor
        · rw [hpayloads]
          apply map_congr_left
          intro call hcall
          simp only [hold call.number (hall call hcall)]
        · intro call hcall
          simp only [hold call.number (hall call hcall)]
          exact hall call hcall
      · exact hnow
    · intro r hr hin
      obtain ⟨answer', hanswer, hresponse⟩ := hown r hr hin
      refine ⟨answer', ?_, hresponse⟩
      rw [← hanswer]
      apply hold
      rw [hanswer]
      rfl

/-- The code after the await runs once for a batch, when it is settled. -/
structure Resumed (c : ToolCallConfig) (s : ToolCallState) (i : ℕ) (write : Write) (b : Batch)
    (outcome : Except JsString (List (Option Json))) (t : ToolCallState) : Prop where
  batch : s.batches[i]? = some b
  waits : b.continued = false
  settled : b.outcome = some outcome
  recent : t.recent = s.recent
  remembered : t.remembered = s.remembered
  delivered : t.delivered = s.delivered
  invoked : t.invoked = s.invoked
  batches : t.batches = s.batches.modify i fun b => { b with continued := true }
  answers : t.answers = s.answers
  acknowledged : t.acknowledged =
    s.acknowledged ++ if c.ackToolCalls then landed (responses c b.calls (payloads outcome)) write else []

theorem resume_none (hb : s.batches[i]? = none) (write : Write) : s.resume c i write = s := by
  simp only [resume, hb]

theorem resume_cases (c : ToolCallConfig) (s : ToolCallState) (i : ℕ) (write : Write) :
    (s.resume c i write = s ∧ ∀ b, s.batches[i]? = some b → b.continued = false → b.outcome = none) ∨
      ∃ b outcome, Resumed c s i write b outcome (s.resume c i write) := by
  cases hb : s.batches[i]? with
  | none => exact .inl ⟨resume_none hb write, nofun⟩
  | some b =>
    cases hwaits : b.continued with
    | true =>
      refine .inl ⟨?_, ?_⟩
      · simp only [resume, hb, hwaits]
      · intro b' hb' hcontinued
        cases hb'
        rw [hwaits] at hcontinued
        cases hcontinued
    | false =>
      cases hsettled : b.outcome with
      | none =>
        refine .inl ⟨?_, ?_⟩
        · simp only [resume, hb, hwaits, hsettled]
        · intro b' hb' _
          cases hb'
          exact hsettled
      | some outcome =>
        refine .inr ⟨b, outcome, ?_⟩
        simp only [resume, hb, hwaits, hsettled]
        have hreport : ∀ u : ToolCallState, Acked u [] (u.reportFailure outcome) := by
          intro u
          cases outcome with
          | ok payloads | error message => exact ⟨rfl, rfl, rfl, rfl, rfl, rfl, (append_nil _).symm⟩
        have hreported := hreport { s with batches := s.batches.modify i fun b => { b with continued := true } }
        generalize ToolCallState.reportFailure _ outcome = u at hreported
        have hacknowledged : u.acknowledged = s.acknowledged := by rw [hreported.acknowledged, append_nil]
        by_cases hack : c.ackToolCalls = true
        · have hacked := acked_acknowledge u (responses c b.calls (payloads outcome)) write
          simp only [hack, if_true]
          refine ⟨hb, hwaits, hsettled, ?_, ?_, ?_, ?_, ?_, ?_, ?_⟩
          · rw [hacked.recent, hreported.recent]
          · rw [hacked.remembered, hreported.remembered]
          · rw [hacked.delivered, hreported.delivered]
          · rw [hacked.invoked, hreported.invoked]
          · rw [hacked.batches, hreported.batches]
          · rw [hacked.answers, hreported.answers]
          · rw [hacked.acknowledged, hacknowledged, if_pos hack]
        · simp only [hack, Bool.false_eq_true, if_false]
          refine ⟨hb, hwaits, hsettled, hreported.recent, hreported.remembered, hreported.delivered, hreported.invoked,
            hreported.batches, hreported.answers, ?_⟩
          rw [hacknowledged, if_neg hack, append_nil]

section Resumed

variable {i : ℕ} {write : Write} {b : Batch} {outcome : Except JsString (List (Option Json))}

theorem Resumed.mem_acknowledged (h : Resumed c s i write b outcome t) {r : Acknowledged} (hr : r ∈ t.acknowledged) :
    r ∈ s.acknowledged ∨ c.ackToolCalls = true ∧ write = .written ∧ r ∈ responses c b.calls (payloads outcome) := by
  rw [h.acknowledged] at hr
  rcases mem_append.mp hr with hr | hr
  · exact .inl hr
  · by_cases hack : c.ackToolCalls = true
    · rw [if_pos hack] at hr
      cases write with
      | written => exact .inr ⟨hack, rfl, hr⟩
      | noSession | fails message => cases hr
    · rw [if_neg hack] at hr
      cases hr

theorem Resumed.mem_number (h : Resumed c s i write b outcome t) {n : ℕ} (hn : n ∈ t.acknowledged.map (·.number)) :
    n ∈ s.acknowledged.map (·.number) ∨ n ∈ b.calls.map (·.number) := by
  obtain ⟨r, hr, rfl⟩ := mem_map.mp hn
  rcases h.mem_acknowledged hr with hr | ⟨-, -, hr⟩
  · exact .inl (mem_map.mpr ⟨r, hr, rfl⟩)
  · rw [← responses_numbers (c := c) b.calls (payloads outcome)]
    exact .inr (mem_map.mpr ⟨r, hr, rfl⟩)

theorem Resumed.mem_batches (h : Resumed c s i write b outcome t) {b' : Batch} (hb' : b' ∈ t.batches) :
    ∃ j old, s.batches[j]? = some old ∧ b'.calls = old.calls ∧ b'.outcome = old.outcome ∧
      (b'.continued = false → i ≠ j ∧ old.continued = false) := by
  rw [h.batches] at hb'
  obtain ⟨j, hj⟩ := mem_iff_getElem?.mp hb'
  rcases InFlight.get_modify hj with ⟨-, old, hold, rfl⟩ | ⟨hji, hj⟩
  · exact ⟨i, old, hold, rfl, rfl, nofun⟩
  · exact ⟨j, b', hj, rfl, rfl, fun hcontinued => ⟨Ne.symm hji, hcontinued⟩⟩

theorem calls_modify (batches : List Batch) (i : ℕ) :
    (batches.modify i fun b => { b with continued := true }).flatMap (·.calls) = batches.flatMap (·.calls) := by
  rw [flatMap_def, flatMap_def]
  congr 1
  apply ext_getElem?
  intro j
  rw [getElem?_map, getElem?_map, getElem?_modify]
  cases hb : batches[j]? with
  | none => rfl
  | some b =>
    by_cases hij : i = j
    · simp only [Option.map_eq_map, Option.map_some, if_pos hij]
    · simp only [Option.map_eq_map, Option.map_some, if_neg hij]

theorem Batched.resumed (h : Batched s) (hr : Resumed c s i write b outcome t) : Batched t where
  counted := h.counted.congr hr.recent hr.remembered (by rw [hr.invoked]) hr.delivered
  calls := by
    rw [hr.invoked, hr.batches, h.calls, calls_modify]
  once := by
    rw [hr.acknowledged]
    by_cases hack : c.ackToolCalls = true
    · rw [if_pos hack, map_append, nodup_append]
      have hnumbers : ((landed (responses c b.calls (payloads outcome)) write).map (·.number)).Sublist
          (b.calls.map (·.number)) := by
        rw [← responses_numbers (c := c) b.calls (payloads outcome)]
        exact (landed_sublist _ _).map _
      have hin := mem_of_getElem? hr.batch
      refine ⟨h.once, ?_, ?_⟩
      · apply List.Nodup.sublist hnumbers
        have hnodup := h.counted.nodup
        rw [append_nil, h.calls, map_flatMap, nodup_flatMap] at hnodup
        exact hnodup.1 b hin
      · intro n hn m hm hnm
        subst hnm
        obtain ⟨call, hcall, rfl⟩ := mem_map.mp (hnumbers.subset hm)
        exact h.waiting b hin hr.waits call hcall hn
    · rw [if_neg hack, append_nil]
      exact h.once
  acknowledgedAs r hr' := by
    rw [hr.delivered]
    rcases hr.mem_acknowledged hr' with hold | ⟨-, -, hnew⟩
    · exact h.acknowledgedAs r hold
    · obtain ⟨k, call, hcall, rfl⟩ := mem_responses hnew
      have hin := h.mem_invoked (mem_of_getElem? hr.batch) (mem_of_getElem? hcall)
      obtain ⟨d, hd, hname, hid, -⟩ := h.counted.calledAs call (mem_append_left _ hin)
      exact ⟨d, hd, hname, hid⟩
  waiting b' hb' hcontinued call hcall := by
    obtain ⟨j, old, hold, hcalls, -, hwaits⟩ := hr.mem_batches hb'
    obtain ⟨hne, hwaits⟩ := hwaits hcontinued
    rw [hcalls] at hcall
    intro hmem
    rcases hr.mem_number hmem with hbefore | hnow
    · exact h.waiting old (mem_of_getElem? hold) hwaits call hcall hbefore
    · exact h.apart hr.batch hold hne hnow (mem_map.mpr ⟨call, hcall, rfl⟩)
  resolved b' hb' payloads hresolved := by
    obtain ⟨j, old, hold, hcalls, houtcome, -⟩ := hr.mem_batches hb'
    rw [houtcome] at hresolved
    rw [hcalls, hr.answers]
    exact h.resolved old (mem_of_getElem? hold) payloads hresolved

/-- The answers are the handlers' own, with every payload at its place or, after a
    rejection, no payload to give. -/
theorem Resumed.own_iff (h : Batched s) (hown : Own s) (hr : Resumed c s i write b outcome t) :
    Own t ↔ Careful c s (.resume i write) := by
  constructor
  · intro hown' i' he hack b' message hb' _ hsettled call hcall
    cases he
    rw [hr.batch] at hb'
    cases hb'
    rw [hr.settled] at hsettled
    cases hsettled
    obtain ⟨k, hk⟩ := mem_iff_getElem?.mp hcall
    have hmem : response c call.number call.id call.name none ∈ t.acknowledged := by
      rw [hr.acknowledged, if_pos hack]
      apply mem_append_right
      obtain ⟨hlt, rfl⟩ := List.getElem?_eq_some_iff.mp hk
      exact mem_mapIdx.mpr ⟨k, hlt, rfl⟩
    have hin : call.number ∈ t.invoked.map (·.number) := by
      rw [hr.invoked]
      exact mem_map.mpr ⟨call, h.mem_invoked (mem_of_getElem? hr.batch) hcall, rfl⟩
    obtain ⟨answer, hanswer, hresponse⟩ := hown' _ hmem hin
    rw [hr.answers] at hanswer
    exact ⟨answer, hanswer, hresponse.symm⟩
  · intro hcareful r hr' hin
    rw [hr.answers]
    rw [hr.invoked] at hin
    rcases hr.mem_acknowledged hr' with hold | ⟨hack, rfl, hnew⟩
    · exact hown r hold hin
    · obtain ⟨k, call, hcall, rfl⟩ := mem_responses hnew
      have hmem := mem_of_getElem? hcall
      cases outcome with
      | error message =>
        obtain ⟨answer, hanswer, hpayload⟩ := hcareful i rfl hack b message hr.batch hr.waits hr.settled call hmem
        exact ⟨answer, hanswer, hpayload.symm⟩
      | ok resolved =>
        obtain ⟨hpayloads, hall⟩ := h.resolved b (mem_of_getElem? hr.batch) resolved hr.settled
        obtain ⟨answer, hanswer⟩ := isSome_iff_exists.mp (hall call hmem)
        refine ⟨answer, hanswer, ?_⟩
        simp only [response, payloads, hpayloads, getElem?_map, hcall, map_some, join_some, hanswer,
          bind_some]

end Resumed

/-! ## The runs -/

theorem batched_step (h : Batched s) (hown : Own s) (e : ToolCallEvent) :
    Batched (s.step c e) ∧ (Own (s.step c e) ↔ Careful c s e) := by
  cases e with
  | toolCall functionCalls write =>
    obtain ⟨accepted, rs, hd⟩ := dispatched_handleToolCalls (c := c) h.counted functionCalls write
    exact ⟨h.dispatched hd, iff_of_true (hown.dispatched h hd) nofun⟩
  | settle number answer =>
    obtain ⟨hbatched, hown'⟩ := h.settle hown number answer
    exact ⟨hbatched, iff_of_true hown' nofun⟩
  | resume i write =>
    rcases resume_cases c s i write with ⟨hsame, hnone⟩ | ⟨b, outcome, hr⟩
    · rw [ToolCallState.step, hsame]
      refine ⟨h, iff_of_true hown ?_⟩
      intro i' he _ b message hb hwaits hsettled
      cases he
      rw [hnone b hb hwaits] at hsettled
      cases hsettled
    · exact ⟨h.resumed hr, hr.own_iff h hown⟩

/-- Each invokable call reaches the handler once and no other does, and each is answered at
    most once with its own payload, along the runs in which no batch is acknowledged empty
    while a handler of it has a payload to give or has still to answer, and in no other. -/
theorem calls_answered_iff (c : ToolCallConfig) (es : List ToolCallEvent) :
    (∀ fs, fs <+: es → AnsweredOnce (fs.foldl (step c) {})) ↔ Run.Along (step c) (Careful c) {} es := by
  have hinit : Own {} := nofun
  rw [← Run.along_after_iff (batched_init.answeredOnce hinit)]
  apply Run.along_iff_of_invariant (I := fun s => Batched s ∧ Own s)
  · rintro s e ⟨h, hown⟩ hcareful
    obtain ⟨hbatched, hiff⟩ := batched_step (c := c) h hown e
    exact ⟨hbatched, hiff.mpr hcareful⟩
  · rintro s e ⟨h, hown⟩
    obtain ⟨hbatched, hiff⟩ := batched_step (c := c) h hown e
    rw [← hiff]
    exact ⟨fun honce => honce.own, hbatched.answeredOnce⟩
  · exact ⟨batched_init, hinit⟩

/-- Two calls of a message, of which one has found its history and the other fails. -/
def historyAndFailure : List ToolCallEvent :=
  [.toolCall
      [{ name := some (js "read_worker_history"), args := some (.obj [(js "query", .str (js "tests"))]), id := some (js "a") },
        { name := some (js "relay_to_worker"), args := some (.obj [(js "text", .str (js "go on"))]), id := some (js "b") }]
      .written,
    .settle 0 (.resolved (some (.obj [(js "history", .str (js "3 failed"))]))), .settle 1 (.rejected (js "no worker")),
    .resume 0 .written]

theorem history_lost : ¬ ∀ fs, fs <+: historyAndFailure → AnsweredOnce (fs.foldl (step {}) {}) := by
  intro h
  obtain ⟨answer, hanswer, hresponse⟩ := (h historyAndFailure (prefix_refl _)).own
    ⟨0, js "a", js "read_worker_history", okResponse, none⟩ (by decide +kernel) (by decide +kernel)
  have hown : (historyAndFailure.foldl (step {}) {}).answers 0 =
      some (.resolved (some (.obj [(js "history", .str (js "3 failed"))]))) := by decide +kernel
  rw [hown] at hanswer
  cases hanswer
  revert hresponse
  decide +kernel

end PiWebUi.Voice.ToolCalls
