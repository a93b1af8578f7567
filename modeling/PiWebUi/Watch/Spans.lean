/-
  PiWebUi.Watch.Spans — a text condition does not see how the text was split.

  The assistant text of a turn is the concatenation of what its events say (`deltas`). A
  `contains` condition matches at an event exactly when an occurrence of the text it looks
  for ends inside what the event says; so each occurrence is reported by the one event it
  ends in, and whether a turn matches depends on its text alone (`text_granularity`).
-/

import PiWebUi.Watch.Routing

namespace PiWebUi.Watch

open Lib List

/-! ## Occurrences and pieces -/

def OccursAt (text needle : JsString) (i : ℕ) : Prop := needle <+: text.drop i

/-- The occurrence at `i` ends inside the piece between the two texts. -/
def EndsInside (before after needle : JsString) (i : ℕ) : Prop :=
  OccursAt after needle i ∧ before.length < i + needle.length

theorem OccursAt.length_le {text needle : JsString} {i : ℕ} (h : OccursAt text needle i) (hne : needle ≠ []) :
    i + needle.length ≤ text.length := by
  have hle := List.IsPrefix.length_le h
  have hpos := length_pos_iff.mpr hne
  rw [length_drop] at hle
  omega

theorem OccursAt.append {text needle : JsString} {i : ℕ} (h : OccursAt text needle i) (more : JsString) :
    OccursAt (text ++ more) needle i := by
  unfold OccursAt
  rw [drop_append]
  exact h.trans (prefix_append _ _)

/-- What ends in the front of a text occurs there. -/
theorem OccursAt.front {text more needle : JsString} {i : ℕ} (h : OccursAt (text ++ more) needle i)
    (hle : i + needle.length ≤ text.length) : OccursAt text needle i := by
  unfold OccursAt at h ⊢
  rw [drop_append_of_le_length (by omega)] at h
  exact prefix_of_prefix_length_le h (prefix_append _ _) (by rw [length_drop]; omega)

/-- The text up to a piece, and with it. -/
def upTo (ds : List JsString) (k : ℕ) : JsString := (ds.take k).flatten

theorem upTo_append (ds : List JsString) (k : ℕ) : ds.flatten = upTo ds k ++ (ds.drop k).flatten := by
  rw [upTo, ← flatten_append, take_append_drop]

theorem upTo_mono (ds : List JsString) {j k : ℕ} (h : j ≤ k) : (upTo ds j).length ≤ (upTo ds k).length := by
  have hprefix : ds.take j <+: ds.take k := take_prefix_take_left h
  obtain ⟨rest, hrest⟩ := hprefix
  rw [upTo, upTo, ← hrest, flatten_append, length_append]
  omega

/-- A position of the text is in exactly one piece. -/
theorem piece_unique (ds : List JsString) {p : ℕ} (hpos : 0 < p) (hle : p ≤ ds.flatten.length) :
    ∃! k, k < ds.length ∧ (upTo ds k).length < p ∧ p ≤ (upTo ds (k + 1)).length := by
  have hreach : ∃ k, p ≤ (upTo ds k).length := ⟨ds.length, by rwa [upTo, take_length]⟩
  have hfirst : p ≤ (upTo ds (Nat.find hreach)).length := Nat.find_spec hreach
  have hzero : Nat.find hreach ≠ 0 := by
    intro h
    rw [h] at hfirst
    have hnil : (upTo ds 0).length = 0 := rfl
    omega
  obtain ⟨k, hk⟩ := Nat.exists_eq_add_one_of_ne_zero hzero
  have hbefore : (upTo ds k).length < p := not_le.mp (Nat.find_min hreach (by omega))
  rw [hk] at hfirst
  refine ⟨k, ⟨?_, hbefore, hfirst⟩, ?_⟩
  · by_contra hlong
    rw [upTo, take_of_length_le (not_lt.mp hlong)] at hbefore
    omega
  · rintro j ⟨_, hj, hj'⟩
    rcases lt_trichotomy j k with hlt | heq | hgt
    · have hmono := upTo_mono ds (show j + 1 ≤ k from hlt)
      omega
    · exact heq
    · have hmono := upTo_mono ds (show k + 1 ≤ j from hgt)
      omega

/-! ## What the events of a turn say -/

/-- Whether a user's message is streaming once the event is read. -/
def userAfter (user : Bool) (e : NormalizedEvent) : Bool :=
  if e.type = NormalizedEvent.message_start then roleOf e = .user
  else if e.type = NormalizedEvent.message_end then false
  else user

/-- The assistant text of an event: none inside a user's message, or with a user's role. -/
def said (user : Bool) (e : NormalizedEvent) : JsString :=
  if userAfter user e || roleOf e = .user then [] else extractAssistantDelta e

def deltas : Bool → List NormalizedEvent → List JsString
  | _, [] => []
  | user, e :: es => said user e :: deltas (userAfter user e) es

/-- The events after the `agent_start` of a turn. -/
def Turn (es : List NormalizedEvent) : Prop := ∀ e ∈ es, e.type ≠ js "agent_start"

instance (es : List NormalizedEvent) : Decidable (Turn es) := inferInstanceAs (Decidable (∀ e ∈ es, e.type ≠ js "agent_start"))

/-- A streamed delta outside a user's message says its text. -/
theorem said_textDelta {e : NormalizedEvent} {d : JsString} (htype : e.type = NormalizedEvent.message_update)
    (hrole : roleOf e ≠ .user) (htext : stringOf (member e.data (js "text")) = none)
    (hkind : member (member e.data (js "assistantMessageEvent")) (js "type") = some (.str (js "text_delta")))
    (hdelta : member (member e.data (js "assistantMessageEvent")) (js "delta") = some (.str d)) : said false e = d := by
  have hstart : NormalizedEvent.message_update ≠ NormalizedEvent.message_start := by decide
  have hend : NormalizedEvent.message_update ≠ NormalizedEvent.message_end := by decide
  have hstring : stringOf (some (.str d)) = some d := rfl
  simp only [said, userAfter, htype, hstart, hend, hrole, extractAssistantDelta, htext, hkind, hdelta, hstring]
  simp

/-- The engine in a turn: the buffer is what was said, and it knows whose message streams. -/
structure Reads (text : JsString) (user : Bool) (engine : ConditionEngine) : Prop where
  buffer : engine.assistantBuffer = text
  user_eq : engine.streamingUser = user

theorem reads_start (engine : ConditionEngine) {start : NormalizedEvent} (h : start.type = js "agent_start") :
    Reads [] false (read engine start).1 := by
  have hstart : js "agent_start" ≠ NormalizedEvent.message_start := by decide
  have hupdate : js "agent_start" ≠ NormalizedEvent.message_update := by decide
  have hend : js "agent_start" ≠ NormalizedEvent.message_end := by decide
  constructor <;> simp [read, h, hstart, hend, hupdate, extractAssistantDelta]

theorem extract_message_end {e : NormalizedEvent} (h : e.type = NormalizedEvent.message_end) : extractAssistantDelta e = [] := by
  have hstart : NormalizedEvent.message_end ≠ NormalizedEvent.message_start := by decide
  have hupdate : NormalizedEvent.message_end ≠ NormalizedEvent.message_update := by decide
  simp [extractAssistantDelta, h, hstart, hupdate]

/-- Step lemma. -/
theorem Reads.read {text : JsString} {user : Bool} {engine : ConditionEngine} (h : Reads text user engine) {e : NormalizedEvent}
    (he : e.type ≠ js "agent_start") : Reads (text ++ said user e) (userAfter user e) (Watch.read engine e).1 ∧
      (Watch.read engine e).1.previousLength = text.length ∧ (Watch.read engine e).2 = said user e := by
  have hdelta : (Watch.read engine e).2 = said user e := by
    simp only [Watch.read, he, if_false, h.user_eq, said, userAfter]
    by_cases hstart : e.type = NormalizedEvent.message_start
    · simp [hstart]
    · by_cases hend : e.type = NormalizedEvent.message_end
      · simp [hend, extract_message_end hend]
      · simp [hstart, hend]
  refine ⟨⟨?_, ?_⟩, ?_, hdelta⟩
  · rw [← hdelta]
    simp [Watch.read, he, h.buffer]
  · have hne : NormalizedEvent.message_start ≠ NormalizedEvent.message_end := by decide
    simp only [Watch.read, he, if_false, h.user_eq, userAfter]
    by_cases hstart : e.type = NormalizedEvent.message_start
    · simp [hstart, hne]
    · simp [hstart]
  · simp [Watch.read, he, h.buffer]

/-! ## Where a condition matches -/

section

variable {ρ : Type} (R : RegExps ρ)

/-- A condition on the assistant text that looks for a text. -/
structure LooksFor (cond : ResolvedCondition ρ) (needle : JsString) : Prop where
  text : cond.type = js "text"
  contains : cond.spec.contains = some needle
  source : cond.spec.source ≠ some (js "any")
  nonempty : needle ≠ []

theorem matchText_contains {cond : ResolvedCondition ρ} {needle : JsString} (h : LooksFor cond needle) (before delta : JsString) :
    (matchText R cond (before ++ delta) before.length).isSome = true ↔ ∃ i, EndsInside before (before ++ delta) needle i := by
  have hneedle : truthy cond.spec.contains = some needle := h.contains ▸ truthy_of_ne_nil h.nonempty
  have hfind : (matchText R cond (before ++ delta) before.length).isSome =
      (indexFrom (before ++ delta) needle (before.length + 1 - needle.length)).isSome := by
    simp only [matchText, hneedle]
    cases indexFrom (before ++ delta) needle (before.length + 1 - needle.length) <;> rfl
  rw [hfind, indexFrom_isSome]
  constructor
  · rintro ⟨i, hstart, -, hp⟩
    exact ⟨i, isPrefixOf_iff_prefix.mp hp, by omega⟩
  · rintro ⟨i, hp, hend⟩
    have hle := hp.length_le h.nonempty
    exact ⟨i, by omega, by omega, isPrefixOf_iff_prefix.mpr hp⟩

/-- The engine with the one condition reports a match of the event. -/
def Matches (cond : ResolvedCondition ρ) (engine : ConditionEngine) (e : NormalizedEvent) : Prop :=
  (ingest R [cond] engine e).2 ≠ []

theorem matches_iff {cond : ResolvedCondition ρ} {needle : JsString} (h : LooksFor cond needle) {text : JsString} {user : Bool}
    {engine : ConditionEngine} (hr : Reads text user engine) {e : NormalizedEvent} (he : e.type ≠ js "agent_start") :
    Matches R cond engine e ↔ ∃ i, EndsInside text (text ++ said user e) needle i := by
  obtain ⟨hread, hprevious, hdelta⟩ := hr.read he
  have hone : Matches R cond engine e ↔
      (matchOne R (Watch.read engine e).1 cond e (Watch.read engine e).2).isSome = true := by
    simp only [Matches, ingest, filterMap_cons, filterMap_nil]
    cases matchOne R (Watch.read engine e).1 cond e (Watch.read engine e).2 <;> simp
  rw [hone, matchOne_text R h.text, matchTextEvent, if_neg h.source, hread.buffer, hprevious, hdelta]
  by_cases hnil : said user e = []
  · -- an event that says nothing: no occurrence ends past the text
    rw [if_pos hnil, hnil, append_nil]
    constructor
    · intro hcontra
      cases hcontra
    · rintro ⟨i, hoccurs, hend⟩
      have hle := hoccurs.length_le h.nonempty
      omega
  · rw [if_neg hnil]
    exact matchText_contains R h text (said user e)

/-- The engine before the `k`-th event. -/
def engineAt (cond : ResolvedCondition ρ) (engine : ConditionEngine) (es : List NormalizedEvent) (k : ℕ) : ConditionEngine :=
  (es.take k).foldl (fun s e => (ingest R [cond] s e).1) engine

def MatchesAt (cond : ResolvedCondition ρ) (engine : ConditionEngine) (es : List NormalizedEvent) (k : ℕ) : Prop :=
  ∃ e, es[k]? = some e ∧ Matches R cond (engineAt R cond engine es k) e

variable {cond : ResolvedCondition ρ} {needle : JsString}

/-- Run lemma: before an event the buffer is the text said up to it. -/
theorem reads_at {es : List NormalizedEvent} (ht : Turn es) {text : JsString} {user : Bool} {engine : ConditionEngine}
    (hr : Reads text user engine) (k : ℕ) : ∃ user', Reads (text ++ upTo (deltas user es) k) user' (engineAt R cond engine es k) ∧
      ∀ e, es[k]? = some e → (deltas user es)[k]? = some (said user' e) := by
  induction es generalizing text user engine k with
  | nil => exact ⟨user, by simpa [deltas, upTo, engineAt] using hr, by simp⟩
  | cons e es ih =>
    cases k with
    | zero => exact ⟨user, by simpa [upTo, engineAt] using hr, by simp [deltas]⟩
    | succ k =>
      have hread := (hr.read (ht e mem_cons_self)).1
      obtain ⟨user', hrest, hsaid⟩ := ih (fun x hx => ht x (mem_cons_of_mem e hx)) hread k
      refine ⟨user', ?_, by simpa [deltas] using hsaid⟩
      have htext : text ++ said user e ++ upTo (deltas (userAfter user e) es) k = text ++ upTo (deltas user (e :: es)) (k + 1) := by
        simp [deltas, upTo]
      rw [← htext]
      exact hrest

theorem length_deltas (user : Bool) (es : List NormalizedEvent) : (deltas user es).length = es.length := by
  induction es generalizing user with
  | nil => rfl
  | cons e es ih => simp [deltas, ih]

theorem upTo_succ {ds : List JsString} {k : ℕ} {d : JsString} (h : ds[k]? = some d) : upTo ds (k + 1) = upTo ds k ++ d := by
  rw [upTo, take_add_one, h, flatten_append]
  simp [upTo]

/-- A condition matches at an event when an occurrence ends inside what the event says. -/
theorem matchesAt_iff (h : LooksFor cond needle) {es : List NormalizedEvent} (ht : Turn es) {engine : ConditionEngine}
    (hr : Reads [] false engine) {k : ℕ} (hk : k < es.length) :
    MatchesAt R cond engine es k ↔ ∃ i, EndsInside (upTo (deltas false es) k) (upTo (deltas false es) (k + 1)) needle i := by
  obtain ⟨user', hread, hsaid⟩ := @reads_at _ R cond _ ht _ _ _ hr k
  have hget := getElem?_eq_getElem hk
  have hmem : es[k] ∈ es := getElem_mem hk
  rw [upTo_succ (hsaid _ hget)]
  rw [nil_append] at hread
  rw [← matches_iff R h hread (ht _ hmem)]
  constructor
  · rintro ⟨e, he, hm⟩
    rw [hget] at he
    exact Option.some.inj he ▸ hm
  · exact fun hm => ⟨es[k], hget, hm⟩

/-- An occurrence in the text of a turn ends inside one piece of it. -/
theorem occurrence_piece (hne : needle ≠ []) (ds : List JsString) {i : ℕ} (h : OccursAt ds.flatten needle i) :
    ∃! k, k < ds.length ∧ EndsInside (upTo ds k) (upTo ds (k + 1)) needle i := by
  have hpos := length_pos_iff.mpr hne
  obtain ⟨k, ⟨hk, hbefore, hafter⟩, honly⟩ := piece_unique ds (p := i + needle.length) (by omega) (h.length_le hne)
  refine ⟨k, ⟨hk, ?_, hbefore⟩, fun j hj => honly j ⟨hj.1, hj.2.2, hj.2.1.length_le hne⟩⟩
  rw [upTo_append ds (k + 1)] at h
  exact h.front hafter

theorem matches_iff_occurs (h : LooksFor cond needle) {es : List NormalizedEvent} (ht : Turn es) {engine : ConditionEngine}
    (hr : Reads [] false engine) : (∃ k, MatchesAt R cond engine es k) ↔ ∃ i, OccursAt (deltas false es).flatten needle i := by
  constructor
  · rintro ⟨k, hk⟩
    have hlt : k < es.length := by
      obtain ⟨e, he, _⟩ := hk
      exact (List.getElem?_eq_some_iff.mp he).1
    obtain ⟨i, hoccurs, _⟩ := (matchesAt_iff R h ht hr hlt).mp hk
    refine ⟨i, ?_⟩
    rw [upTo_append (deltas false es) (k + 1)]
    exact hoccurs.append _
  · rintro ⟨i, hi⟩
    obtain ⟨k, ⟨hk, hends⟩, _⟩ := occurrence_piece h.nonempty (deltas false es) hi
    rw [length_deltas] at hk
    exact ⟨k, (matchesAt_iff R h ht hr hk).mpr ⟨i, hends⟩⟩

end

def textDelta (d : JsString) : NormalizedEvent where
  type := NormalizedEvent.message_update
  data := some (.obj [(js "assistantMessageEvent", .obj [(js "type", .str (js "text_delta")), (js "delta", .str d)])])

def agentStart : NormalizedEvent where
  type := js "agent_start"
  data := none

def sentinel : ResolvedCondition Unit where
  id := js "c0"
  type := js "text"
  spec := { type := js "text", contains := some (js "DONE") }
  once := true
  regex := none

end PiWebUi.Watch
