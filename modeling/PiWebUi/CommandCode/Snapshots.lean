/-
  PiWebUi.CommandCode.Snapshots — cumulative snapshots as what is new of them.

  A message has a text and a thinking; the frames of each are snapshots that grow. What is
  new of a snapshot is found by the text that was remembered under its key: where that is
  not the message's own last snapshot, what is emitted is too little or too much.
-/

import PiWebUi.CommandCode.NdjsonParser
import PiWebUi.Lib.Run
import Mathlib.Logic.Function.Basic

namespace PiWebUi.CommandCode

open PiWebUi.Lib List Option

/-! ## What is new of a snapshot -/

/-- What is emitted of a snapshot where another text is remembered. -/
def deltaOf (remembered text : JsString) : JsString :=
  if text = remembered then []
  else if remembered.isPrefixOf text then text.drop remembered.length
  else text

/-- It is what follows `last` where that is remembered, or where nothing came before and what
    is remembered does not begin the text. -/
theorem deltaOf_iff {last text : JsString} (hlast : last <+: text) (remembered : JsString) :
    last ++ deltaOf remembered text = text ↔ remembered = last ∨ (last = [] ∧ ¬ remembered <+: text) := by
  obtain ⟨new, rfl⟩ := hlast
  rw [append_cancel_left_eq]
  unfold deltaOf
  split
  next hsame =>
    subst hsame
    constructor
    · intro hnew
      rw [← hnew, append_nil]
      exact .inl rfl
    · intro h
      rcases h with h | h
      · have hlength := congrArg List.length h
        rw [length_append] at hlength
        exact (length_eq_zero_iff.mp (by omega)).symm
      · exact absurd prefix_rfl h.2
  next hne =>
    split
    next hprefix =>
      have hprefix' := isPrefixOf_iff_prefix.mp hprefix
      constructor
      · intro hdrop
        left
        have hlength := congrArg List.length hdrop
        have hle := hprefix'.length_le
        rw [length_drop, length_append] at hlength
        rw [length_append] at hle
        exact prefix_of_prefix_length_le hprefix' (prefix_append _ _) (by omega) |>.eq_of_length (by omega)
      · intro h
        rcases h with rfl | h
        · rw [drop_left]
        · exact absurd hprefix' h.2
    next hprefix =>
      have hprefix' : ¬ remembered <+: last ++ new := fun h => hprefix ( isPrefixOf_iff_prefix.mpr h)
      constructor
      · intro hall
        have hlength := congrArg List.length hall
        rw [length_append] at hlength
        exact .inr ⟨length_eq_zero_iff.mp (by omega), hprefix'⟩
      · intro h
        rcases h with rfl | h
        · exact absurd (prefix_append _ _) hprefix'
        · rw [h.1, nil_append]

/-! ## A stream of event frames -/

inductive Channel where
  | text
  | thinking
  deriving DecidableEq

def channel (type : JsString) : Option Channel :=
  if type ∈ ["message_update", "text_delta", "assistant_text"].map js then some .text
  else if type ∈ ["thinking", "reasoning", "thinking_delta"].map js then some .thinking
  else none

/-- An event of a frame that is not malformed. -/
structure EventFrame where
  event : Fields
  type : JsString
  typed : textProperty event "type" = some type
  sized : type ≠ [] ∧ type.length ≤ 160

/-- Of the message that has started and not ended: its last snapshots, and what was emitted. -/
structure UnderWay where
  latest : Channel → JsString
  emitted : Channel → JsString

structure Stream where
  parsed : Parsed := {}
  message : Option UnderWay := none

/-- The texts of the events that came in between. -/
def newText (p p' : Parsed) : JsString := (p'.events.drop p.events.length).flatMap fun e => (snapshotText e.event).getD []

def UnderWay.told (m : UnderWay) (c : Channel) (text new : JsString) : UnderWay where
  latest := Function.update m.latest c text
  emitted := Function.update m.emitted c (m.emitted c ++ new)

section

variable (o : CommandCodeParserOptions)

def Stream.accept (s : Stream) (f : EventFrame) : Parsed :=
  ({ s.parsed with lineCount := s.parsed.lineCount + 1 } : Parsed).acceptEvent o f.event f.type (s.parsed.lineCount + 1)

def Stream.step (s : Stream) (f : EventFrame) : Stream where
  parsed := s.accept o f
  message :=
    if f.type = js "message_start" then some ⟨fun _ => [], fun _ => []⟩
    else if f.type = js "message_end" then none
    else
      match s.message, channel f.type with
      | some m, some c => some (m.told c ((snapshotText f.event).getD []) (newText s.parsed (s.accept o f)))
      | m, _ => m

end

/-- A frame of a message is a snapshot that begins with the message's last one. -/
def Extends (s : Stream) (f : EventFrame) : Prop :=
  ∀ m c, s.message = some m → channel f.type = some c →
    isCumulative f.event = true ∧ ∃ text, snapshotText f.event = some text ∧ m.latest c <+: text

instance (s : Stream) (f : EventFrame) : Decidable (Extends s f) :=
  match hm : s.message, hc : channel f.type, ht : snapshotText f.event with
  | none, _, _ => .isTrue (by intro m c h; rw [hm] at h; cases h)
  | some _, none, _ => .isTrue (by intro m c _ h; rw [hc] at h; cases h)
  | some m, some c, none => .isFalse (by intro h; obtain ⟨-, _, h, -⟩ := h m c hm hc; rw [ht] at h; cases h)
  | some m, some c, some text =>
    decidable_of_iff (isCumulative f.event = true ∧ m.latest c <+: text) (by
      constructor
      · intro h m' c' hm' hc'
        cases hm.symm.trans hm'
        cases hc.symm.trans hc'
        exact ⟨h.1, text, ht, h.2⟩
      · intro h
        obtain ⟨hcumulative, text', ht', hlast⟩ := h m c hm hc
        cases ht.symm.trans ht'
        exact ⟨hcumulative, hlast⟩)

def Stream.remembered (s : Stream) (f : EventFrame) : JsString :=
  (s.parsed.cumulativeSnapshots.get (textKey f.event f.type)).getD []

/-- What is remembered under the frame's key is the message's last snapshot of the channel; or
    there is none yet, and what is remembered does not begin the new one. -/
def RemembersOwn (s : Stream) (f : EventFrame) : Prop :=
  ∀ m c text, s.message = some m → channel f.type = some c → snapshotText f.event = some text →
    s.remembered f = m.latest c ∨ (m.latest c = [] ∧ ¬ s.remembered f <+: text)

instance (s : Stream) (f : EventFrame) : Decidable (RemembersOwn s f) :=
  match hm : s.message, hc : channel f.type, ht : snapshotText f.event with
  | none, _, _ => .isTrue (by intro m c text h; rw [hm] at h; cases h)
  | some _, none, _ => .isTrue (by intro m c text _ h; rw [hc] at h; cases h)
  | some _, some _, none => .isTrue (by intro m c text _ _ h; rw [ht] at h; cases h)
  | some m, some c, some text =>
    decidable_of_iff (s.remembered f = m.latest c ∨ (m.latest c = [] ∧ ¬ s.remembered f <+: text)) (by
      constructor
      · intro h m' c' text' hm' hc' ht'
        cases hm.symm.trans hm'
        cases hc.symm.trans hc'
        cases ht.symm.trans ht'
        exact h
      · intro h
        exact h m c text hm hc ht)

/-- What was emitted since the message started is its last snapshot. -/
def Shown (s : Stream) : Prop := ∀ m, s.message = some m → ∀ c, m.emitted c = m.latest c

/-! ## What is emitted of a frame -/

theorem snapshotText_withSuffix (event : Fields) (suffix : JsString) : snapshotText (withSuffix event suffix) = some suffix := by
  have hne : js "cumulative" ≠ js "text" := by decide
  have htext : textProperty (withSuffix event suffix) "text" = some suffix := by
    unfold textProperty property withSuffix
    rw [Json.get_setField, if_neg hne.symm, Json.get_setField, if_pos rfl]
  rw [snapshotText, htext, some_or]

theorem newText_emit {p q : Parsed} (hevents : q.events = p.events) (event : Fields) (lineNumber : ℕ) :
    newText p (q.emit event lineNumber) = (snapshotText event).getD [] := by
  unfold newText Parsed.emit
  rw [hevents, drop_left]
  exact flatMap_singleton _ _

theorem noteUnknown_events (o : CommandCodeParserOptions) (p : Parsed) (event : Fields) (type : JsString) :
    (p.noteUnknown o event type).events = p.events := by
  unfold Parsed.noteUnknown
  split
  · split <;> rfl
  · rfl

section

variable {o : CommandCodeParserOptions} {s : Stream} {f : EventFrame} {text : JsString}

theorem newText_accept (hcumulative : isCumulative f.event = true) (htext : snapshotText f.event = some text) :
    newText s.parsed (s.accept o f) = deltaOf (s.remembered f) text := by
  unfold Stream.accept Parsed.acceptEvent deltaOf Stream.remembered
  simp only [hcumulative, if_true, htext]
  split
  next hsame =>
    unfold newText Parsed.suppress
    rw [drop_length]
    rfl
  next hne =>
    split
    next hprefix =>
      rw [newText_emit (by rfl), snapshotText_withSuffix]
      rfl
    next hprefix =>
      rw [newText_emit (by rw [noteUnknown_events]; rfl), htext]
      rfl

/-! ## Every stream -/

theorem Stream.step_other (hstart : f.type ≠ js "message_start") (hend : f.type ≠ js "message_end") (hchannel : channel f.type = none) :
    (s.step o f).message = s.message := by
  unfold Stream.step
  simp only [if_neg hstart, if_neg hend, hchannel]
  cases s.message with
  | none | some m => rfl

theorem Stream.step_snapshot {m : UnderWay} {c : Channel} (hm : s.message = some m) (hchannel : channel f.type = some c) :
    (s.step o f).message = some (m.told c ((snapshotText f.event).getD []) (newText s.parsed (s.accept o f))) := by
  have hstart : f.type ≠ js "message_start" := by
    intro h
    have hnone : channel (js "message_start") = none := by decide
    rw [h, hnone] at hchannel
    cases hchannel
  have hend : f.type ≠ js "message_end" := by
    intro h
    have hnone : channel (js "message_end") = none := by decide
    rw [h, hnone] at hchannel
    cases hchannel
  unfold Stream.step
  simp only [if_neg hstart, if_neg hend, hchannel, hm]

/-- A frame leaves no message, a new one, or the one there was. -/
theorem Stream.step_quiet (hquiet : s.message = none ∨ channel f.type = none) :
    (s.step o f).message = none ∨ (s.step o f).message = some ⟨fun _ => [], fun _ => []⟩ ∨ (s.step o f).message = s.message := by
  by_cases hstart : f.type = js "message_start"
  · right; left
    unfold Stream.step
    simp only [if_pos hstart]
  · by_cases hend : f.type = js "message_end"
    · left
      unfold Stream.step
      simp only [if_neg hstart, if_pos hend]
    · rcases hquiet with hnone | hchannel
      · left
        unfold Stream.step
        simp only [if_neg hstart, if_neg hend, hnone]
      · exact .inr (.inr (Stream.step_other hstart hend hchannel))

theorem told_shown {m : UnderWay} {c : Channel} {new : JsString} (hm : ∀ c, m.emitted c = m.latest c) :
    (∀ d, (m.told c text new).emitted d = (m.told c text new).latest d) ↔ m.latest c ++ new = text := by
  constructor
  · intro h
    have hc := h c
    simp only [UnderWay.told, Function.update_self] at hc
    rw [← hm c]
    exact hc
  · intro h d
    by_cases hd : d = c
    · subst hd
      simp only [UnderWay.told, Function.update_self]
      rw [hm d]
      exact h
    · simp only [UnderWay.told, Function.update_of_ne hd]
      exact hm d

/-- The step: what was shown stays so where what is remembered is the message's own. -/
theorem shown_step (hs : Shown s) (hext : Extends s f) : Shown (s.step o f) ↔ RemembersOwn s f := by
  by_cases hquiet : s.message = none ∨ channel f.type = none
  · have hown : RemembersOwn s f := by
      intro m c text hm hchannel
      rcases hquiet with h | h
      · rw [h] at hm
        cases hm
      · rw [h] at hchannel
        cases hchannel
    have hshown : Shown (s.step o f) := by
      intro m hm c
      rcases Stream.step_quiet (o := o) hquiet with h | h | h
      · rw [h] at hm
        cases hm
      · rw [h] at hm
        cases hm
        rfl
      · exact hs m (h ▸ hm) c
    exact iff_of_true hshown hown
  · push Not at hquiet
    obtain ⟨m, hm⟩ := ne_none_iff_exists'.mp hquiet.1
    obtain ⟨c, hchannel⟩ := ne_none_iff_exists'.mp hquiet.2
    obtain ⟨hcumulative, text, htext, hlast⟩ := hext m c hm hchannel
    have hmessage := Stream.step_snapshot (o := o) hm hchannel
    rw [newText_accept hcumulative htext, htext, getD_some] at hmessage
    have hafter : Shown (s.step o f) ↔ m.latest c ++ deltaOf (s.remembered f) text = text := by
      rw [← told_shown (hs m hm)]
      constructor
      · intro h
        exact h _ hmessage
      · intro h m' hm'
        rw [hmessage] at hm'
        cases hm'
        exact h
    rw [hafter, deltaOf_iff hlast]
    constructor
    · intro h m' c' text' hm' hchannel' htext'
      cases hm.symm.trans hm'
      cases hchannel.symm.trans hchannel'
      cases htext.symm.trans htext'
      exact h
    · intro h
      exact h m c text hm hchannel htext

end

/-- At every moment of every stream of growing snapshots what was emitted of a message is its
    last snapshot, exactly where at each of them what is remembered is the message's own. -/
theorem snapshots_shown_iff {o : CommandCodeParserOptions} {es : List EventFrame} (hes : Run.Along (Stream.step o) Extends {} es) :
    (∀ done, done <+: es → Shown (done.foldl (Stream.step o) {})) ↔ Run.Along (Stream.step o) RemembersOwn {} es := by
  have hstart : Shown {} := by
    intro m hm
    cases hm
  have hboth : Run.Along (Stream.step o) (fun s f => Extends s f ∧ Shown (s.step o f)) {} es ↔
      Run.Along (Stream.step o) (fun s f => Extends s f ∧ RemembersOwn s f) {} es := by
    apply Run.along_iff_of_invariant (I := Shown) _ _ hstart
    · intro s f hs h
      exact (shown_step hs h.1).mpr h.2
    · intro s f hs
      constructor
      · intro h
        exact ⟨h.1, (shown_step hs h.1).mp h.2⟩
      · intro h
        exact ⟨h.1, (shown_step hs h.1).mpr h.2⟩
  rw [Run.along_and, Run.along_and] at hboth
  rw [← Run.along_after_iff hstart]
  constructor
  · intro h
    exact (hboth.mp ⟨hes, h⟩).2
  · intro h
    exact (hboth.mpr ⟨hes, h⟩).2

/-- `{ type: 'message_update', text, cumulative: true }` -/
def snapshotFrame (text : JsString) : EventFrame where
  event := [(js "type", .str (js "message_update")), (js "text", .str text), (js "cumulative", .bool true)]
  type := js "message_update"
  typed := rfl
  sized := by decide

def messageStart : EventFrame where
  event := [(js "type", .str (js "message_start"))]
  type := js "message_start"
  typed := rfl
  sized := by decide

def messageEnd : EventFrame where
  event := [(js "type", .str (js "message_end"))]
  type := js "message_end"
  typed := rfl
  sized := by decide

/-- One message whose text grows, and another that begins otherwise. -/
def twoAnswers : List EventFrame :=
  [messageStart, snapshotFrame (js "he"), snapshotFrame (js "hello"), messageEnd, messageStart, snapshotFrame (js "bye")]

theorem twoAnswers_extend : Run.Along (Stream.step {}) Extends {} twoAnswers := by decide +kernel

theorem twoAnswers_shown : Run.Along (Stream.step {}) Extends {} twoAnswers ∧ Shown (twoAnswers.foldl (Stream.step {}) {}) :=
  ⟨twoAnswers_extend, (snapshots_shown_iff twoAnswers_extend).mpr (by decide +kernel) twoAnswers prefix_rfl⟩

/-- Two messages of the same text. -/
def sameAnswerTwice : List EventFrame :=
  [messageStart, snapshotFrame (js "done"), messageEnd, messageStart, snapshotFrame (js "done")]

/-- Nothing is emitted of the second. -/
theorem second_not_shown : Run.Along (Stream.step {}) Extends {} sameAnswerTwice ∧
      ((sameAnswerTwice.foldl (Stream.step {}) {}).message.map fun m => (m.emitted .text, m.latest .text)) = some ([], js "done") ∧
      ¬ Shown (sameAnswerTwice.foldl (Stream.step {}) {}) := by
  have hsecond : ((sameAnswerTwice.foldl (Stream.step {}) {}).message.map fun m => (m.emitted .text, m.latest .text)) =
      some ([], js "done") := by decide +kernel
  refine ⟨by decide +kernel, hsecond, ?_⟩
  intro h
  obtain ⟨m, hm, htexts⟩ := map_eq_some_iff.mp hsecond
  have hsame := h m hm .text
  rw [(Prod.mk.inj htexts).1, (Prod.mk.inj htexts).2] at hsame
  exact absurd hsame (by decide)

end PiWebUi.CommandCode
