/-
  PiWebUi.CommandCode.ParserCounts — what the parser reports besides the events is bounded.

  A line adds at most one to each count, a type it could not place is at most 160 units, and
  of the lines it drops it keeps five samples of at most 200 units (`Parsed.Bounded`). A line
  that is complete ended with a byte of its own, so that all counts are at most the bytes
  received and one for what the stream ended with (`bounded_run`).
-/

import PiWebUi.CommandCode.NdjsonParser
import PiWebUi.Lib.Check

namespace PiWebUi.CommandCode

open PiWebUi.Lib List

structure Parsed.Bounded (p : Parsed) : Prop where
  types : ∀ type ∈ p.unknownEventTypes, type.length ≤ 160
  suppressed : p.suppressedDuplicateCount ≤ p.lineCount
  dropped : p.droppedLineCount ≤ p.lineCount
  samples : p.droppedLineSamples.length ≤ 5
  numbered : ∀ d ∈ p.droppedLineSamples, 1 ≤ d.lineNumber ∧ d.lineNumber ≤ p.lineCount
  cut : ∀ d ∈ p.droppedLineSamples, d.sample.length ≤ 200

namespace Parsed

variable {o : CommandCodeParserOptions} {p p' : Parsed}

theorem Bounded.noteUnknown (h : p.Bounded) (event : Fields) {type : JsString} (htype : type.length ≤ 160) :
    (p.noteUnknown o event type).Bounded ∧ (p.noteUnknown o event type).lineCount = p.lineCount := by
  unfold Parsed.noteUnknown
  split
  · split
    · refine ⟨{ h with types := ?_ }, rfl⟩
      exact forall_mem_append.mpr ⟨h.types, forall_mem_singleton.mpr htype⟩
    · exact ⟨h, rfl⟩
  · exact ⟨h, rfl⟩

theorem Bounded.emit (h : p.Bounded) (event : Fields) (n : ℕ) : (p.emit event n).Bounded :=
  ⟨h.types, h.suppressed, h.dropped, h.samples, h.numbered, h.cut⟩

theorem Bounded.remember (h : p.Bounded) (key text : JsString) : (p.remember key text).Bounded :=
  ⟨h.types, h.suppressed, h.dropped, h.samples, h.numbered, h.cut⟩

/-- A line began: there is room for one more of each count. -/
structure Room (p : Parsed) : Prop extends p.Bounded where
  suppressed_lt : p.suppressedDuplicateCount < p.lineCount
  dropped_lt : p.droppedLineCount < p.lineCount

theorem Bounded.begin (h : p.Bounded) : Room { p with lineCount := p.lineCount + 1 } where
  types := h.types
  suppressed := Nat.le_succ_of_le h.suppressed
  dropped := Nat.le_succ_of_le h.dropped
  samples := h.samples
  numbered := fun d hd => ⟨(h.numbered d hd).1, Nat.le_succ_of_le (h.numbered d hd).2⟩
  cut := h.cut
  suppressed_lt := Nat.lt_succ_of_le h.suppressed
  dropped_lt := Nat.lt_succ_of_le h.dropped

theorem Room.acceptEvent (h : p.Room) (event : Fields) {type : JsString} (htype : type.length ≤ 160) (n : ℕ) :
    (p.acceptEvent o event type n).Bounded ∧ (p.acceptEvent o event type n).lineCount = p.lineCount := by
  have hp := h.toBounded
  unfold Parsed.acceptEvent
  split
  · next =>
    have hnoted := hp.noteUnknown (o := o) event htype
    exact ⟨hnoted.1.emit event n, hnoted.2⟩
  · next text _ =>
    dsimp only
    split
    · exact ⟨{ hp with suppressed := h.suppressed_lt }, rfl⟩
    · split
      · exact ⟨(hp.remember _ text).emit _ n, rfl⟩
      · have hnoted := (hp.remember (textKey event type) text).noteUnknown (o := o) event htype
        exact ⟨hnoted.1.emit event n, hnoted.2⟩

theorem Room.consumeEvent (h : p.Room) {frame : Fields} {n : ℕ} (hstep : p.consumeEvent o frame n = .ok p') :
    p'.Bounded ∧ p'.lineCount = p.lineCount := by
  unfold Parsed.consumeEvent at hstep
  split at hstep
  · next event _ =>
    split at hstep
    · next type _ =>
      split at hstep
      · cases hstep
      · next hlong =>
        cases hstep
        rw [Bool.or_eq_true, not_or, decide_eq_true_iff, decide_eq_true_iff, not_lt] at hlong
        exact h.acceptEvent event hlong.2 n
    · cases hstep
  · cases hstep

theorem Room.consumeResult (h : p.Room) {frame : Fields} (hstep : p.consumeResult frame = .ok p') :
    p'.Bounded ∧ p'.lineCount = p.lineCount := by
  unfold Parsed.consumeResult at hstep
  split_ifs at hstep
  cases hstep
  exact ⟨⟨h.types, h.suppressed, h.dropped, h.samples, h.numbered, h.cut⟩, rfl⟩

theorem Room.dropLine (h : p.Room) (line : JsString) : (p.dropLine line).Bounded where
  types := h.types
  suppressed := h.suppressed
  dropped := h.dropped_lt
  samples := by
    have := h.samples
    show (if p.droppedLineSamples.length < maxDroppedLineSamples then _ else _ : List DroppedLine).length ≤ 5
    split
    · next hroom =>
      rw [length_append]
      exact hroom
    · exact this
  numbered := by
    have hline : 1 ≤ p.lineCount := Nat.lt_of_le_of_lt (Nat.zero_le _) h.dropped_lt
    show ∀ d ∈ (if p.droppedLineSamples.length < maxDroppedLineSamples then _ else _ : List DroppedLine), _
    split
    · exact forall_mem_append.mpr ⟨h.numbered, forall_mem_singleton.mpr ⟨hline, le_refl _⟩⟩
    · exact h.numbered
  cut := by
    show ∀ d ∈ (if p.droppedLineSamples.length < maxDroppedLineSamples then _ else _ : List DroppedLine), _
    split
    · exact forall_mem_append.mpr ⟨h.cut, forall_mem_singleton.mpr (length_take_le _ _)⟩
    · exact h.cut

theorem Bounded.consumeLine (h : p.Bounded) {line : JsString} (hstep : p.consumeLine o line = .ok p') :
    p'.Bounded ∧ p'.lineCount = p.lineCount + 1 := by
  have hroom := h.begin
  unfold Parsed.consumeLine at hstep
  dsimp only at hstep
  split at hstep
  · cases hstep
  · split at hstep
    · cases hstep
      exact ⟨hroom.toBounded, rfl⟩
    · split at hstep
      · split at hstep
        · cases hstep
        · split at hstep
          · exact hroom.consumeEvent hstep
          · split at hstep
            · exact hroom.consumeResult hstep
            · cases hstep
      · cases hstep
        exact ⟨hroom.dropLine line, rfl⟩

theorem Bounded.consumeLines (ls : List JsString) : ∀ {p p' : Parsed}, p.Bounded →
    ls.foldlM (fun parsed line => parsed.consumeLine o (stripReturn line)) p = .ok p' →
    p'.Bounded ∧ p'.lineCount = p.lineCount + ls.length := by
  induction ls with
  | nil =>
    intro p p' h hrun
    cases hrun
    exact ⟨h, rfl⟩
  | cons line ls ih =>
    intro p p' h hrun
    rw [foldlM_cons] at hrun
    obtain ⟨q, hline, hrest⟩ := bind_eq_ok.mp hrun
    obtain ⟨hq, hcount⟩ := h.consumeLine hline
    obtain ⟨hp', hcount'⟩ := ih hq hrest
    refine ⟨hp', ?_⟩
    rw [length_cons]
    omega

end Parsed

/-! ## Lines and bytes -/

theorem length_lines (s : JsString) : (lines s).length = s.count newline + 1 := by
  induction s with
  | nil => rfl
  | cons u r ih =>
    rw [lines]
    by_cases hu : u = newline
    · rw [if_pos hu, length_cons, ih, hu, count_cons_self]
    · rw [if_neg hu, count_cons_of_ne hu, ← ih]
      cases hr : lines r with
      | nil => exact absurd hr (lines_ne_nil r)
      | cons l ls => rfl

theorem count_last_line (s : JsString) : ((lines s).getLastD []).count newline = 0 := by
  induction s with
  | nil => rfl
  | cons u r ih =>
    rw [lines]
    by_cases hu : u = newline
    · rw [if_pos hu]
      cases hr : lines r with
      | nil => exact absurd hr (lines_ne_nil r)
      | cons l ls =>
        rw [hr] at ih
        exact ih
    · rw [if_neg hu]
      cases hr : lines r with
      | nil => exact absurd hr (lines_ne_nil r)
      | cons l ls =>
        rw [hr] at ih
        cases ls with
        | nil =>
          show (u :: l).count newline = 0
          rw [count_cons_of_ne hu]
          exact ih
        | cons l' ls => exact ih

namespace CommandCodeNdjsonParser

/-- Every line consumed was ended by a byte of its own. -/
structure Bounded (p : CommandCodeNdjsonParser) : Prop where
  parsed : p.parsed.Bounded
  lines : p.parsed.lineCount ≤ p.bytes
  begun : p.buffer.count newline = 0

variable {o : CommandCodeParserOptions} {p p' : CommandCodeNdjsonParser}

theorem bounded_new : Bounded {} where
  parsed := by
    constructor <;> simp
  lines := Nat.le_refl _
  begun := rfl

theorem Bounded.push (h : p.Bounded) {chunk : Chunk} (hstep : p.push o chunk = .ok p') :
    p'.Bounded ∧ p'.bytes ≤ o.maxAggregateBytes := by
  unfold CommandCodeNdjsonParser.push at hstep
  dsimp only at hstep
  split at hstep
  · cases hstep
  · next hbytes =>
    obtain ⟨parsed, hlines, hrest⟩ := bind_eq_ok.mp hstep
    cases hrest
    obtain ⟨hparsed, hcount⟩ := h.parsed.consumeLines _ hlines
    refine ⟨⟨hparsed, ?_, count_last_line _⟩, not_lt.mp hbytes⟩
    have hnewlines : (Lib.lines (p.buffer ++ chunk.toText)).dropLast.length = chunk.toText.count newline := by
      rw [length_dropLast, length_lines, count_append, h.begun]
      omega
    have hcounted : chunk.toText.count newline ≤ utf8Length chunk.toText :=
      count_le_length.trans (length_le_utf8Length _)
    have := h.lines
    show parsed.lineCount ≤ p.bytes + utf8Length chunk.toText
    simp only at hcount
    omega

theorem Bounded.pushed (chunks : List Chunk) : ∀ {p p' : CommandCodeNdjsonParser}, p.Bounded → p.bytes ≤ o.maxAggregateBytes →
    chunks.foldlM (CommandCodeNdjsonParser.push o) p = .ok p' → p'.Bounded ∧ p'.bytes ≤ o.maxAggregateBytes := by
  induction chunks with
  | nil =>
    intro p p' h hbytes hrun
    cases hrun
    exact ⟨h, hbytes⟩
  | cons chunk chunks ih =>
    intro p p' h hbytes hrun
    rw [foldlM_cons] at hrun
    obtain ⟨q, hpush, hrest⟩ := bind_eq_ok.mp hrun
    obtain ⟨hq, hbytes'⟩ := h.push hpush
    exact ih hq hbytes' hrest

theorem Bounded.lastLine (h : p.Bounded) {parsed : Parsed} (hlast : p.lastLine o = .ok parsed) :
    parsed.Bounded ∧ parsed.lineCount ≤ p.bytes + 1 := by
  have hlines := h.lines
  unfold CommandCodeNdjsonParser.lastLine at hlast
  split at hlast
  · cases hlast
    exact ⟨h.parsed, Nat.le_succ_of_le hlines⟩
  · obtain ⟨hparsed, hcount⟩ := h.parsed.consumeLine hlast
    exact ⟨hparsed, by omega⟩

end CommandCodeNdjsonParser

/-- What an output reports, when `lines` were read. -/
structure ParsedCommandCodeOutput.Bounded (out : ParsedCommandCodeOutput) (lines : ℕ) : Prop where
  types : ∀ type ∈ out.unknownEventTypes, type.length ≤ 160
  suppressed : out.suppressedDuplicateCount ≤ lines
  dropped : out.droppedLineCount ≤ lines
  samples : out.droppedLineSamples.length ≤ 5
  numbered : ∀ d ∈ out.droppedLineSamples, 1 ≤ d.lineNumber ∧ d.lineNumber ≤ lines
  cut : ∀ d ∈ out.droppedLineSamples, d.sample.length ≤ 200

theorem bounded_run {o : CommandCodeParserOptions} {chunks : List Chunk} {exitCode : Option ℤ} {signal : Option JsString}
    {out : ParsedCommandCodeOutput} (hrun : CommandCodeNdjsonParser.run o chunks exitCode signal = .ok out) :
    out.Bounded (o.maxAggregateBytes + 1) := by
  obtain ⟨p, hpushed, hfinish⟩ := bind_eq_ok.mp hrun
  obtain ⟨hp, hbytes⟩ := CommandCodeNdjsonParser.bounded_new.pushed chunks (Nat.zero_le _) hpushed
  obtain ⟨parsed, hlast, hout⟩ := bind_eq_ok.mp hfinish
  obtain ⟨hparsed, hlines⟩ := hp.lastLine hlast
  unfold CommandCodeNdjsonParser.output at hout
  split at hout
  · cases hout
  · split at hout
    · cases hout
    · cases hout
      exact {
        types := hparsed.types
        suppressed := hparsed.suppressed.trans (by omega)
        dropped := hparsed.dropped.trans (by omega)
        samples := hparsed.samples
        numbered := fun d hd => ⟨(hparsed.numbered d hd).1, (hparsed.numbered d hd).2.trans (by omega)⟩
        cut := hparsed.cut }

end PiWebUi.CommandCode
