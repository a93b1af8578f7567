/-
  PiWebUi.CommandCode.JournalReplay — what a journal replays after crashes.

  The file of a session is complete lines and at most one torn line at its end, which `read`
  drops. So it is along a run that never appends onto a torn line (`reads_back`): `read`
  answers every event whose append resolved, in order and each once, and of the others only
  those whose complete line had reached the disk. The appender itself does not look at what
  the file ends with: after a crash inside an append, the next append joins its line to the
  torn one, and the whole journal is refused from then on (`a_torn_line_is_appended_to`).
-/

import Mathlib.Data.List.TakeWhile
import PiWebUi.CommandCode.EventJournal
import PiWebUi.Lib.JsonLine
import PiWebUi.Lib.Run

namespace PiWebUi.CommandCode

open PiWebUi.Lib Utf8 List Option

/-! ## The line of an event -/

theorem lineOf_braces (event : NormalizedEvent) : ∃ t, lineOf event = 123 :: (t ++ [125]) := by
  have h : redactValue event.toJson 0 [] = .obj (redactFields MAX_ITEMS
      ([(js "type", .str event.type)] ++ event.rest ++ [(js "timestamp", .num event.timestamp)] ++
        (event.data.map fun d => (js "data", d)).toList) 1) := by
    rw [NormalizedEvent.toJson, redactValue]
    simp [MAX_DEPTH]
  rw [lineOf, h]
  exact Json.stringify_obj _

theorem newline_not_mem_lineOf (event : NormalizedEvent) : newline ∉ lineOf event := Json.newline_not_mem_stringify _

theorem wellFormed_lineOf (event : NormalizedEvent) : WellFormed (lineOf event) := Json.wellFormed_stringify _

theorem trim_ne_nil {u : UInt16} (hu : isWhiteSpace u = false) (r : JsString) : trim (u :: r) ≠ [] := by
  intro h
  have hall : ∀ v ∈ (u :: r).reverse, isWhiteSpace v = true := by
    simpa [trim, dropWhile_cons, hu, dropWhile_eq_nil_iff] using h
  have := hall u (by simp)
  rw [hu] at this
  cases this

theorem trim_lineOf (event : NormalizedEvent) : trim (lineOf event) ≠ [] := by
  obtain ⟨t, ht⟩ := lineOf_braces event
  rw [ht]
  exact trim_ne_nil (by decide) _

theorem strip_lineOf (event : NormalizedEvent) : stripCarriageReturn (lineOf event) = lineOf event := by
  obtain ⟨t, ht⟩ := lineOf_braces event
  have hlast : (lineOf event).getLast? = some 125 := by
    rw [ht, show 123 :: (t ++ [125]) = (123 :: t) ++ [125] from rfl, getLast?_concat]
  rw [stripCarriageReturn, hlast]
  rfl

/-! ## The octets of a line -/

/-- A complete line on disk. -/
def block (event : NormalizedEvent) : List ℕ := encode (lineOf event ++ [newline])

theorem block_eq (event : NormalizedEvent) : block event = encode (lineOf event) ++ [10] := by
  have h := encode_append_cons (lineOf event) (u := newline) (by decide) []
  rw [block, h]
  simp [encode, encodeUnit, newline]

theorem newline_mem_of_mem_encodeUnit {u : UInt16} (h : 10 ∈ encodeUnit u) : u = newline := by
  simp only [encodeUnit] at h
  split_ifs at h
  · have h := mem_singleton.mp h
    rw [← toUInt16_toNat u, ← h]
    rfl
  · simp only [mem_cons, not_mem_nil, or_false] at h
    omega
  · simp at h
  · simp only [mem_cons, not_mem_nil, or_false] at h
    omega

theorem newline_mem_of_mem_encode {s : JsString} (h : 10 ∈ encode s) : newline ∈ s := by
  induction s using encode.induct with
  | case1 => cases h
  | case2 u => simp [newline_mem_of_mem_encodeUnit h]
  | case3 u v s hp ih =>
    rw [encode, if_pos hp, mem_append] at h
    rcases h with h | h
    · simp only [encodePair, mem_cons, not_mem_nil, or_false] at h
      omega
    · simp [ih h]
  | case4 u v s hp ih =>
    rw [encode, if_neg hp, mem_append] at h
    rcases h with h | h
    · simp [newline_mem_of_mem_encodeUnit h]
    · exact mem_cons_of_mem _ (ih h)

theorem decode_blocks (events : List NormalizedEvent) (r : List ℕ) :
    decodeFrom none (events.flatMap block ++ r) = (events.flatMap fun e => lineOf e ++ [newline]) ++ decodeFrom none r := by
  induction events with
  | nil => rfl
  | cons e events ih =>
    have hwf : WellFormed (lineOf e ++ [newline]) := wellFormed_append (wellFormed_lineOf e) (wellFormed_of_all (by decide))
    rw [flatMap_cons, flatMap_cons, append_assoc, block, decode_encode_append hwf, ih]
    simp only [append_assoc]

theorem encode_blocks (events : List NormalizedEvent) (t : JsString) :
    encode ((events.flatMap fun e => lineOf e ++ [newline]) ++ t) = events.flatMap block ++ encode t := by
  induction events with
  | nil => rfl
  | cons e events ih =>
    rw [flatMap_cons, flatMap_cons, append_assoc, append_assoc, singleton_append,
      encode_append_cons _ (by decide), ih, block_eq]
    simp [encodeUnit, newline]

/-- What is read of a torn line is on one line, and no longer than the complete line. -/
theorem torn_line {event : NormalizedEvent} {torn : List ℕ} (h : torn <+: encode (lineOf event)) :
    newline ∉ decode torn ∧ utf8Length (decode torn) ≤ (block event).length := by
  constructor
  · obtain ⟨t, ht, ⟨hd, -⟩ | ⟨hd, -⟩⟩ := decode_prefix (wellFormed_lineOf event) torn h
    · rw [hd]
      exact fun hm => newline_not_mem_lineOf event (ht.subset hm)
    · rw [hd, mem_append, mem_singleton]
      rintro (hm | hm)
      · exact newline_not_mem_lineOf event (ht.subset hm)
      · cases hm
  · by_cases hall : torn = encode (lineOf event)
    · rw [hall, decode_encode (wellFormed_lineOf event), utf8Length_eq, block_eq, length_append]
      omega
    · obtain ⟨t, ht⟩ := lineOf_braces event
      have henc : encode (lineOf event) = encode (123 :: t) ++ [125] := by
        rw [ht, show 123 :: (t ++ [125]) = (123 :: t) ++ [125] from rfl, encode_append_cons _ (by decide)]
        simp [encode, encodeUnit]
      have hlt : torn.length < (encode (lineOf event)).length :=
        lt_of_le_of_ne h.length_le fun he => hall (h.eq_of_length he)
      have hbound := utf8Length_decode_prefix (wellFormed_lineOf event) h
      rw [block_eq, length_append, length_singleton]
      omega

/-! ## Reading complete lines -/

theorem lines_blocks (events : List NormalizedEvent) {t : JsString} (ht : newline ∉ t) :
    lines ((events.flatMap fun e => lineOf e ++ [newline]) ++ t) = events.map lineOf ++ [t] := by
  induction events with
  | nil => exact lines_of_no_newline ht
  | cons e events ih =>
    rw [flatMap_cons, append_assoc, append_assoc, singleton_append, lines_append_newline,
      lines_of_no_newline (newline_not_mem_lineOf e), ih]
    rfl

theorem completeLines_blocks (events : List NormalizedEvent) {t : JsString} (ht : newline ∉ t) :
    completeLines ((events.flatMap fun e => lineOf e ++ [newline]) ++ t) = events.map lineOf := by
  rw [completeLines, lines_blocks events ht, dropLast_concat, List.map_map]
  exact map_congr_left fun e _ => strip_lineOf e

theorem readLines_events {events : List NormalizedEvent} (h : ∀ e ∈ events, (eventOf (lineOf e)).isSome = true) (index : ℕ) :
    readLines index (events.map lineOf) = .ok (events.map SessionJournal.recorded) := by
  induction events generalizing index with
  | nil => rfl
  | cons e events ih =>
    obtain ⟨v, hv⟩ := isSome_iff_exists.mp (h e (by simp))
    have hrest := ih (fun e he => h e (mem_cons_of_mem _ he)) (index + 1)
    simp only [map_cons, readLines, if_neg (trim_lineOf e), hv, hrest, Except.map, SessionJournal.recorded, getD_some]

/-- Complete lines and a torn one read as the events of the complete lines. -/
theorem read_blocks {s : SessionJournal} {events : List NormalizedEvent} {torn : List ℕ}
    (hfile : s.file.getD [] = events.flatMap block ++ torn) (hread : ∀ e ∈ events, (eventOf (lineOf e)).isSome = true)
    (htorn : newline ∉ decode torn) (hsize : (events.flatMap block).length + utf8Length (decode torn) ≤ s.maxBytes) :
    s.read = .ok (events.map SessionJournal.recorded) := by
  have hdec : decode (events.flatMap block ++ torn) = (events.flatMap fun e => lineOf e ++ [newline]) ++ decode torn :=
    decode_blocks events torn
  cases hf : s.file with
  | none =>
    rw [hf] at hfile
    obtain ⟨hb, -⟩ := append_eq_nil_iff.mp hfile.symm
    cases events with
    | nil => simp [SessionJournal.read, hf]
    | cons e events =>
      rw [flatMap_cons, block_eq] at hb
      simp at hb
  | some bytes =>
    rw [hf, getD_some] at hfile
    have hlen : utf8Length (decode bytes) ≤ s.maxBytes := by
      rw [hfile, hdec, utf8Length_eq, encode_blocks, length_append, ← utf8Length_eq]
      exact hsize
    simp only [SessionJournal.read, hf, if_neg (Nat.not_lt.mpr hlen)]
    rw [hfile, hdec, completeLines_blocks events htorn, readLines_events hread]

/-! ## The invariant -/

namespace SessionJournal

/-- The events whose complete line is on disk. -/
def onDisk (s : SessionJournal) : List NormalizedEvent := s.written.map (·.event)

def blocks (s : SessionJournal) : List ℕ := s.onDisk.flatMap block

/-- `torn` is a part of a line that had room for its whole, or nothing. -/
def Torn (s : SessionJournal) (torn : List ℕ) : Prop :=
  (torn = [] ∧ s.blocks.length ≤ s.maxBytes) ∨
    ∃ event, torn <+: encode (lineOf event) ∧ s.blocks.length + (block event).length ≤ s.maxBytes

/-- The append that runs is the newest: its line is complete, or what is on disk and what is
    not make it up. -/
def Running (s : SessionJournal) (torn : List ℕ) : Prop :=
  ∀ rest, s.writing = some rest → ∃ a as, s.attempts = a :: as ∧ a.resolved = false ∧
    (a.onDisk = true ∧ rest = [] ∨ a.onDisk = false ∧ rest ≠ [] ∧ torn ++ rest = block a.event ∧
      s.blocks.length + (block a.event).length ≤ s.maxBytes)

structure Inv (s : SessionJournal) : Prop where
  resolved : ∀ a ∈ s.attempts, a.resolved = true → a.onDisk = true
  readable : ∀ a ∈ s.attempts, (eventOf (lineOf a.event)).isSome = true
  file : ∃ torn, s.file.getD [] = s.blocks ++ torn ∧ s.Torn torn ∧ s.Running torn

theorem inv_new (sessionId : SessionId) (maxBytes maxEventBytes : ℕ) : (new sessionId maxBytes maxEventBytes).Inv := by
  refine ⟨?_, ?_, [], rfl, .inl ⟨rfl, Nat.zero_le _⟩, nofun⟩
  all_goals
    intro a ha
    cases ha

variable {s : SessionJournal}

theorem readsBack (h : s.Inv) : s.ReadsBack := by
  obtain ⟨torn, hfile, htorn, -⟩ := h.file
  refine ⟨fun _ => ?_, h.resolved⟩
  have hread : ∀ e ∈ s.onDisk, (eventOf (lineOf e)).isSome = true := by
    intro e he
    obtain ⟨a, ha, rfl⟩ := mem_map.mp he
    exact h.readable a (mem_reverse.mp (mem_filter.mp ha).1)
  have hmap : s.onDisk.map recorded = s.written.map fun a => recorded a.event := by simp [onDisk]
  rw [← hmap]
  rcases htorn with ⟨rfl, hsize⟩ | ⟨e, hpre, hsize⟩
  · exact read_blocks hfile hread (by simp [decode, decodeFrom]) hsize
  · obtain ⟨hnl, hlen⟩ := torn_line hpre
    refine read_blocks hfile hread hnl ?_
    have : (s.onDisk.flatMap block).length + (block e).length ≤ s.maxBytes := hsize
    omega

/-! ## Every step -/

/-- What ends with a newline, or holds nothing, has no torn line. -/
theorem torn_nil {torn : List ℕ} (hfile : s.file.getD [] = s.blocks ++ torn) (htorn : s.Torn torn)
    (hwhole : s.endsWhole = true) : torn = [] := by
  rcases htorn with ⟨h, -⟩ | ⟨e, hpre, -⟩
  · exact h
  · by_contra hne
    have hlast : (s.file.getD []).getLast? = torn.getLast? := by
      rw [hfile, getLast?_append]
      cases hl : torn.getLast? with
      | none => exact absurd (getLast?_eq_none_iff.mp hl) hne
      | some b => rfl
    cases hl : torn.getLast? with
    | none => exact hne (getLast?_eq_none_iff.mp hl)
    | some b =>
      rw [endsWhole, hlast, hl, all_some, decide_eq_true_eq] at hwhole
      subst hwhole
      have hmem : 10 ∈ encode (lineOf e) := hpre.subset (mem_of_getLast? hl)
      exact newline_not_mem_lineOf e (newline_mem_of_mem_encode hmem)

theorem inv_start (h : s.Inv) (hc : s.OnWholeLines .start) : s.start.Inv := by
  obtain ⟨torn, hfile, htorn, hrun⟩ := h.file
  unfold start
  split
  · next event queue hw hq =>
    split
    · exact ⟨h.resolved, h.readable, torn, hfile, htorn, hrun⟩
    · next href =>
      have href : s.refusal event = none := by simpa using href
      obtain ⟨hwhole, hevent⟩ := hc event queue hw hq href
      obtain rfl := torn_nil hfile htorn hwhole
      rw [append_nil] at hfile
      have hsize : s.blocks.length + (block event).length ≤ s.maxBytes := by
        simp only [refusal] at href
        split_ifs at href with h1 h2
        rw [size, hfile, utf8Length_eq] at h2
        exact Nat.not_lt.mp h2
      have hblocks : blocks { s with
          queue := queue
          writing := some (encode (lineOf event ++ [newline]))
          attempts := ⟨event, false, false⟩ :: s.attempts } = s.blocks := by
        simp [blocks, onDisk, written]
      refine ⟨?_, ?_, [], ?_, .inl ⟨rfl, ?_⟩, ?_⟩
      · intro a ha hr
        rcases mem_cons.mp ha with rfl | ha
        · cases hr
        · exact h.resolved a ha hr
      · intro a ha
        rcases mem_cons.mp ha with rfl | ha
        · exact hevent
        · exact h.readable a ha
      · rw [hblocks, append_nil]
        exact hfile
      · rw [hblocks]
        show s.blocks.length ≤ s.maxBytes
        omega
      · intro rest hrest
        cases hrest
        refine ⟨_, _, rfl, rfl, .inr ⟨rfl, ?_, rfl, ?_⟩⟩
        · show block event ≠ []
          simp [block_eq]
        · rw [hblocks]
          exact hsize
  · exact h

section

variable {t : SessionJournal} {a b : Attempt} {as : List Attempt} (hs : s.attempts = a :: as)
  (ht : t.attempts = b :: as)
include hs ht

theorem blocks_newest (ha : a.onDisk = false) : t.blocks = s.blocks ++ if b.onDisk then block b.event else [] := by
  simp only [blocks, onDisk, written, hs, ht, reverse_cons, filter_append]
  cases hb : b.onDisk <;> simp [ha, hb]

theorem blocks_same (hd : b.onDisk = a.onDisk) (he : b.event = a.event) : t.blocks = s.blocks := by
  simp only [blocks, onDisk, written, hs, ht, reverse_cons, filter_append]
  cases ha : a.onDisk <;> simp [ha, hd, he]

end

theorem inv_write (h : s.Inv) (n : ℕ) : (s.write n).Inv := by
  obtain ⟨torn, hfile, htorn, hrun⟩ := h.file
  unfold write
  split
  · exact h
  · next bytes hw =>
    obtain ⟨a, as, hatt, hres, hcase⟩ := hrun bytes hw
    set t : SessionJournal := { s with
      file := some (s.file.getD [] ++ bytes.take n)
      writing := some (bytes.drop n)
      attempts := s.modifyNewest fun a => { a with onDisk := (bytes.drop n).isEmpty } } with ht
    have htatt : t.attempts = { a with onDisk := (bytes.drop n).isEmpty } :: as := by
      rw [ht]
      show s.attempts.modifyHead _ = _
      rw [hatt]
      rfl
    have htfile : t.file.getD [] = s.blocks ++ torn ++ bytes.take n := by rw [← hfile]; rfl
    have hread : ∀ b ∈ t.attempts, (eventOf (lineOf b.event)).isSome = true := by
      intro b hb
      rw [htatt] at hb
      rcases mem_cons.mp hb with rfl | hb
      · exact h.readable a (by simp [hatt])
      · exact h.readable b (by simp [hatt, hb])
    have hresolved : ∀ b ∈ t.attempts, b.resolved = true → b.onDisk = true := by
      intro b hb hr
      rw [htatt] at hb
      rcases mem_cons.mp hb with rfl | hb
      · cases hres.symm.trans hr
      · exact h.resolved b (by simp [hatt, hb]) hr
    refine ⟨hresolved, hread, ?_⟩
    rcases hcase with ⟨hdisk, rfl⟩ | ⟨hdisk, hne, hsplit, hroom⟩
    · -- nothing is left to write
      have hb : t.blocks = s.blocks := blocks_same hatt htatt (by simp [hdisk]) rfl
      refine ⟨torn, ?_, ?_, ?_⟩
      · rw [htfile, hb]
        simp
      · rcases htorn with ⟨rfl, hsize⟩ | ⟨e, hpre, hsize⟩
        · exact .inl ⟨rfl, by rw [hb]; exact hsize⟩
        · exact .inr ⟨e, hpre, by rw [hb]; exact hsize⟩
      · intro rest hrest
        cases hrest
        exact ⟨_, as, htatt, hres, .inl ⟨by simp, by simp⟩⟩
    · have hb := blocks_newest hatt htatt hdisk
      by_cases hrest : bytes.drop n = []
      · -- the line is complete
        have htake : bytes.take n = bytes := by
          have := take_append_drop n bytes
          rw [hrest, append_nil] at this
          exact this
        have hb : t.blocks = s.blocks ++ block a.event := by simpa [hrest] using hb
        refine ⟨[], ?_, .inl ⟨rfl, ?_⟩, ?_⟩
        · rw [htfile, hb, htake, append_assoc, hsplit, append_nil]
        · rw [hb, length_append]
          exact hroom
        · intro rest hr
          cases hr
          exact ⟨_, as, htatt, hres, .inl ⟨by simp [hrest], hrest⟩⟩
      · have hb : t.blocks = s.blocks := by simpa [hrest] using hb
        have hsplit' : (torn ++ bytes.take n) ++ bytes.drop n = block a.event := by
          rw [append_assoc, take_append_drop]
          exact hsplit
        refine ⟨torn ++ bytes.take n, ?_, .inr ⟨a.event, ?_, ?_⟩, ?_⟩
        · rw [htfile, hb, append_assoc]
        · -- a proper part of the line and its newline is a part of the line
          have hpre : torn ++ bytes.take n <+: encode (lineOf a.event) ++ [10] := by
            rw [← block_eq, ← hsplit']
            exact prefix_append _ _
          rcases prefix_concat_iff.mp hpre with heq | hpre
          · rw [block_eq, heq] at hsplit'
            exact absurd (append_right_eq_self.mp hsplit') hrest
          · exact hpre
        · rw [hb]
          exact hroom
        · intro rest hr
          cases hr
          exact ⟨_, as, htatt, hres, .inr ⟨by simp [hrest], hrest, hsplit', by rw [hb]; exact hroom⟩⟩

theorem inv_finish (h : s.Inv) : s.finish.Inv := by
  obtain ⟨torn, hfile, htorn, hrun⟩ := h.file
  unfold finish
  split
  · next hw =>
    obtain ⟨a, as, hatt, hres, hcase⟩ := hrun [] hw
    have hdisk : a.onDisk = true := by
      rcases hcase with ⟨hdisk, -⟩ | ⟨-, hne, -⟩
      · exact hdisk
      · exact absurd rfl hne
    have hatt' : (modifyNewest s fun a => { a with resolved := true }) = { a with resolved := true } :: as := by
      rw [modifyNewest, hatt]
      rfl
    have hb : blocks { s with writing := none, attempts := s.modifyNewest fun a => { a with resolved := true } } = s.blocks :=
      blocks_same hatt hatt' rfl rfl
    refine ⟨?_, ?_, torn, ?_, ?_, nofun⟩
    · intro b hb hr
      rw [hatt'] at hb
      rcases mem_cons.mp hb with rfl | hb
      · exact hdisk
      · exact h.resolved b (by simp [hatt, hb]) hr
    · intro b hb
      rw [hatt'] at hb
      rcases mem_cons.mp hb with rfl | hb
      · exact h.readable a (by simp [hatt])
      · exact h.readable b (by simp [hatt, hb])
    · rw [hb]
      exact hfile
    · simp only [Torn, hb]
      exact htorn
  · exact h

/-- One step keeps the file's shape when it does not write onto a torn line. -/
theorem inv_step {e : JournalEvent} (h : s.Inv) (hc : s.OnWholeLines e) : (s.step e).Inv := by
  cases e with
  | append event => exact ⟨h.resolved, h.readable, h.file⟩
  | start => exact inv_start h hc
  | write n => exact inv_write h n
  | finish => exact inv_finish h
  | crash =>
    obtain ⟨torn, hfile, htorn, -⟩ := h.file
    exact ⟨h.resolved, h.readable, torn, hfile, htorn, nofun⟩

/-- Along every run, crashes included, in which no append starts on a torn line and each
    event's own line can be read, the journal reads back what was appended. -/
theorem reads_back (sessionId : SessionId) (maxBytes maxEventBytes : ℕ) (es : List JournalEvent)
    (h : Run.Along step OnWholeLines (new sessionId maxBytes maxEventBytes) es) :
    (es.foldl step (new sessionId maxBytes maxEventBytes)).ReadsBack :=
  readsBack (Run.invariant (I := Inv) (fun _ _ => inv_step) (inv_new sessionId maxBytes maxEventBytes) h)

/-! ## A torn line -/

def cc1 : SessionId := ⟨js "cc-1", by decide⟩

def started : NormalizedEvent := { type := js "agent_start", timestamp := .fin 1 }

/-- A crash inside the second append, and a restart that appends nothing more. -/
def tornAtTheEnd : List JournalEvent :=
  [.append started, .start, .write 100, .finish, .append started, .start, .write 7, .crash]

theorem reads_back_the_first : (tornAtTheEnd.foldl step (new cc1 1000 500)).ReadsBack :=
  reads_back cc1 1000 500 tornAtTheEnd (by
    refine ⟨trivial, ?_, trivial, trivial, trivial, ?_, trivial, trivial, trivial⟩
    · intro event queue _ hq _
      cases hq
      exact ⟨by decide, by decide +kernel⟩
    · intro event queue _ hq _
      cases hq
      exact ⟨by decide +kernel, by decide +kernel⟩)

/-- After the crash the next append resolves; its line is joined to the torn one, and `read`
    throws for the whole journal. -/
theorem a_torn_line_is_appended_to :
    (([.append started, .start, .write 7, .crash, .append started, .start, .write 100, .finish].foldl step (new cc1 1000 500)).read =
      .error (js "Command Code event journal corruption at line 1")) ∧
    ¬ ∀ (sessionId : SessionId) (maxBytes maxEventBytes : ℕ) (es : List JournalEvent),
      (es.foldl step (new sessionId maxBytes maxEventBytes)).ReadsBack := by
  have hread : ([.append started, .start, .write 7, .crash, .append started, .start, .write 100, .finish].foldl step
      (new cc1 1000 500)).read = .error (js "Command Code event journal corruption at line 1") := by decide +kernel
  refine ⟨hread, fun h => ?_⟩
  have hok := (h cc1 1000 500 [.append started, .start, .write 7, .crash, .append started, .start, .write 100, .finish]).1
    (by decide +kernel)
  rw [hread] at hok
  cases hok

end SessionJournal

end PiWebUi.CommandCode
