/-
  PiWebUi.CommandCode.ParserChunks — the parser and the chunks it is given.

  Pushing a text is pushing its parts, one after another (`push_append`), where no part ends
  between the two units of a surrogate pair: what is begun of a line is kept, and the octets
  add up. Octets are decoded chunk by chunk, so there every chunk has to be UTF-8 by itself,
  and a byte order mark may begin none but the first.
-/

import PiWebUi.CommandCode.NdjsonParser

namespace PiWebUi.CommandCode

open PiWebUi.Lib PiWebUi.Lib.Utf8 List

/-! ## Lines -/

theorem lines_append (a b : JsString) : lines (a ++ b) = (lines a).dropLast ++ lines ((lines a).getLastD [] ++ b) := by
  induction a with
  | nil => rfl
  | cons u a ih =>
    rw [List.cons_append, lines, lines]
    obtain ⟨l, ls, hlines⟩ := exists_cons_of_ne_nil (lines_ne_nil a)
    rw [hlines] at ih ⊢
    by_cases hu : u = newline
    · rw [if_pos hu, if_pos hu, ih]
      rfl
    · rw [if_neg hu, if_neg hu, ih]
      cases ls with
      | nil =>
        show _ = lines (u :: (l ++ b))
        rw [lines, if_neg hu]
        rfl
      | cons l' ls => rfl

/-! ## Octets -/

theorem encode_append {a : JsString} (ha : WellFormed a) (b : JsString) : encode (a ++ b) = encode a ++ encode b := by
  induction a using encode.induct with
  | case1 => rfl
  | case2 u => exact encode_cons ha b
  | case3 u v a h ih =>
    rw [WellFormed, if_pos h] at ha
    show encode (u :: v :: (a ++ b)) = _
    rw [encode, if_pos h, encode, if_pos h, ih ha, append_assoc]
  | case4 u v a h ih =>
    rw [WellFormed, if_neg h] at ha
    show encode (u :: v :: (a ++ b)) = _
    rw [encode, if_neg h, encode, if_neg h, show v :: (a ++ b) = v :: a ++ b from rfl, ih ha.2, append_assoc]

theorem utf8Length_whole {a : JsString} (ha : WellFormed a) (b : JsString) : utf8Length (a ++ b) = utf8Length a + utf8Length b := by
  rw [utf8Length_eq, utf8Length_eq, utf8Length_eq, encode_append ha, length_append]

theorem length_encode_low {v : UInt16} (hv : isLowSurrogate v = true) (b : JsString) : utf8Length (v :: b) = 3 + utf8Length b := by
  have hnot : isHighSurrogate v = false := by
    rw [← Bool.not_eq_true, high_toNat]
    have hlow := low_toNat.mp hv
    omega
  have hunit : (encodeUnit v).length = 3 := by
    have hlow := low_toNat.mp hv
    rw [length_encodeUnit, if_neg, if_neg]
    all_goals grind [UInt16.lt_iff_toNat_lt]
  rw [utf8Length_eq, utf8Length_eq]
  cases b with
  | nil => exact hunit
  | cons w b => rw [encode, hnot, Bool.false_and, if_neg Bool.false_ne_true, length_append, hunit]

theorem length_encode_pair {u v : UInt16} (h : (isHighSurrogate u && isLowSurrogate v) = true) (b : JsString) :
    utf8Length (u :: v :: b) = 4 + utf8Length b := by
  rw [utf8Length_eq, utf8Length_eq, encode, if_pos h, length_append]
  rfl

theorem length_encode_unit {u v : UInt16} (h : ¬ (isHighSurrogate u && isLowSurrogate v) = true) (b : JsString) :
    utf8Length (u :: v :: b) = utf8Length [u] + utf8Length (v :: b) := by
  have hencode : encode (u :: v :: b) = encodeUnit u ++ encode (v :: b) := by rw [encode, if_neg h]
  rw [utf8Length_eq, utf8Length_eq, utf8Length_eq, hencode, length_append]
  rfl

/-- A cut between the units of a surrogate pair makes a text longer, any other leaves its
    length, and then both parts are well formed. -/
theorem utf8Length_cut (a : JsString) : ∀ b, utf8Length (a ++ b) ≤ utf8Length a + utf8Length b ∧
    (WellFormed (a ++ b) → utf8Length (a ++ b) = utf8Length a + utf8Length b → WellFormed a ∧ WellFormed b) := by
  induction a using encode.induct with
  | case1 =>
    intro b
    refine ⟨?_, fun hb _ => ⟨trivial, hb⟩⟩
    show utf8Length b ≤ 0 + utf8Length b
    omega
  | case2 u =>
    intro b
    cases b with
    | nil => exact ⟨Nat.le_refl _, fun hu _ => ⟨hu, trivial⟩⟩
    | cons v b =>
      rw [singleton_append]
      by_cases h : (isHighSurrogate u && isLowSurrogate v) = true
      · obtain ⟨hu, hv⟩ := Bool.and_eq_true_iff.mp h
        have hlow := length_encode_low hv b
        have hhigh : utf8Length [u] = 3 := by
          have hsur := high_toNat.mp hu
          rw [utf8Length, if_neg, if_neg]
          all_goals grind [UInt16.lt_iff_toNat_lt]
        have hpair := length_encode_pair h b
        exact ⟨by omega, fun _ heq => absurd heq (by omega)⟩
      · have hunit := length_encode_unit h b
        refine ⟨by omega, fun hwell _ => ?_⟩
        rw [WellFormed, if_neg h] at hwell
        exact hwell
  | case3 u v a h ih =>
    intro b
    obtain ⟨hle, heq⟩ := ih b
    have hwhole := length_encode_pair h (a ++ b)
    have hpart := length_encode_pair h a
    show utf8Length (u :: v :: (a ++ b)) ≤ _ ∧ (WellFormed (u :: v :: (a ++ b)) → utf8Length (u :: v :: (a ++ b)) = _ → _)
    refine ⟨by omega, fun hwell hsame => ?_⟩
    rw [WellFormed, if_pos h] at hwell ⊢
    exact heq hwell (by omega)
  | case4 u v a h ih =>
    intro b
    obtain ⟨hle, heq⟩ := ih b
    have hwhole := length_encode_unit h (a ++ b)
    have hpart := length_encode_unit h a
    rw [List.cons_append] at hle heq
    show utf8Length (u :: v :: (a ++ b)) ≤ _ ∧ (WellFormed (u :: v :: (a ++ b)) → utf8Length (u :: v :: (a ++ b)) = _ → _)
    refine ⟨by omega, fun hwell hsame => ?_⟩
    rw [WellFormed, if_neg h] at hwell ⊢
    obtain ⟨ha, hb⟩ := heq hwell.2 (by omega)
    exact ⟨⟨hwell.1, ha⟩, hb⟩

theorem wellFormed_flatten {parts : List JsString} (h : ∀ part ∈ parts, WellFormed part) : WellFormed parts.flatten := by
  induction parts with
  | nil => trivial
  | cons part parts ih =>
    rw [forall_mem_cons] at h
    exact wellFormed_append h.1 (ih h.2)

theorem utf8Length_flatten_le (parts : List JsString) : utf8Length parts.flatten ≤ (parts.map utf8Length).sum := by
  induction parts with
  | nil => exact Nat.le_refl _
  | cons part parts ih =>
    have hcut := (utf8Length_cut part parts.flatten).1
    rw [flatten_cons, map_cons, sum_cons]
    omega

/-- The lengths of the parts add up where no part ends within a pair, and only there. -/
theorem utf8Length_flatten_iff (parts : List JsString) (hwell : WellFormed parts.flatten) :
    utf8Length parts.flatten = (parts.map utf8Length).sum ↔ ∀ part ∈ parts, WellFormed part := by
  induction parts with
  | nil => exact ⟨fun _ part hpart => (not_mem_nil hpart).elim, fun _ => rfl⟩
  | cons part parts ih =>
    rw [flatten_cons] at hwell
    rw [flatten_cons, map_cons, sum_cons, forall_mem_cons]
    constructor
    · intro hsame
      have hcut := utf8Length_cut part parts.flatten
      have hrest := utf8Length_flatten_le parts
      obtain ⟨hpart, hwell'⟩ := hcut.2 hwell (by omega)
      exact ⟨hpart, (ih hwell').mp (by have hwhole := utf8Length_whole hpart parts.flatten; omega)⟩
    · intro hparts
      have hwhole := utf8Length_whole hparts.1 parts.flatten
      have hwell' : WellFormed parts.flatten := ((utf8Length_cut part parts.flatten).2 hwell hwhole).2
      rw [hwhole, (ih hwell').mpr hparts.2]

/-! ## Pushing a part of a text after another -/

section

variable {o : CommandCodeParserOptions} {p p' : CommandCodeNdjsonParser}

theorem getLastD_append {α : Type} {xs ys : List α} (h : ys ≠ []) (x : α) : (xs ++ ys).getLastD x = ys.getLastD x := by
  rw [getLastD_eq_getLast?, getLastD_eq_getLast?, getLast?_append, getLast?_eq_some_getLast h, Option.some_or]

theorem takeLines_append (p : CommandCodeNdjsonParser) (a b : JsString) :
    p.takeLines o (a ++ b) = p.takeLines o a >>= fun p' => p'.takeLines o b := by
  have hne := lines_ne_nil ((lines (p.buffer ++ a)).getLastD [] ++ b)
  have hdrop : (lines (p.buffer ++ (a ++ b))).dropLast =
      (lines (p.buffer ++ a)).dropLast ++ (lines ((lines (p.buffer ++ a)).getLastD [] ++ b)).dropLast := by
    rw [← append_assoc, lines_append, dropLast_append_of_ne_nil hne]
  have hlast : (lines (p.buffer ++ (a ++ b))).getLastD [] = (lines ((lines (p.buffer ++ a)).getLastD [] ++ b)).getLastD [] := by
    rw [← append_assoc, lines_append, getLastD_append hne]
  simp only [CommandCodeNdjsonParser.takeLines, hdrop, hlast, foldlM_append]
  cases (lines (p.buffer ++ a)).dropLast.foldlM (fun parsed line => parsed.consumeLine o (stripReturn line)) p.parsed with
  | error e | ok parsed => rfl

/-- The octets that were counted do not matter to the lines. -/
theorem takeLines_bytes (n : ℕ) (text : JsString) :
    ({ p with bytes := n } : CommandCodeNdjsonParser).takeLines o text = (p.takeLines o text).map fun q => { q with bytes := n } := by
  simp only [CommandCodeNdjsonParser.takeLines]
  cases (lines (p.buffer ++ text)).dropLast.foldlM (fun parsed line => parsed.consumeLine o (stripReturn line)) p.parsed with
  | error e | ok parsed => rfl

theorem push_text {text : JsString} (h : p.bytes + utf8Length text ≤ o.maxAggregateBytes) :
    p.push o (.text text) = (p.takeLines o text).map fun q => { q with bytes := p.bytes + utf8Length text } := by
  rw [← takeLines_bytes]
  exact if_neg (Nat.not_lt.mpr h)

/-- A part of a text is pushed after another as both are at once. -/
theorem push_append (p : CommandCodeNdjsonParser) {a b : JsString} (ha : WellFormed a)
    (hsize : p.bytes + utf8Length (a ++ b) ≤ o.maxAggregateBytes) :
    p.push o (.text (a ++ b)) = p.push o (.text a) >>= fun p' => p'.push o (.text b) := by
  have hlength := utf8Length_whole ha b
  have hfirst : p.bytes + utf8Length a ≤ o.maxAggregateBytes := by omega
  rw [push_text hsize, push_text hfirst, takeLines_append]
  cases p.takeLines o a with
  | error e => rfl
  | ok p' =>
    show (p'.takeLines o b).map _ = CommandCodeNdjsonParser.push o { p' with bytes := p.bytes + utf8Length a } (.text b)
    rw [push_text (by dsimp only; omega), takeLines_bytes (p := p') (p.bytes + utf8Length a), hlength]
    cases p'.takeLines o b with
    | error e => rfl
    | ok q => exact congrArg Except.ok (by dsimp only; rw [Nat.add_assoc])

/-- The parts of a text, none of which ends within a pair. -/
theorem push_parts (parts : List JsString) (hparts : ∀ part ∈ parts, WellFormed part)
    (hsize : utf8Length parts.flatten ≤ o.maxAggregateBytes) :
    (parts.map Chunk.text).foldlM (CommandCodeNdjsonParser.push o) {} = CommandCodeNdjsonParser.push o {} (.text parts.flatten) := by
  induction parts using List.reverseRecOn with
  | nil =>
    rw [push_text (by simpa using hsize)]
    rfl
  | append_singleton parts part ih =>
    have hlast : (parts ++ [part]).flatten = parts.flatten ++ part := by
      rw [flatten_append, flatten_singleton]
    have hfirst : ∀ part ∈ parts, WellFormed part := fun q hq => hparts q (mem_append_left _ hq)
    have hwell : WellFormed parts.flatten := wellFormed_flatten hfirst
    have hlength := utf8Length_whole hwell part
    rw [hlast] at hsize ⊢
    rw [map_append, foldlM_append, ih hfirst (by omega),
      push_append {} hwell (by show 0 + _ ≤ _; omega)]
    show (_ >>= fun p => List.foldlM _ p [Chunk.text part]) = _
    refine congrArg (CommandCodeNdjsonParser.push o {} (.text parts.flatten) >>= ·) (funext fun p' => ?_)
    rw [foldlM_cons]
    exact bind_pure _

end

/-! ## Octets -/

/-- A chunk that is UTF-8 by itself. -/
def ValidUtf8 (bs : List ℕ) : Prop := ∃ t, WellFormed t ∧ bs = encode t

/-- A byte order mark begins no chunk but the first that has octets. -/
def MarkedFirst (chunks : List (List ℕ)) : Prop :=
  ∀ pre chunk post, chunks = pre ++ chunk :: post → pre.flatten ≠ [] → ¬ [0xEF, 0xBB, 0xBF] <+: chunk

/-- What is read of a text without the mark at its beginning. -/
def unmark : JsString → JsString
  | u :: r => if u = 0xFEFF then r else u :: r
  | [] => []

theorem textDecode_encode {t : JsString} (ht : WellFormed t) : textDecode (encode t) = unmark t := by
  rw [textDecode, decode_encode ht]
  rfl

theorem wellFormed_unmark {t : JsString} (ht : WellFormed t) : WellFormed (unmark t) := by
  cases t with
  | nil => trivial
  | cons u r =>
    rw [unmark]
    split
    next hu =>
      cases r with
      | nil => trivial
      | cons v r =>
        have hnot : (isHighSurrogate u && isLowSurrogate v) = false := not_pair_of_plain (by rw [hu]; decide) v
        rw [WellFormed, hnot, if_neg Bool.false_ne_true] at ht
        exact ht.2
    · exact ht

/-- No chunk begins with the mark. -/
theorem unmark_later {t : JsString} (hmark : ¬ [0xEF, 0xBB, 0xBF] <+: encode t) : unmark t = t := by
  cases t with
  | nil => rfl
  | cons u r =>
    rw [unmark, if_neg]
    intro hu
    subst hu
    apply hmark
    rw [encode_cons (by decide)]
    exact prefix_append _ _

theorem unmark_append {t : JsString} (ht : t ≠ []) (r : JsString) : unmark (t ++ r) = unmark t ++ r := by
  cases t with
  | nil => exact absurd rfl ht
  | cons u t =>
    rw [List.cons_append, unmark, unmark]
    split <;> rfl

theorem textDecode_unmarked (chunks : List (List ℕ)) (hvalid : ∀ chunk ∈ chunks, ValidUtf8 chunk)
    (hmark : ∀ chunk ∈ chunks, ¬ [0xEF, 0xBB, 0xBF] <+: chunk) :
    encode (chunks.map textDecode).flatten = chunks.flatten ∧ ∀ part ∈ chunks.map textDecode, WellFormed part := by
  induction chunks with
  | nil => exact ⟨rfl, fun part hpart => (not_mem_nil hpart).elim⟩
  | cons chunk chunks ih =>
    rw [forall_mem_cons] at hvalid hmark
    obtain ⟨⟨t, ht, rfl⟩, hvalid⟩ := hvalid
    obtain ⟨hencode, hwell⟩ := ih hvalid hmark.2
    have hread : textDecode (encode t) = t := by rw [textDecode_encode ht, unmark_later hmark.1]
    rw [map_cons, flatten_cons, flatten_cons, hread, encode_append ht, hencode]
    exact ⟨rfl, forall_mem_cons.mpr ⟨ht, hwell⟩⟩

/-- Chunks that are decoded each by itself, and all at once. -/
theorem textDecode_chunks (chunks : List (List ℕ)) (hvalid : ∀ chunk ∈ chunks, ValidUtf8 chunk) (hmark : MarkedFirst chunks) :
    (chunks.map textDecode).flatten = textDecode chunks.flatten ∧ ∀ part ∈ chunks.map textDecode, WellFormed part := by
  induction chunks with
  | nil => exact ⟨rfl, fun part hpart => (not_mem_nil hpart).elim⟩
  | cons chunk chunks ih =>
    rw [forall_mem_cons] at hvalid
    obtain ⟨⟨t, ht, rfl⟩, hvalid⟩ := hvalid
    rw [map_cons, flatten_cons, flatten_cons, textDecode_encode ht, forall_mem_cons]
    by_cases hempty : t = []
    · subst hempty
      have hrest : MarkedFirst chunks := by
        intro pre c post heq hpre
        exact hmark (encode [] :: pre) c post (by rw [heq]; rfl) hpre
      obtain ⟨hread, hwell⟩ := ih hvalid hrest
      exact ⟨hread, trivial, hwell⟩
    · have hchunk : encode t ≠ [] := by
        intro hnone
        apply hempty
        rw [← decode_encode ht, hnone]
        rfl
      have hunmarked : ∀ c ∈ chunks, ¬ [0xEF, 0xBB, 0xBF] <+: c := by
        intro c hc
        obtain ⟨pre, post, rfl⟩ := append_of_mem hc
        refine hmark (encode t :: pre) c post rfl ?_
        rw [flatten_cons]
        exact fun hnone => hchunk (append_eq_nil_iff.mp hnone).1
      obtain ⟨hencode, hwell⟩ := textDecode_unmarked chunks hvalid hunmarked
      refine ⟨?_, wellFormed_unmark ht, hwell⟩
      rw [← hencode, ← encode_append ht, textDecode_encode (wellFormed_append ht (wellFormed_flatten hwell)), unmark_append hempty]

/-! ## Chunk boundaries do not show -/

section

variable {o : CommandCodeParserOptions} {exitCode : Option ℤ} {signal : Option JsString}

/-- What counts of a chunk is what is read of it. -/
theorem run_toText (chunks : List Chunk) : CommandCodeNdjsonParser.run o chunks exitCode signal =
      CommandCodeNdjsonParser.run o ((chunks.map Chunk.toText).map Chunk.text) exitCode signal := by
  rw [List.map_map, CommandCodeNdjsonParser.run, CommandCodeNdjsonParser.run, foldlM_map]
  rfl

theorem run_parts {parts : List JsString} (hparts : ∀ part ∈ parts, WellFormed part)
    (hsize : utf8Length parts.flatten ≤ o.maxAggregateBytes) :
    CommandCodeNdjsonParser.run o (parts.map Chunk.text) exitCode signal =
      CommandCodeNdjsonParser.run o [.text parts.flatten] exitCode signal := by
  have hone : [Chunk.text parts.flatten].foldlM (CommandCodeNdjsonParser.push o) {} =
      CommandCodeNdjsonParser.push o {} (.text parts.flatten) := by
    rw [foldlM_cons]
    exact bind_pure _
  rw [CommandCodeNdjsonParser.run, CommandCodeNdjsonParser.run, push_parts parts hparts hsize, hone]

theorem utf8Length_unmark (t : JsString) : utf8Length (unmark t) ≤ utf8Length t := by
  cases t with
  | nil => exact Nat.le_refl _
  | cons u r =>
    rw [unmark]
    split
    next hu =>
      subst hu
      rw [utf8Length_eq, utf8Length_eq, encode_cons (by decide), length_append]
      omega
    · exact Nat.le_refl _

theorem bytes_push {p p' : CommandCodeNdjsonParser} {text : JsString} (h : p.push o (.text text) = .ok p') :
    p'.bytes = p.bytes + utf8Length text := by
  by_cases hsize : p.bytes + utf8Length text ≤ o.maxAggregateBytes
  · rw [push_text hsize] at h
    cases hread : p.takeLines o text with
    | error e =>
      rw [hread] at h
      cases h
    | ok q =>
      rw [hread] at h
      cases h
      rfl
  · have herror : p.push o (.text text) = .error _ := if_pos (Nat.not_le.mp hsize)
    rw [herror] at h
    cases h

theorem bytes_pushed (parts : List JsString) : ∀ p p' : CommandCodeNdjsonParser,
    (parts.map Chunk.text).foldlM (CommandCodeNdjsonParser.push o) p = .ok p' → p'.bytes = p.bytes + (parts.map utf8Length).sum := by
  induction parts with
  | nil =>
    intro p p' h
    cases h
    rfl
  | cons part parts ih =>
    intro p p' h
    rw [map_cons, foldlM_cons] at h
    cases hpush : p.push o (.text part) with
    | error e =>
      rw [hpush] at h
      cases h
    | ok q =>
      rw [hpush] at h
      have hq := bytes_push hpush
      have hp' := ih q p' h
      rw [map_cons, sum_cons]
      omega

theorem bytes_finish {p : CommandCodeNdjsonParser} {out : ParsedCommandCodeOutput} (h : p.finish o exitCode signal = .ok out) :
    out.bytes = p.bytes := by
  rw [CommandCodeNdjsonParser.finish] at h
  cases hline : p.lastLine o with
  | error e =>
    rw [hline] at h
    cases h
  | ok parsed =>
    rw [hline] at h
    have hout : CommandCodeNdjsonParser.output p.bytes exitCode signal parsed = .ok out := h
    unfold CommandCodeNdjsonParser.output at hout
    split at hout
    · cases hout
    · split at hout
      · cases hout
      · cases hout
        rfl

/-- Accepted output counts the octets of what was pushed. -/
theorem bytes_run {parts : List JsString} {out : ParsedCommandCodeOutput}
    (h : CommandCodeNdjsonParser.run o (parts.map Chunk.text) exitCode signal = .ok out) :
    out.bytes = (parts.map utf8Length).sum := by
  rw [CommandCodeNdjsonParser.run] at h
  cases hpush : (parts.map Chunk.text).foldlM (CommandCodeNdjsonParser.push o) {} with
  | error e =>
    rw [hpush] at h
    cases h
  | ok p =>
    rw [hpush] at h
    have hbytes := bytes_pushed parts {} p hpush
    rw [bytes_finish h, hbytes]
    exact Nat.zero_add _

end

theorem chunks_do_not_show (o : CommandCodeParserOptions) (s : JsString) (hs : WellFormed s)
    (hsize : utf8Length s ≤ o.maxAggregateBytes) (exitCode : Option ℤ) (signal : Option JsString) :
    (∀ chunks : List (List ℕ), chunks.flatten = encode s → (∀ chunk ∈ chunks, ValidUtf8 chunk) → MarkedFirst chunks →
      CommandCodeNdjsonParser.run o (chunks.map .bytes) exitCode signal =
        CommandCodeNdjsonParser.run o [.bytes (encode s)] exitCode signal) ∧
    ∀ parts : List JsString, parts.flatten = s →
      ((∀ part ∈ parts, WellFormed part) → CommandCodeNdjsonParser.run o (parts.map .text) exitCode signal =
        CommandCodeNdjsonParser.run o [.text s] exitCode signal) ∧
      ∀ out, CommandCodeNdjsonParser.run o [.text s] exitCode signal = .ok out →
        CommandCodeNdjsonParser.run o (parts.map .text) exitCode signal = .ok out → ∀ part ∈ parts, WellFormed part := by
  refine ⟨?_, ?_⟩
  · intro chunks hflatten hvalid hmark
    obtain ⟨hread, hwell⟩ := textDecode_chunks chunks hvalid hmark
    have hlength : utf8Length (textDecode (encode s)) ≤ o.maxAggregateBytes := by
      rw [textDecode_encode hs]
      exact Nat.le_trans (utf8Length_unmark s) hsize
    have htexts : (chunks.map Chunk.bytes).map Chunk.toText = chunks.map textDecode := by
      rw [List.map_map]
      rfl
    rw [run_toText (chunks.map .bytes), run_toText [.bytes (encode s)], htexts]
    rw [run_parts hwell (by rw [hread, hflatten]; exact hlength), hread, hflatten]
    rfl
  · intro parts hflatten
    subst hflatten
    refine ⟨fun hparts => run_parts hparts hsize, ?_⟩
    intro out hwhole hcut
    apply (utf8Length_flatten_iff parts hs).mp
    have hwhole' : out.bytes = ([parts.flatten].map utf8Length).sum := bytes_run hwhole
    have hcut' := bytes_run hcut
    rw [← hcut', hwhole', map_singleton, sum_singleton]

/-- A terminal result whose text is not ASCII. -/
def resultLine : JsString := js "\x7b\"type\":\"result\",\"subtype\":\"success\",\"finalText\":\"é😀\"\x7d\n"

theorem resultLine_in_parts : CommandCodeNdjsonParser.run {} ([resultLine.take 30, resultLine.drop 30].map .text) (some 0) none =
      CommandCodeNdjsonParser.run {} [.text resultLine] (some 0) none :=
  ((chunks_do_not_show {} resultLine (by decide +kernel) (by decide +kernel) (some 0) none).2 _ (by decide +kernel)).1
    (by decide +kernel)

/-- A chunk that ends within a character of two octets changes the text, one that ends within a
    surrogate pair the number of bytes. -/
theorem chunks_show :
    (CommandCodeNdjsonParser.run {} [.bytes (encode resultLine)] (some 0) none).toOption.map (fun out => textProperty out.terminal
      "finalText") = some (some (js "é😀")) ∧
    (CommandCodeNdjsonParser.run {} ([(encode resultLine).take 51, (encode resultLine).drop 51].map .bytes) (some 0)
      none).toOption.map (fun out => textProperty out.terminal "finalText") = some (some (replacement :: replacement :: js "😀")) ∧
    (CommandCodeNdjsonParser.run {} [.text resultLine] (some 0) none).toOption.map (·.bytes) = some 59 ∧
    (CommandCodeNdjsonParser.run {} ([resultLine.take 52, resultLine.drop 52].map .text) (some 0) none).toOption.map (·.bytes) =
      some 61 := by
  decide +kernel

end PiWebUi.CommandCode
