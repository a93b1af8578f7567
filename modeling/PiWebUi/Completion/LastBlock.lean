/-
  PiWebUi.Completion.LastBlock — the last block is the one that is found.

  (1) The scan forgets: after a `completion` opening line the automaton is in one
  state whatever came before it (`scanLine_opening`), and a block scanned from there is
  appended to what was already found (`foldl_scanLine_append`).

  (2) The selection forgets: from a complete `completion` fence on, no earlier
  candidate changes the result (`selectBlocks_forgets`).
-/

import PiWebUi.Completion.SchemaProofs
import PiWebUi.Completion.Parser

namespace PiWebUi.Completion

open Lib List

/-! ## The scan -/

theorem scanLine_append (bs : List RawBlock) (st : Scan) (line : JsString) : scanLine { st with blocks := bs ++ st.blocks } line =
      { scanLine st line with blocks := bs ++ (scanLine st line).blocks } := by
  unfold scanLine
  cases hf : st.openFence with
  | none => simp
  | some f =>
    by_cases hc : closingFence f.fenceLength line = true
    · simp [hc]
    · cases ho : opens line with
      | some o => simp [hc]
      | none =>
        by_cases hl : (joinLines (f.current ++ [line])).length > COMPLETION_BLOCK_MAX_CHARS <;> simp [hc, hl]

/-- The blocks found before a state stay in front of the ones found after it. -/
theorem foldl_scanLine_append (bs : List RawBlock) (ls : List JsString) (st : Scan) :
    ls.foldl scanLine { st with blocks := bs ++ st.blocks } =
      { ls.foldl scanLine st with blocks := bs ++ (ls.foldl scanLine st).blocks } := by
  induction ls generalizing st with
  | nil => rfl
  | cons l ls ih =>
    simp only [foldl_cons]
    rw [scanLine_append]
    exact ih (scanLine st l)

theorem finish_append (bs : List RawBlock) (st : Scan) : Scan.finish { st with blocks := bs ++ st.blocks } = bs ++ st.finish := by
  unfold Scan.finish
  cases st.openFence <;> simp

/-- Scanning goes on after a closed block as on a new text. -/
theorem finish_closed (bs : List RawBlock) (s : JsString) : ((lines s).foldl scanLine ⟨bs, none⟩).finish = bs ++ scanBlocks s := by
  have h := foldl_scanLine_append bs (lines s) ⟨[], none⟩
  simp only [append_nil] at h
  rw [h, finish_append, scanBlocks]

def openingLine : JsString := js "```completion"

def closingLine : JsString := js "```"

theorem not_closing_openingLine (n : ℕ) : closingFence n openingLine = false := by
  have hb : ((openingLine.dropWhile (· = 32)).dropWhile (· = backtick)).all isBlank = false := by decide
  simp only [closingFence, span_eq_takeWhile_dropWhile, hb, Bool.and_false]

theorem opens_openingLine : opens openingLine = some (.completion, 3) := by decide

/-- After a `completion` opening line the fence that is open is the new one. -/
theorem scanLine_opening (st : Scan) : ∃ bs, scanLine st openingLine = ⟨bs, some ⟨.completion, 3, []⟩⟩ := by
  unfold scanLine
  cases st.openFence with
  | none => exact ⟨st.blocks, by simp [opens_openingLine]⟩
  | some f => exact ⟨st.blocks ++ [f.block false], by simp [not_closing_openingLine, opens_openingLine]⟩

/-- A line that starts with a brace is content. -/
theorem brace_line (n : ℕ) (r : JsString) : closingFence (n + 1) (123 :: r) = false ∧ opens (123 :: r) = none := by
  have hs : (123 :: r).dropWhile (· = 32) = 123 :: r := rfl
  have ht : (123 :: r).takeWhile (· = backtick) = [] := rfl
  constructor
  · simp [closingFence, span_eq_takeWhile_dropWhile, hs, ht]
  · simp [opens, openingFence, span_eq_takeWhile_dropWhile, hs, ht]

theorem scanLine_content {bs : List RawBlock} {f : OpenFence} {line : JsString}
    (hc : closingFence f.fenceLength line = false) (ho : opens line = none)
    (hl : (joinLines (f.current ++ [line])).length ≤ COMPLETION_BLOCK_MAX_CHARS) :
    scanLine ⟨bs, some f⟩ line = ⟨bs, some { f with current := f.current ++ [line] }⟩ := by
  simp [scanLine, hc, ho, Nat.not_lt.mpr hl]

theorem scanLine_closing {bs : List RawBlock} {f : OpenFence} {line : JsString}
    (hc : closingFence f.fenceLength line = true) : scanLine ⟨bs, some f⟩ line = ⟨bs ++ [f.block true], none⟩ := by
  simp [scanLine, hc]

/-- The opening line, one line of content, the closing line. -/
theorem scan_block (st : Scan) {r : JsString} (hlen : (123 :: r).length ≤ COMPLETION_BLOCK_MAX_CHARS) :
    ∃ bs, [openingLine, 123 :: r, closingLine].foldl scanLine st =
      ⟨bs ++ [{ fenceClass := .completion, content := 123 :: r, complete := true }], none⟩ := by
  obtain ⟨bs, hbs⟩ := scanLine_opening st
  refine ⟨bs, ?_⟩
  have hcontent : scanLine ⟨bs, some ⟨.completion, 3, []⟩⟩ (123 :: r) = ⟨bs, some ⟨.completion, 3, [123 :: r]⟩⟩ :=
    scanLine_content (brace_line 2 r).1 (brace_line 2 r).2 (by simpa [joinLines_singleton] using hlen)
  have hclosing : closingFence 3 closingLine = true := by decide
  simp only [foldl_cons, foldl_nil, hbs, hcontent]
  rw [scanLine_closing hclosing, OpenFence.block, joinLines_singleton]

/-- A window over a text ending in `tail` cuts only what is before the tail. -/
theorem lines_scanWindow {p tail : JsString} (h : tail.length ≤ COMPLETION_PARSE_WINDOW_CHARS) :
    ∃ ls, lines (scanWindow (p ++ newline :: tail)) = ls ++ lines tail := by
  unfold scanWindow
  set k := (p ++ newline :: tail).length - COMPLETION_PARSE_WINDOW_CHARS with hk
  by_cases hp : k ≤ p.length
  · refine ⟨lines (p.drop k), ?_⟩
    rw [drop_append_of_le_length hp, lines_append_newline]
  · have hk1 : k = p.length + 1 := by
      simp only [length_append, length_cons] at hk
      omega
    refine ⟨[], ?_⟩
    rw [hk1, drop_append, drop_of_length_le (by omega)]
    simp

/-! ## The selection -/

section

variable (z : Zod) (reason : JsString → JsString)

/-- The value a fence holds, when it is within the cap and valid JSON. -/
def fenceValue (c : RawBlock) : Option Json :=
  if c.content.length > COMPLETION_BLOCK_MAX_CHARS then none else Json.parse c.content

/-- A complete `completion` fence, or a json or untagged one whose schema-tagged value
    validates: what decides over everything before it. -/
def deciding (c : RawBlock) : Bool :=
  c.complete && (c.fenceClass = .completion ||
    (fenceValue c).any fun v => carriesSchemaTag v && (completionBlockSchema v).isSome)

/-- The parts of a selection that a later candidate can still change the result by,
    once an outcome is set by a complete `completion` fence. -/
theorem selectCandidate_outcome (st st' : Selection) (c : RawBlock) (h : st.outcome = st'.outcome) :
    (selectCandidate z reason st c).outcome = (selectCandidate z reason st' c).outcome := by
  unfold selectCandidate
  repeat' split
  all_goals simp_all

theorem foldl_outcome (bs : List RawBlock) (st st' : Selection) (h : st.outcome = st'.outcome) :
    (bs.foldl (selectCandidate z reason) st).outcome = (bs.foldl (selectCandidate z reason) st').outcome := by
  induction bs generalizing st st' with
  | nil => exact h
  | cons c bs ih => exact ih _ _ (selectCandidate_outcome z reason st st' c h)

/-- An outcome is replaced, never withdrawn. -/
theorem selectCandidate_isSome (st : Selection) (c : RawBlock) (h : st.outcome.isSome) :
    (selectCandidate z reason st c).outcome.isSome := by
  unfold selectCandidate
  repeat' split
  all_goals simp_all

theorem foldl_isSome (bs : List RawBlock) (st : Selection) (h : st.outcome.isSome) :
    (bs.foldl (selectCandidate z reason) st).outcome.isSome := by
  induction bs generalizing st with
  | nil => exact h
  | cons c bs ih => exact ih _ (selectCandidate_isSome z reason st c h)

theorem selectCandidate_completion (st : Selection) {c : RawBlock} (hc : c.complete = true) (hf : c.fenceClass = .completion) :
    (selectCandidate z reason st c).outcome = some (completionOutcome z reason c) := by
  simp [selectCandidate, hc, hf]

theorem result_of_outcome {st : Selection} {r : CompletionParseResult} (h : st.outcome = some r) : st.result z reason = r := by
  simp [Selection.result, h]

/-- Nothing before a complete `completion` fence matters. -/
theorem selectBlocks_forgets (before after : List RawBlock) {c : RawBlock} (hc : c.complete = true)
    (hf : c.fenceClass = .completion) : selectBlocks z reason (before ++ c :: after) = selectBlocks z reason (c :: after) := by
  simp only [selectBlocks, foldl_append, foldl_cons]
  set st := selectCandidate z reason (before.foldl (selectCandidate z reason) .empty) c
  set st' := selectCandidate z reason .empty c
  have hst : st.outcome = some (completionOutcome z reason c) := selectCandidate_completion z reason _ hc hf
  have hst' : st'.outcome = some (completionOutcome z reason c) := selectCandidate_completion z reason _ hc hf
  have heq := foldl_outcome z reason after st st' (hst.trans hst'.symm)
  obtain ⟨r, hr⟩ := Option.isSome_iff_exists.mp (foldl_isSome z reason after st (by simp [hst]))
  rw [result_of_outcome z reason hr, result_of_outcome z reason (heq ▸ hr)]

variable {z} (hz : z.Documented)

include hz in
theorem validate_ok (v : Json) (b : CompletionBlock) : validateCompletionBlock z v = .ok b ↔ completionBlockSchema v = some b := by
  rw [← hz.accepts v b]
  unfold validateCompletionBlock
  cases z v <;> simp

include hz in
/-- A candidate that does not decide leaves the outcome. -/
theorem selectCandidate_not_deciding (st : Selection) {c : RawBlock} (hc : deciding c = false) :
    (selectCandidate z reason st c).outcome = st.outcome := by
  unfold selectCandidate
  split
  · split <;> rfl
  · next hcomplete =>
    split
    · next hclass => simp_all [deciding]
    · next hclass =>
      split
      · rfl
      · next hsize =>
        simp only [deciding, fenceValue, hsize, if_false, hclass, decide_false, Bool.false_or,
          Bool.and_eq_false_iff] at hc
        replace hc := hc.resolve_left (by simpa using hcomplete)
        cases hp : Json.parse c.content with
        | none => dsimp only; split <;> rfl
        | some v =>
          dsimp only
          split
          · rfl
          · next htag =>
            cases hv : validateCompletionBlock z v with
            | error _ => rfl
            | ok b =>
              have hb := (validate_ok hz v b).mp hv
              simp_all

include hz in
theorem foldl_not_deciding (bs : List RawBlock) (st : Selection) (h : ∀ c ∈ bs, deciding c = false) :
    (bs.foldl (selectCandidate z reason) st).outcome = st.outcome := by
  induction bs generalizing st with
  | nil => rfl
  | cons c bs ih =>
    rw [foldl_cons, ih _ (fun d hd => h d (by simp [hd])),
      selectCandidate_not_deciding reason hz st (h c (by simp))]

include hz in
/-- A complete `completion` fence with nothing deciding after it is the result. -/
theorem selectBlocks_last (before after : List RawBlock) {c : RawBlock} (hc : c.complete = true)
    (hf : c.fenceClass = .completion) (hafter : ∀ d ∈ after, deciding d = false) :
    selectBlocks z reason (before ++ c :: after) = completionOutcome z reason c := by
  rw [selectBlocks_forgets z reason before after hc hf, selectBlocks, foldl_cons]
  refine result_of_outcome z reason ?_
  rw [foldl_not_deciding reason hz after _ hafter, selectCandidate_completion z reason _ hc hf]

/-! ## The last block -/

/-- A text's blocks decide its result. -/
theorem parseCompletionBlock_blocks (text : JsString) (before after : List RawBlock) (c : RawBlock)
    (h : scanBlocks (scanWindow text) = before ++ c :: after) :
    parseCompletionBlock z reason (some text) = selectBlocks z reason (before ++ c :: after) := by
  have ht : text ≠ [] := by
    rintro rfl
    have : scanBlocks (scanWindow []) = [] := by decide
    rw [this] at h
    simp at h
  simp [parseCompletionBlock, ht, h]

/-- The block `b` between `completion` fences, and what follows it. -/
def fenced (b : Json) (s : JsString) : JsString :=
  openingLine ++ newline :: (Json.stringify b ++ newline :: (closingLine ++ newline :: s))

theorem scanBlocks_fenced {p s : JsString} {b : Json} (hobj : isObject b = true)
    (hsize : (Json.stringify b).length ≤ COMPLETION_BLOCK_MAX_CHARS)
    (hwindow : (fenced b s).length ≤ COMPLETION_PARSE_WINDOW_CHARS) :
    ∃ before, scanBlocks (scanWindow (p ++ newline :: fenced b s)) =
      before ++ { fenceClass := .completion, content := Json.stringify b, complete := true } :: scanBlocks s := by
  obtain ⟨r, hr⟩ : ∃ r, Json.stringify b = 123 :: r := by
    cases b with
    | obj fs => rcases fs with _ | ⟨⟨k, v⟩, fs⟩ <;> exact ⟨_, by simp only [Json.stringify]; rfl⟩
    | _ => simp [isObject] at hobj
  have hnl := Json.newline_not_mem_stringify b
  obtain ⟨ls, hls⟩ := lines_scanWindow (p := p) hwindow
  have hlines : lines (scanWindow (p ++ newline :: fenced b s)) =
      ls ++ ([openingLine, Json.stringify b, closingLine] ++ lines s) := by
    rw [hls, fenced, lines_append_newline, lines_append_newline, lines_append_newline, lines_of_no_newline hnl,
      lines_of_no_newline (show newline ∉ openingLine by decide),
      lines_of_no_newline (show newline ∉ closingLine by decide)]
    simp
  obtain ⟨bs, hbs⟩ := scan_block (ls.foldl scanLine ⟨[], none⟩) (hr ▸ hsize)
  refine ⟨bs, ?_⟩
  rw [scanBlocks, hlines, foldl_append, foldl_append, hr, hbs, finish_closed]
  simp

include hz in
/-- A block that nothing deciding follows is the result, whatever is before it. -/
theorem parse_fenced {p s : JsString} {b : Json} {block : CompletionBlock} (hu : b.UniqueKeys)
    (hschema : completionBlockSchema b = some block) (hsize : (Json.stringify b).length ≤ COMPLETION_BLOCK_MAX_CHARS)
    (hwindow : (fenced b s).length ≤ COMPLETION_PARSE_WINDOW_CHARS) (hs : ∀ c ∈ scanBlocks s, deciding c = false) :
    parseCompletionBlock z reason (some (p ++ newline :: fenced b s)) = .ok block .completion := by
  have hplain := completionBlockSchema_plain b block hschema hu
  have hobj : isObject b = true := by
    cases b <;> first | rfl | simp [completionBlockSchema, strict] at hschema
  obtain ⟨before, hscan⟩ := scanBlocks_fenced (p := p) hobj hsize hwindow
  rw [parseCompletionBlock_blocks reason _ _ _ _ hscan, selectBlocks_last reason hz before _ rfl rfl hs]
  have hz' := (hz.accepts b block).mpr hschema
  simp [completionOutcome, Nat.not_lt.mpr hsize, Json.parse_stringify b hplain, hobj, validateCompletionBlock, hz']

include hz in
/-- A block at the end of any text is found: for every JSON object the schema reads as
    `block` and every text before it, the parser returns the block, when nothing that
    decides follows. And a complete `completion` fence always decides over the
    candidates before it. -/
theorem last_completion_block_decides :
    (∀ (p s : JsString) (b : Json) (block : CompletionBlock), b.UniqueKeys → completionBlockSchema b = some block →
      (Json.stringify b).length ≤ COMPLETION_BLOCK_MAX_CHARS →
      (fenced b s).length ≤ COMPLETION_PARSE_WINDOW_CHARS → (∀ c ∈ scanBlocks s, deciding c = false) →
        parseCompletionBlock z reason (some (p ++ newline :: fenced b s)) = .ok block .completion) ∧
    (∀ (text : JsString) (before after : List RawBlock) (c : RawBlock),
      scanBlocks (scanWindow text) = before ++ c :: after → c.complete = true → c.fenceClass = .completion →
        parseCompletionBlock z reason (some text) = selectBlocks z reason (c :: after) ∧
        ((∀ d ∈ after, deciding d = false) →
          parseCompletionBlock z reason (some text) = completionOutcome z reason c)) := by
  constructor
  · intro p s b block hu hschema hsize hwindow hs
    exact parse_fenced reason hz hu hschema hsize hwindow hs
  · intro text before after c hscan hc hf
    rw [parseCompletionBlock_blocks reason _ _ _ _ hscan]
    exact ⟨selectBlocks_forgets z reason before after hc hf, selectBlocks_last reason hz before after hc hf⟩

end

/-- A block that says only that the work is done. -/
def doneBlock : CompletionBlock where
  status := .done
  summary := none
  commands := none
  tests := none
  commits := none
  filesChanged := none
  openIssues := none
  blockedReason := none
  reasoned := by decide

theorem done_block_found :
    parseCompletionBlock schemaZod id (some (js "All done." ++ newline :: fenced doneBlock.toJson (js "Bye."))) =
      .ok doneBlock .completion ∧
    parseCompletionBlock schemaZod id (some (js "```completion\nx\n```\n```completion\n[]\n```")) = .error notAnObject := by
  constructor
  · refine (last_completion_block_decides id schemaZod_documented).1 _ _ _ _ ?_ (completionBlockSchema_toJson _) ?_ ?_ ?_
    · exact uniqueKeys_toJson doneBlock
    · decide
    · decide
    · have hs : scanBlocks (js "Bye.") = [] := by decide
      simp [hs]
  · have h := (last_completion_block_decides id schemaZod_documented).2
      (js "```completion\nx\n```\n```completion\n[]\n```") [⟨.completion, js "x", true⟩] [] ⟨.completion, js "[]", true⟩
      (by decide) rfl rfl
    rw [h.2 (by simp)]
    decide

end PiWebUi.Completion
