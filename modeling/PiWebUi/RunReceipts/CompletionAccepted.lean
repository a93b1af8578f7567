/-
  PiWebUi.RunReceipts.CompletionAccepted — whether the store accepts what the parser
  returns, and so whether `finish` can store what the assistant wrote.

  The parser and the store bound a block independently. They differ on a commit's
  subject (2000 against 1024 characters), on a block whose JSON grows past the storage
  bound (unpaired surrogates are six characters once escaped), and on the texts of a
  schema violation, which quote the model: the names of unknown keys, and a value that
  is not in an enum.
-/

import PiWebUi.RunReceipts.StoredCompletion
import PiWebUi.Completion.LastBlock

namespace PiWebUi.RunReceipts

open Lib Lib.Check Completion List Option

/-! ## The condition -/

/-- A json or untagged fence that is remembered as an error. -/
def failing (c : RawBlock) : Bool :=
  c.complete && c.fenceClass ≠ .completion && c.content.length ≤ COMPLETION_BLOCK_MAX_CHARS &&
    match Json.parse c.content with
    | none => c.fenceClass = .json
    | some v => carriesSchemaTag v && (completionBlockSchema v).isNone

/-- The fence whose content decides the result: the last deciding one, else the last
    failing one. -/
def decidingFence (blocks : List RawBlock) : Option RawBlock :=
  (blocks.reverse.find? deciding).or (blocks.reverse.find? failing)

/-- The texts of an issue fit the stored error: the first unknown key is at most 500
    characters and the names together leave the message within 2000; a string that is
    not in an enum leaves the message within 2000. -/
def IssueFits (issue : ZodIssue) : Prop :=
  match issue.code with
  | .unrecognized_keys ks => (∀ k, ks.head? = some k → k.length ≤ 500) ∧ (ks.map List.length).sum + 4 * ks.length ≤ 1971
  | .invalid_enum_value options received => received.length + (invalidEnumValueMessage options []).length ≤ 2000
  | .other => True

section

variable (z : Zod)

def StorableValue (v : Json) : Prop :=
  match completionBlockSchema v with
  | some b => StorableBlock b
  | none => ∀ issues i, z v = .error issues → issues.head? = some i → IssueFits i

/-- The object in a fence, if there is one, is storable. -/
def FenceFits (c : RawBlock) : Prop := ∀ v, fenceValue c = some v → isObject v = true → StorableValue z v

/-- The bounds on a text. -/
def Storable (text : JsString) : Prop :=
  ∀ c, decidingFence (scanBlocks (scanWindow text)) = some c → FenceFits z c

end

/-- The store's check of a parse result: of the block of a success, of the error of a
    failure other than `NO_BLOCK`. -/
def storeCheck : CompletionParseResult → Check
  | .ok block _ => validateStoredCompletion block.toJson
  | .error e => if e.code = .NO_BLOCK then .ok () else validateStoredCompletionError (errorJson e)

def StoreAccepts (r : CompletionParseResult) : Prop := storeCheck r = .ok ()

/-! ## Message lengths -/

theorem length_joinValues (sep : JsString) : ∀ ks : List JsString, ks ≠ [] →
    (joinValues ks sep).length + sep.length = (ks.map List.length).sum + (2 + sep.length) * ks.length
  | [], h => absurd rfl h
  | [k], _ => by simp [joinValues, intercalate_singleton]; omega
  | k :: l :: ks, _ => by
    have ih := length_joinValues sep (l :: ks) (by simp)
    simp only [joinValues, map_cons, intercalate_cons_cons, length_append, length_cons,
      sum_cons, length_nil] at ih ⊢
    have hmul : (2 + sep.length) * (ks.length + 1 + 1) = (2 + sep.length) * (ks.length + 1) + (2 + sep.length) := by
      rw [Nat.mul_succ]
    omega

theorem length_unrecognizedKeysMessage {ks : List JsString} (h : ks ≠ []) :
    (unrecognizedKeysMessage ks).length = 29 + (ks.map List.length).sum + 4 * ks.length := by
  have hprefix : (js "Unrecognized key(s) in object: ").length = 31 := by decide
  have hsep : (js ", ").length = 2 := by decide
  have hjoin := length_joinValues (js ", ") ks h
  rw [hsep] at hjoin
  rw [unrecognizedKeysMessage, length_append, hprefix]
  omega

theorem length_invalidEnumValueMessage (options : List JsString) (received : JsString) :
    (invalidEnumValueMessage options received).length = received.length + (invalidEnumValueMessage options []).length := by
  simp only [invalidEnumValueMessage, length_append, length_nil]
  omega

theorem length_natText {i : ℕ} (h : i < 2 ^ 32) : (JsNumber.natText i).length ≤ 10 := by
  unfold JsNumber.natText
  split
  · simp
  · rw [length_map, length_reverse, Nat.digits_length_le_iff (by norm_num)]
    exact lt_of_lt_of_le h (by norm_num)

/-- The text of a declared path is short. -/
theorem length_declaredPath {path : List PathSegment} (h : declaredPath path) :
    (List.intercalate (js ".") (path.map PathSegment.text)).length ≤ 500 := by
  have hblock : ∀ k ∈ blockKeys, k.length ≤ 13 := by decide
  have hitem : ∀ k ∈ commandKeys ++ testKeys ++ commitKeys, k.length ≤ 13 := by decide
  have hdot : (js ".").length = 1 := by decide
  match path, h with
  | [], _ => simp
  | [.key k], h =>
    have := hblock k h
    simp only [map_cons, map_nil, intercalate_singleton, PathSegment.text]
    omega
  | [.key k, .index i], h =>
    have h1 := hblock k h.1
    have h2 := length_natText h.2
    simp only [map_cons, map_nil, intercalate_cons_cons, intercalate_singleton, PathSegment.text,
      length_append, hdot]
    omega
  | [.key k, .index i, .key f], h =>
    have h1 := hblock k h.1
    have h2 := length_natText h.2.1
    have h3 := hitem f h.2.2
    simp only [map_cons, map_nil, intercalate_cons_cons, intercalate_singleton, PathSegment.text,
      length_append, hdot]
    omega

/-! ## One fence -/

/-- The text of a `SyntaxError` quotes a bounded part of its source. -/
def MAX_SYNTAX_ERROR : ℕ := 200

theorem accepts_error {e : CompletionParseError} (h : e.code ≠ .NO_BLOCK) : StoreAccepts (.error e) ↔ StorableError e := by
  rw [StoreAccepts, storeCheck, if_neg h, validateStoredCompletionError_error]

theorem accepts_fixed {e : CompletionParseError} (hc : e.code ≠ .NO_BLOCK)
    (h : 0 < e.message.length ∧ e.message.length ≤ 2000) (hp : e.fieldPath = none) : StoreAccepts (.error e) :=
  (accepts_error hc).mpr ⟨h.1, h.2, by simp [hp]⟩

theorem accepts_oversizedBlock : StoreAccepts (.error oversizedBlock) := accepts_fixed (by decide) (by decide) rfl

theorem accepts_notAnObject : StoreAccepts (.error notAnObject) := accepts_fixed (by decide) (by decide) rfl

theorem accepts_unclosedFence : StoreAccepts (.error unclosedFence) := accepts_fixed (by decide) (by decide) rfl

theorem accepts_noBlock : StoreAccepts (.error noBlock) := rfl

theorem accepts_malformedJson {reason : JsString} (h : reason.length ≤ MAX_SYNTAX_ERROR) :
    StoreAccepts (.error (malformedJson reason)) := by
  have hprefix : (js "Completion block is not valid JSON: ").length = 36 := by decide
  simp only [MAX_SYNTAX_ERROR] at h
  refine accepts_fixed (by simp [malformedJson]) ?_ rfl
  simp only [malformedJson, length_append, hprefix]
  omega

theorem accepts_ok (b : CompletionBlock) (d : CompletionDelimiter) : StoreAccepts (.ok b d) ↔ StorableBlock b :=
  validateStoredCompletion_block b

/-- A documented issue makes a storable error exactly when its texts fit. -/
theorem storableError_issue {i : ZodIssue} (hi : i.Documented) (rest : List ZodIssue) :
    StorableError (schemaViolation { fieldPath := firstIssuePath (i :: rest), message := i.message }) ↔ IssueFits i := by
  have hpath : ∀ p, (if i.path = [] then none
      else some (List.intercalate (js ".") (i.path.map PathSegment.text))) = some p → p.length ≤ 500 := by
    intro p hp
    split at hp
    · cases hp
    · obtain rfl := some.inj hp
      exact length_declaredPath hi.path
  simp only [StorableError, schemaViolation, firstIssuePath, IssueFits]
  cases hc : i.code with
  | unrecognized_keys ks =>
    obtain ⟨hne, hm⟩ := hi.keys ks hc
    simp only [hm, length_unrecognizedKeysMessage hne]
    constructor
    · intro h
      exact ⟨h.2.2, by have := h.2.1; omega⟩
    · intro h
      have := h.2
      exact ⟨by omega, by omega, h.1⟩
  | invalid_enum_value options received =>
    obtain ⟨-, hm⟩ := hi.enum options received hc
    have hpos : 0 < (invalidEnumValueMessage options []).length := by
      simp [invalidEnumValueMessage, js, utf16, List.flatMap]
    simp only [hm, length_invalidEnumValueMessage options received]
    exact ⟨fun h => h.2.1, fun h => ⟨by omega, h, hpath⟩⟩
  | other =>
    obtain ⟨h1, h2⟩ := hi.other hc
    simp only [MAX_OTHER_MESSAGE] at h2
    exact iff_of_true ⟨h1, by omega, hpath⟩ trivial

section

variable {z : Zod} (hz : z.Documented)

include hz in
/-- The store accepts a validation failure exactly when the value is storable. -/
theorem accepts_violation {v : Json} {violation : Violation} (h : validateCompletionBlock z v = .error violation) :
    StoreAccepts (.error (schemaViolation violation)) ↔ StorableValue z v := by
  have hnone : completionBlockSchema v = none := by
    cases hs : completionBlockSchema v with
    | none => rfl
    | some b => rw [(validate_ok hz v b).mpr hs] at h; cases h
  unfold validateCompletionBlock at h
  cases hv : z v with
  | ok b => simp [hv] at h
  | error issues =>
    rw [hv] at h
    cases issues with
    | nil => exact absurd rfl (hz.reports v [] hv)
    | cons i rest =>
      simp only [Except.error.injEq] at h
      subst h
      have hcode : (schemaViolation { fieldPath := firstIssuePath (i :: rest), message := i.message }).code ≠ .NO_BLOCK := by
        simp [schemaViolation]
      rw [accepts_error hcode, storableError_issue (hz.issue v _ hv i (by simp)) rest]
      simp only [StorableValue, hnone, hv]
      constructor
      · intro hf issues j hij hj
        obtain rfl := Except.error.inj hij
        obtain rfl := some.inj hj
        exact hf
      · exact fun hf => hf _ i rfl rfl

theorem storableValue_some {v : Json} {b : CompletionBlock} (h : completionBlockSchema v = some b) :
    StorableValue z v ↔ StorableBlock b := by
  simp [StorableValue, h]

variable {reason : JsString → JsString} (hreason : ∀ content, (reason content).length ≤ MAX_SYNTAX_ERROR)

include hz hreason in
theorem accepts_completionOutcome (c : RawBlock) : StoreAccepts (completionOutcome z reason c) ↔ FenceFits z c := by
  unfold completionOutcome FenceFits fenceValue
  split
  · simp [accepts_oversizedBlock]
  · cases hp : Json.parse c.content with
    | none => simp [accepts_malformedJson (hreason c.content)]
    | some v =>
      by_cases hobj : isObject v = true
      · simp only [hobj, Bool.not_true, Bool.false_eq_true, if_false, some.injEq, forall_eq', forall_true_left]
        cases hv : validateCompletionBlock z v with
        | ok b => rw [accepts_ok, storableValue_some ((validate_ok hz v b).mp hv)]
        | error violation => exact accepts_violation hz hv
      · simp [hobj, accepts_notAnObject]

theorem isObject_of_tag {v : Json} (h : carriesSchemaTag v = true) : isObject v = true := by
  cases v <;> simp_all [carriesSchemaTag, Json.get, isObject]

include hz hreason in
/-- The error a failing fence surfaces as is stored exactly when the fence fits. -/
theorem accepts_jsonError {c : RawBlock} (hc : failing c = true) :
    ∃ e, jsonError z reason c = some e ∧ (StoreAccepts (.error e) ↔ FenceFits z c) := by
  simp only [failing, Bool.and_eq_true, decide_eq_true_eq] at hc
  obtain ⟨⟨-, hlen⟩, hm⟩ := hc
  unfold jsonError FenceFits fenceValue
  rw [if_neg (by omega)]
  cases hp : Json.parse c.content with
  | none => exact ⟨_, rfl, by simp [accepts_malformedJson (hreason c.content)]⟩
  | some v =>
    simp only [hp, Bool.and_eq_true, isNone_iff_eq_none] at hm
    cases hv : validateCompletionBlock z v with
    | ok b => rw [(validate_ok hz v b).mp hv] at hm; cases hm.2
    | error violation =>
      refine ⟨schemaViolation violation, by simp [hv], ?_⟩
      simp [accepts_violation hz hv, isObject_of_tag hm.1]

/-! ## All fences -/

theorem fenceValue_some {c : RawBlock} {v : Json} (h : fenceValue c = some v) :
    ¬ c.content.length > COMPLETION_BLOCK_MAX_CHARS ∧ Json.parse c.content = some v := by
  unfold fenceValue at h
  split at h
  · cases h
  · next hlen => exact ⟨hlen, h⟩

include hz hreason in
/-- A deciding candidate sets an outcome that is stored exactly when it fits. -/
theorem selectCandidate_deciding (st : Selection) {c : RawBlock} (hc : deciding c = true) :
    ∃ r, (selectCandidate z reason st c).outcome = some r ∧ (StoreAccepts r ↔ FenceFits z c) := by
  simp only [deciding, Bool.and_eq_true, Bool.or_eq_true, decide_eq_true_eq] at hc
  obtain ⟨hcomplete, hcase⟩ := hc
  by_cases hclass : c.fenceClass = .completion
  · exact ⟨_, selectCandidate_completion z reason st hcomplete hclass, accepts_completionOutcome hz hreason c⟩
  · replace hcase := hcase.resolve_left hclass
    cases hv : fenceValue c with
    | none => simp [hv] at hcase
    | some v =>
      simp only [hv, any_some, Bool.and_eq_true, isSome_iff_exists] at hcase
      obtain ⟨htag, b, hb⟩ := hcase
      obtain ⟨hlen, hp⟩ := fenceValue_some hv
      refine ⟨.ok b .jsonTagged, ?_, ?_⟩
      · simp [selectCandidate, hcomplete, hclass, hlen, hp, htag, (validate_ok hz v b).mpr hb]
      · simp [accepts_ok, FenceFits, hv, isObject_of_tag htag, storableValue_some hb]

include hz in
theorem selectCandidate_jsonErrorCandidate (st : Selection) (c : RawBlock) :
    (selectCandidate z reason st c).jsonErrorCandidate = if failing c then some c else st.jsonErrorCandidate := by
  unfold selectCandidate failing
  by_cases hcomplete : c.complete = true
  · by_cases hclass : c.fenceClass = .completion
    · simp [hcomplete, hclass]
    · by_cases hlen : c.content.length > COMPLETION_BLOCK_MAX_CHARS
      · simp [hcomplete, hclass, hlen, Nat.not_le.mpr hlen]
      · cases hp : Json.parse c.content with
        | none => by_cases hjson : c.fenceClass = .json <;> simp [hcomplete, hlen, hjson, Nat.not_lt.mp hlen, hclass]
        | some v =>
          by_cases htag : carriesSchemaTag v = true
          · cases hv : validateCompletionBlock z v with
            | ok b => simp [hcomplete, hclass, hlen, htag, hv, (validate_ok hz v b).mp hv]
            | error violation =>
              have hnone : completionBlockSchema v = none := by
                cases hs : completionBlockSchema v with
                | none => rfl
                | some b => rw [(validate_ok hz v b).mpr hs] at hv; cases hv
              simp [hcomplete, hclass, hlen, htag, hv, hnone, Nat.not_lt.mp hlen]
          · simp [hcomplete, hclass, hlen, htag]
  · by_cases hclass : c.fenceClass = .completion <;> simp [hcomplete, hclass]

theorem selectCandidate_hasComplete (st : Selection) {c : RawBlock} (hc : deciding c = false) :
    (selectCandidate z reason st c).hasCompleteCompletionFence = st.hasCompleteCompletionFence := by
  unfold selectCandidate
  repeat' split
  all_goals simp_all [deciding]

/-- What a selection has kept of the candidates so far. -/
structure Kept (z : Zod) (blocks : List RawBlock) (st : Selection) : Prop where
  absent : blocks.reverse.find? deciding = none → st.outcome = none ∧ st.hasCompleteCompletionFence = false
  found : ∀ c, blocks.reverse.find? deciding = some c →
    ∃ r, st.outcome = some r ∧ (StoreAccepts r ↔ FenceFits z c)
  error : st.jsonErrorCandidate = blocks.reverse.find? failing

include hz hreason in
theorem kept_step {blocks : List RawBlock} {st : Selection} (h : Kept z blocks st) (c : RawBlock) :
    Kept z (blocks ++ [c]) (selectCandidate z reason st c) := by
  have herror : (selectCandidate z reason st c).jsonErrorCandidate = (blocks ++ [c]).reverse.find? failing := by
    rw [selectCandidate_jsonErrorCandidate hz, h.error, reverse_append]
    by_cases hf : failing c = true <;> simp [hf]
  by_cases hc : deciding c = true
  · refine ⟨fun hnone => ?_, fun d hd => ?_, herror⟩
    · simp [reverse_append, hc] at hnone
    · simp only [reverse_append, reverse_singleton, singleton_append, find?_cons, hc,
        some.injEq] at hd
      subst hd
      exact selectCandidate_deciding hz hreason st hc
  · rw [Bool.not_eq_true] at hc
    have hfind : (blocks ++ [c]).reverse.find? deciding = blocks.reverse.find? deciding := by
      simp [reverse_append, hc]
    have hout := selectCandidate_not_deciding reason hz st hc
    refine ⟨fun hnone => ?_, fun d hd => ?_, herror⟩
    · rw [hout, selectCandidate_hasComplete st hc]
      exact h.absent (hfind ▸ hnone)
    · rw [hout]
      exact h.found d (hfind ▸ hd)

include hz hreason in
theorem kept_foldl (blocks : List RawBlock) : Kept z blocks (blocks.foldl (selectCandidate z reason) .empty) := by
  induction blocks using List.reverseRecOn with
  | nil => exact ⟨fun _ => ⟨rfl, rfl⟩, fun c hc => (by simp at hc), rfl⟩
  | append_singleton blocks c ih =>
    rw [foldl_append, foldl_cons, foldl_nil]
    exact kept_step hz hreason ih c

include hz hreason in
/-- The store accepts what a list of candidates results in exactly when the deciding
    fence fits. -/
theorem accepts_selectBlocks (blocks : List RawBlock) :
    StoreAccepts (selectBlocks z reason blocks) ↔ ∀ c, decidingFence blocks = some c → FenceFits z c := by
  have h := kept_foldl hz hreason blocks
  rw [selectBlocks]
  generalize blocks.foldl (selectCandidate z reason) .empty = st at h
  unfold decidingFence
  cases hd : blocks.reverse.find? deciding with
  | some c =>
    obtain ⟨r, hr, hiff⟩ := h.found c hd
    rw [result_of_outcome z reason hr, hiff]
    simp
  | none =>
    obtain ⟨hout, hcomplete⟩ := h.absent hd
    have herror := h.error
    cases hf : blocks.reverse.find? failing with
    | some c =>
      rw [hf] at herror
      obtain ⟨e, he, hiff⟩ := accepts_jsonError hz hreason (find?_some hf)
      have hres : st.result z reason = .error e := by
        simp [Selection.result, hout, hcomplete, herror, he]
      rw [hres, hiff]
      simp
    | none =>
      rw [hf] at herror
      have hres : st.result z reason = .error unclosedFence ∨ st.result z reason = .error noBlock := by
        simp only [Selection.result, hout, hcomplete, herror]
        cases st.hasUnclosedCompletionFence <;> simp
      have hacc : StoreAccepts (st.result z reason) := by
        rcases hres with h | h <;> rw [h]
        · exact accepts_unclosedFence
        · exact accepts_noBlock
      simp [hacc]

include hz hreason in
theorem accepts_parse (text : JsString) : StoreAccepts (parseCompletionBlock z reason (some text)) ↔ Storable z text := by
  unfold parseCompletionBlock Storable
  by_cases htext : text = []
  · subst htext
    have hscan : decidingFence (scanBlocks (scanWindow [])) = none := by decide
    simp [hscan, accepts_noBlock]
  · simp only [htext, if_false]
    split
    · next hblocks => simp [hblocks, decidingFence, accepts_noBlock]
    · exact accepts_selectBlocks hz hreason _

end

/-! ## `finish` -/

/-- The fields of a receipt that hold what the assistant wrote. -/
structure AssistantFields where
  finalText : Option JsString := none
  finalTextTruncated : Option Bool := none
  completion : Option CompletionBlock := none
  completionDelimiter : Option CompletionDelimiter := none
  completionError : Option CompletionParseError := none

/-- The part of `validate` about these fields. -/
def validateAssistantFields (r : AssistantFields) : Check := do
  if r.finalText.isSome || r.finalTextTruncated.isSome then
    throwWhen (match r.finalText with
      | some s => FINAL_TEXT_MAX_CHARS < s.length
      | none => true) (js "Invalid finalText (string of at most 4096 characters required)")
    throwWhen r.finalTextTruncated.isNone (js "Invalid finalTextTruncated (boolean required alongside finalText)")
  else pure ()
  match r.completion with
  | some block => validateStoredCompletion block.toJson
  | none => pure ()
  throwWhen (r.completionDelimiter.isSome && r.completion.isNone) (js "completionDelimiter requires completion")
  match r.completionError with
  | some e => validateStoredCompletionError (errorJson e)
  | none => pure ()

/-- The fields of the record `finishUnlocked` hands to `transition`: the live snapshots
    over the current ones. -/
def finishFields (current : AssistantFields) (finalText : Option FinalTextSnapshot) (c : Capture) : AssistantFields where
  finalText := (finalText.map (·.text)).or current.finalText
  finalTextTruncated := (finalText.map (·.truncated)).or current.finalTextTruncated
  completion := c.completion.or current.completion
  completionDelimiter := c.completionDelimiter.or current.completionDelimiter
  completionError := c.completionError.or current.completionError

/-- The trackers of one active run. -/
def runTrackers (events : List NormalizedEvent) : FinalTextTracker × FinalTextTracker :=
  (events.foldl .observe (.new none), events.foldl .observe completionTracker)

/-- A capture whose parts the store accepts. -/
def CaptureAccepted (c : Capture) : Prop :=
  (∀ b, c.completion = some b → validateStoredCompletion b.toJson = .ok ()) ∧
    ∀ e, c.completionError = some e → validateStoredCompletionError (errorJson e) = .ok ()

theorem validateAssistantFields_iff (r : AssistantFields) : validateAssistantFields r = .ok () ↔
      ((r.finalText.isSome ∨ r.finalTextTruncated.isSome) →
        (∃ s, r.finalText = some s ∧ s.length ≤ FINAL_TEXT_MAX_CHARS) ∧ r.finalTextTruncated.isSome) ∧
      (∀ b, r.completion = some b → validateStoredCompletion b.toJson = .ok ()) ∧
      (r.completionDelimiter.isSome → r.completion.isSome) ∧
      ∀ e, r.completionError = some e → validateStoredCompletionError (errorJson e) = .ok () := by
  obtain ⟨ft, tr, cm, dl, er⟩ := r
  cases ft <;> cases tr <;> cases cm <;> cases dl <;> cases er <;> simp [validateAssistantFields]

/-- With valid fields before, the fields after are valid exactly when the capture is. -/
theorem finishFields_iff {current : AssistantFields} (hc : validateAssistantFields current = .ok ())
    {finalText : Option FinalTextSnapshot} (hft : ∀ s, finalText = some s → s.text.length ≤ FINAL_TEXT_MAX_CHARS)
    {c : Capture} (hd : c.completionDelimiter.isSome → c.completion.isSome) :
    validateAssistantFields (finishFields current finalText c) = .ok () ↔ CaptureAccepted c := by
  rw [validateAssistantFields_iff] at hc ⊢
  obtain ⟨h1, h2, h3, h4⟩ := hc
  simp only [finishFields, CaptureAccepted]
  constructor
  · rintro ⟨-, hcompletion, -, herror⟩
    exact ⟨fun b hb => hcompletion b (by simp [hb]), fun e he => herror e (by simp [he])⟩
  · rintro ⟨hcompletion, herror⟩
    refine ⟨?_, ?_, ?_, ?_⟩
    · cases finalText with
      | none => simpa using h1
      | some s => simp [hft s rfl]
    · cases hcc : c.completion with
      | none => simpa using h2
      | some b => simpa using hcompletion b hcc
    · cases hcc : c.completion with
      | some b => simp
      | none =>
        have hdl : c.completionDelimiter = none := by simpa [hcc] using hd
        simpa [hdl] using h3
    · cases hce : c.completionError with
      | none => simpa using h4
      | some e => simpa using herror e hce

theorem capture_delimiter (r : CompletionParseResult) : (capture r).completionDelimiter.isSome → (capture r).completion.isSome := by
  cases r with
  | ok b d => simp [capture]
  | error e => simp only [capture]; split <;> simp

theorem captureAccepted_capture (r : CompletionParseResult) : CaptureAccepted (capture r) ↔ StoreAccepts r := by
  cases r with
  | ok b d => simp [CaptureAccepted, capture, StoreAccepts, storeCheck]
  | error e => by_cases hno : e.code = .NO_BLOCK <;> simp [CaptureAccepted, capture, StoreAccepts, storeCheck, hno]

section

variable {z : Zod} (hz : z.Documented) {reason : JsString → JsString}
  (hreason : ∀ content, (reason content).length ≤ MAX_SYNTAX_ERROR)

theorem completionFromSnapshot_delimiter (t : FinalTextTracker) : (completionFromSnapshot z reason t).completionDelimiter.isSome →
      (completionFromSnapshot z reason t).completion.isSome := by
  unfold completionFromSnapshot
  repeat' split
  · simp
  · simp
  · exact capture_delimiter _

include hz hreason in
theorem captureAccepted_snapshot (t : FinalTextTracker) :
    CaptureAccepted (completionFromSnapshot z reason t) ↔ ∀ s, t.snapshot = some s → Storable z s.text := by
  have hnil : Storable z [] := (accepts_parse hz hreason []).mp accepts_noBlock
  unfold completionFromSnapshot
  cases t.snapshot with
  | none => simp [CaptureAccepted]
  | some s =>
    by_cases htext : s.text = []
    · simp [htext, CaptureAccepted, hnil]
    · simp [htext, captureAccepted_capture, accepts_parse hz hreason]

theorem runTrackers_finalText (events : List NormalizedEvent) (s : FinalTextSnapshot)
    (h : (runTrackers events).1.snapshot = some s) : s.text.length ≤ FINAL_TEXT_MAX_CHARS :=
  FinalTextTracker.snapshot_le none events s h

include hz hreason in
/-- A run that ends with a text whose block the store refuses cannot be finished. -/
theorem finish_rejected {text : JsString} {b : CompletionBlock} {d : CompletionDelimiter}
    (hparse : parseCompletionBlock z reason (some text) = .ok b d) (hb : ¬ StorableBlock b)
    (hne : text ≠ []) (hle : text.length ≤ COMPLETION_PARSE_WINDOW_CHARS) :
    validateAssistantFields (finishFields {} (runTrackers [FinalTextTracker.textDelta text]).1.snapshot
      (completionFromSnapshot z reason (runTrackers [FinalTextTracker.textDelta text]).2)) ≠ .ok () := by
  intro h
  have hempty : validateAssistantFields {} = .ok () := rfl
  rw [finishFields_iff hempty (runTrackers_finalText _) (completionFromSnapshot_delimiter _),
    captureAccepted_snapshot hz hreason] at h
  have hstorable := h _ (FinalTextTracker.snapshot_delta (some COMPLETION_PARSE_WINDOW_CHARS) hne hle)
  rw [← accepts_parse hz hreason, hparse, accepts_ok] at hstorable
  exact hb hstorable

include hz hreason in
/-- The store accepts what the parser returns for a text exactly when the fence that
    decides is within the bounds, and `finish` writes fields that validate exactly when
    the run's text is. -/
theorem completion_accepted_iff : (∀ text, StoreAccepts (parseCompletionBlock z reason (some text)) ↔ Storable z text) ∧
    ∀ (events : List NormalizedEvent) (current : AssistantFields), validateAssistantFields current = .ok () →
      (validateAssistantFields (finishFields current (runTrackers events).1.snapshot
          (completionFromSnapshot z reason (runTrackers events).2)) = .ok () ↔
        ∀ s, (runTrackers events).2.snapshot = some s → Storable z s.text) := by
  refine ⟨accepts_parse hz hreason, fun events current hcurrent => ?_⟩
  rw [finishFields_iff hcurrent (runTrackers_finalText events) (completionFromSnapshot_delimiter _)]
  exact captureAccepted_snapshot hz hreason _

end

/-- A `SyntaxError` text that quotes nothing. -/
def plainReason (_ : JsString) : JsString := js "is not valid JSON"

theorem plainReason_short (content : JsString) : (plainReason content).length ≤ MAX_SYNTAX_ERROR := by
  show (js "is not valid JSON").length ≤ 200
  decide

theorem done_block_accepted :
    StoreAccepts (parseCompletionBlock schemaZod plainReason (some (newline :: fenced doneBlock.toJson []))) := by
  refine ((completion_accepted_iff schemaZod_documented plainReason_short).1 _).mpr ?_
  have hparse : parseCompletionBlock schemaZod plainReason (some (newline :: fenced doneBlock.toJson [])) =
      .ok doneBlock .completion := by decide +kernel
  rw [← accepts_parse schemaZod_documented plainReason_short, hparse, accepts_ok]
  exact ⟨fun cs hcs => by simp [doneBlock] at hcs, by decide +kernel⟩

/-- A block with one commit, whose subject is `n` characters. -/
def subjectBlock (n : ℕ) (h : n ≤ MAX_NOTE_CHARS) : CompletionBlock :=
  { doneBlock with
    commits := some ⟨[{ sha := ⟨js "0123456", by decide⟩
                        repo := ⟨js "r", by decide⟩
                        subject := some ⟨List.replicate n 97, Nat.zero_le _, by rw [length_replicate]; exact h⟩ }],
      by simp [MAX_COMMITS]⟩
    reasoned := by decide }

theorem subjectBlock_not_storable {n : ℕ} (h : n ≤ MAX_NOTE_CHARS) (hn : 1024 < n) : ¬ StorableBlock (subjectBlock n h) := by
  intro hs
  have hle := hs.1 _ rfl _ (mem_singleton.mpr rfl) _ rfl
  rw [length_replicate] at hle
  omega

/-- The last message of a run: a block whose commit subject is one character over the
    store's bound. -/
def longSubjectText : JsString := newline :: fenced (subjectBlock 1025 (by decide)).toJson []

/-- The parser accepts a subject of 1025 characters, the store does not, and `finish`
    of a run that ends with the block is rejected. -/
theorem long_subject_is_rejected :
    parseCompletionBlock schemaZod plainReason (some longSubjectText) = .ok (subjectBlock 1025 (by decide)) .completion ∧
      validateStoredCompletion (subjectBlock 1025 (by decide)).toJson ≠ .ok () ∧
      validateAssistantFields (finishFields {} (runTrackers [FinalTextTracker.textDelta longSubjectText]).1.snapshot
        (completionFromSnapshot schemaZod plainReason (runTrackers [FinalTextTracker.textDelta longSubjectText]).2)) ≠ .ok () := by
  have hscan : scanBlocks [] = [] := by decide
  have hparse : parseCompletionBlock schemaZod plainReason (some longSubjectText) =
      .ok (subjectBlock 1025 (by decide)) .completion :=
    parse_fenced (p := []) _ schemaZod_documented (uniqueKeys_toJson _) (completionBlockSchema_toJson _)
      (by decide +kernel) (by decide +kernel) (by rw [hscan]; exact fun c hc => absurd hc (by simp))
  have hnot := subjectBlock_not_storable (n := 1025) (by decide) (by decide)
  refine ⟨hparse, fun h => hnot ((validateStoredCompletion_block _).mp h), ?_⟩
  exact finish_rejected schemaZod_documented plainReason_short hparse hnot (cons_ne_nil _ _)
    (by decide +kernel)

end PiWebUi.RunReceipts
