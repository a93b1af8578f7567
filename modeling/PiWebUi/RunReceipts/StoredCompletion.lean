/-
  PiWebUi.RunReceipts.StoredCompletion — the store's own check of a completion block
  and of a completion error (`validateStoredCompletion`, `validateStoredCompletionError`
  and the fields of `validate` that hold what the assistant wrote, in
  `run-receipts/run-receipt-store.ts`), and the fields `finish` writes.

  Proved: a block of the schema is stored exactly when no commit subject is over the
  store's shorter bound and its JSON is within the storage bound
  (`validateStoredCompletion_block`).
-/

import PiWebUi.Lib.Check
import PiWebUi.RunReceipts.Capture
import PiWebUi.Completion.SchemaProofs

namespace PiWebUi.RunReceipts

open Lib Lib.Check Completion List

/-! ## The checks -/

def longerThan (n : ℕ) : Json → Bool
  | .str s => n < s.length
  | _ => false

def isString : Json → Bool
  | .str _ => true
  | _ => false

/-- One field of an array entry: a number, or a string of at most `itemMax`. -/
def checkItemField (key ik : JsString) (itemMax : ℕ) (iv : Json) : Check :=
  match iv with
  | .str s => throwWhen (itemMax < s.length) (js "Invalid completion block " ++ key ++ js "." ++ ik ++ js " length")
  | .num _ => .ok ()
  | _ => .error (js "Invalid completion block " ++ key ++ js "." ++ ik)

def checkItem (key : JsString) (itemKeys : List JsString) (itemMax : ℕ) (item : Json) : Check := do
  throwWhen (!isObject item) (js "Invalid completion block " ++ key ++ js " entry")
  forEach (fun ik => throwWhen (!itemKeys.contains ik)
    (js "Unsupported completion block " ++ key ++ js " field: " ++ ik)) item.keys
  forEach (fun ik => match item.get ik with
    | none => .ok ()
    | some iv => checkItemField key ik itemMax iv) itemKeys

/-- `boundedArray`. -/
def boundedArray (record : Json) (key : JsString) (max : ℕ) (itemKeys : List JsString) (itemMax : ℕ) : Check :=
  match record.get key with
  | none => .ok ()
  | some (.arr xs) => do
    throwWhen (max < xs.length) (js "Invalid completion block " ++ key)
    forEach (checkItem key itemKeys itemMax) xs
  | some _ => .error (js "Invalid completion block " ++ key)

def boundedStrings (record : Json) (key : JsString) (max : ℕ) : Check :=
  match record.get key with
  | none => .ok ()
  | some (.arr xs) => do
    throwWhen (max < xs.length) (js "Invalid completion block " ++ key)
    forEach (fun item => throwWhen (!isString item || item = .str [] || longerThan 2000 item)
      (js "Invalid completion block " ++ key ++ js " entry")) xs
  | some _ => .error (js "Invalid completion block " ++ key)

/-- An optional string field of at most `n`. -/
def boundedField (record : Json) (key : JsString) (n : ℕ) : Check :=
  match record.get key with
  | none => .ok ()
  | some v => throwWhen (!isString v || longerThan n v) (js "Invalid completion block " ++ key)

def validateStoredCompletion (value : Json) : Check := do
  throwWhen (!isObject value) (js "Invalid completion block")
  forEach (fun key => throwWhen (!blockKeys.contains key) (js "Unsupported completion block field: " ++ key)) value.keys
  throwWhen (value.get (js "schema") ≠ some (.str COMPLETION_SCHEMA_NAME)) (js "Invalid completion block schema name")
  throwWhen (!([some (.str (js "done")), some (.str (js "blocked")), some (.str (js "partial"))].contains
    (value.get (js "status")))) (js "Invalid completion block status")
  boundedField value (js "summary") 2000
  boundedField value (js "blockedReason") 4000
  throwWhen (value.get (js "status") = some (.str (js "blocked")) &&
      (match value.get (js "blockedReason") with
        | some (.str s) => s.length = 0
        | _ => true))
    (js "Completion block with status blocked requires blockedReason")
  boundedArray value (js "commands") 50 [js "command", js "exitCode", js "note"] 2000
  boundedArray value (js "tests") 100 [js "name", js "result", js "note"] 2000
  boundedArray value (js "commits") 50 [js "sha", js "repo", js "subject"] 1024
  boundedStrings value (js "filesChanged") 200
  boundedStrings value (js "openIssues") 50
  throwWhen (COMPLETION_BLOCK_MAX_CHARS * 4 < value.stringify.length) (js "Completion block exceeds the storage bound")

def errorCodes : List JsString :=
  [js "NO_BLOCK", js "UNCLOSED_FENCE", js "OVERSIZED_BLOCK", js "MALFORMED_JSON", js "SCHEMA_VIOLATION"]

def validateStoredCompletionError (value : Json) : Check := do
  throwWhen (!isObject value) (js "Invalid completionError")
  forEach (fun key => throwWhen (!([js "code", js "message", js "fieldPath"].contains key))
    (js "Unsupported completionError field: " ++ key)) value.keys
  throwWhen (!errorCodes.any fun c => value.get (js "code") = some (.str c)) (js "Invalid completionError code")
  throwWhen (match value.get (js "message") with
    | some (.str s) => s.length = 0 || 2000 < s.length
    | _ => true) (js "Invalid completionError message")
  match value.get (js "fieldPath") with
  | none => .ok ()
  | some v => throwWhen (!isString v || longerThan 500 v) (js "Invalid completionError fieldPath")

/-! ## A block of the schema -/

theorem strict_iff (shape : List JsString) (v : Json) : strict shape v = some () ↔ isObject v = true ∧ ∀ k ∈ v.keys, k ∈ shape := by
  cases v with
  | obj fs => simp [strict_obj, isObject, Json.keys]
  | _ => simp [strict, isObject]

theorem keys_ok {shape : List JsString} {v : Json} (h : strict shape v = some ()) (message : JsString → JsString) :
    forEach (fun k => throwWhen (!shape.contains k) (message k)) v.keys = .ok () := by
  simp only [forEach_ok, throwWhen_ok, Bool.not_eq_false', contains_iff_mem]
  exact ((strict_iff shape v).mp h).2

theorem boundedField_ok {lo hi n : ℕ} (h : hi ≤ n) {v : Json} {key : JsString} {x : Option (Text lo hi)}
    (hg : v.get key = x.map textJson) : boundedField v key n = .ok () := by
  cases x with
  | none => simp [boundedField, hg]
  | some t => simp [boundedField, hg, textJson, isString, longerThan, t.2.2.trans h]

theorem boundedStrings_ok {hi n m : ℕ} (h : hi ≤ 2000) (hm : n ≤ m) {v : Json} {key : JsString}
    {x : Option (Capped (Text 1 hi) n)} (hg : v.get key = x.map (arrayJson textJson)) : boundedStrings v key m = .ok () := by
  cases x with
  | none => simp [boundedStrings, hg]
  | some xs =>
    simp only [boundedStrings, hg, Option.map_some, arrayJson, bind_ok, throwWhen_ok, forEach_ok, length_map,
      decide_eq_false_iff_not, not_lt, forall_mem_map]
    refine ⟨xs.2.trans hm, fun t _ => ?_⟩
    have hne : t.1 ≠ [] := ne_nil_of_length_pos t.2.1
    simp [textJson, isString, longerThan, hne, t.2.2.trans h]

theorem boundedArray_iff {α : Type} {n m : ℕ} (hm : n ≤ m) {v : Json} {key : JsString} {f : α → Json}
    {x : Option (Capped α n)} (hg : v.get key = x.map (arrayJson f)) (itemKeys : List JsString) (itemMax : ℕ) :
    boundedArray v key m itemKeys itemMax = .ok () ↔
      ∀ xs, x = some xs → ∀ a ∈ xs.1, checkItem key itemKeys itemMax (f a) = .ok () := by
  cases x with
  | none => simp [boundedArray, hg]
  | some xs =>
    simp only [boundedArray, hg, Option.map_some, arrayJson, bind_ok, throwWhen_ok, forEach_ok, length_map,
      decide_eq_false_iff_not, not_lt, forall_mem_map, Option.some.injEq, forall_eq']
    exact ⟨And.right, fun h => ⟨xs.2.trans hm, h⟩⟩

/-- An entry passes when each of its fields does. -/
theorem checkItem_iff {itemKeys : List JsString} {item : Json} (hs : strict itemKeys item = some ()) (key : JsString)
    (itemMax : ℕ) : checkItem key itemKeys itemMax item = .ok () ↔
      ∀ ik ∈ itemKeys, ∀ iv, item.get ik = some iv → checkItemField key ik itemMax iv = .ok () := by
  have hobj := ((strict_iff itemKeys item).mp hs).1
  simp only [checkItem, bind_ok, throwWhen_ok, hobj, Bool.not_true, keys_ok hs, true_and, forEach_ok]
  refine forall₂_congr fun ik _ => ?_
  cases item.get ik <;> simp

theorem checkItemField_textJson {lo hi : ℕ} (key ik : JsString) (itemMax : ℕ) (t : Text lo hi) :
    checkItemField key ik itemMax (textJson t) = .ok () ↔ t.1.length ≤ itemMax := by
  simp [checkItemField, textJson]

theorem checkItemField_note {lo hi : ℕ} (key ik : JsString) (itemMax : ℕ) (x : Option (Text lo hi)) :
    (∀ iv, x.map textJson = some iv → checkItemField key ik itemMax iv = .ok ()) ↔ ∀ t, x = some t → t.1.length ≤ itemMax := by
  cases x with
  | none => simp
  | some t => simp [checkItemField_textJson]

/-- An entry of two required fields and an optional text. -/
theorem checkItem_three {a b c : JsString} (hn : [a, b, c].Nodup) {v w : Json} {note : Option (Text 0 MAX_NOTE_CHARS)}
    (key : JsString) (itemMax : ℕ) :
    checkItem key [a, b, c] itemMax (.obj ([(a, v), (b, w)] ++ optionalField c textJson note)) = .ok () ↔
      checkItemField key a itemMax v = .ok () ∧ checkItemField key b itemMax w = .ok () ∧
        ∀ t, note = some t → t.1.length ≤ itemMax := by
  have hs : strict [a, b, c] (.obj ([(a, v), (b, w)] ++ optionalField c textJson note)) = some () :=
    strict_cons (by simp) (strict_cons (by simp) (strict_optional (by simp)))
  simp only [nodup_cons, mem_cons, not_mem_nil, or_false, not_or] at hn
  rw [checkItem_iff hs]
  simp only [forall_mem_cons, List.cons_append, nil_append, get_cons, get_optional, if_true,
    hn.1.1, Ne.symm hn.1.1, hn.1.2, hn.2.1, if_false, Option.some.injEq, forall_eq', checkItemField_note,
    Ne.symm hn.1.2, Ne.symm hn.2.1]
  simp

theorem checkItem_command (c : Command) :
    checkItem (js "commands") [js "command", js "exitCode", js "note"] 2000 c.toJson = .ok () := by
  rw [Command.toJson, checkItem_three (by decide)]
  exact ⟨(checkItemField_textJson _ _ _ _).mpr c.command.2.2, rfl, fun t _ => t.2.2⟩

theorem checkItem_test (t : TestCase) : checkItem (js "tests") [js "name", js "result", js "note"] 2000 t.toJson = .ok () := by
  rw [TestCase.toJson, checkItem_three (by decide)]
  refine ⟨(checkItemField_textJson _ _ _ _).mpr (t.name.2.2.trans (by decide)), ?_, fun t _ => t.2.2⟩
  cases t.result <;> rfl

/-- A commit passes unless its subject is over the store's shorter bound. -/
theorem checkItem_commit (c : Commit) : checkItem (js "commits") [js "sha", js "repo", js "subject"] 1024 c.toJson = .ok () ↔
      ∀ t, c.subject = some t → t.1.length ≤ 1024 := by
  rw [Commit.toJson, checkItem_three (by decide)]
  have hsha : checkItemField (js "commits") (js "sha") 1024 (.str c.sha.1) = .ok () := by
    have h := c.sha.2
    simp only [SAFE_SHA, Bool.and_eq_true, decide_eq_true_eq] at h
    simp only [checkItemField, throwWhen_ok, decide_eq_false_iff_not]
    omega
  have hrepo := (checkItemField_textJson (js "commits") (js "repo") 1024 c.repo).mpr c.repo.2.2
  simp [hsha, hrepo]

/-- What the store asks of a block beyond the schema. -/
def StorableBlock (b : CompletionBlock) : Prop :=
  (∀ cs, b.commits = some cs → ∀ c ∈ cs.1, ∀ t, c.subject = some t → t.1.length ≤ 1024) ∧
    b.toJson.stringify.length ≤ COMPLETION_BLOCK_MAX_CHARS * 4

theorem validateStoredCompletion_block (b : CompletionBlock) : validateStoredCompletion b.toJson = .ok () ↔ StorableBlock b := by
  obtain ⟨h1, h2, h3, h4, h5, h6, h7, h8, h9⟩ := get_toJson b
  have hobj := ((strict_iff _ _).mp (strict_toJson b)).1
  have hcommands := (boundedArray_iff (le_refl 50) h4 [js "command", js "exitCode", js "note"] 2000).mpr
    fun xs _ c _ => checkItem_command c
  have htests := (boundedArray_iff (le_refl 100) h5 [js "name", js "result", js "note"] 2000).mpr
    fun xs _ t _ => checkItem_test t
  have hcommits := boundedArray_iff (le_refl 50) h6 [js "sha", js "repo", js "subject"] 1024
  simp only [checkItem_commit] at hcommits
  have hstatus : [some (.str (js "done")), some (.str (js "blocked")), some (.str (js "partial"))].contains
      (some (Json.str b.status.text)) = true := by
    cases b.status <;> decide
  have hreason : (some (Json.str b.status.text) = some (.str (js "blocked")) &&
      (match b.blockedReason.map textJson with
        | some (.str s) => decide (s.length = 0)
        | _ => true)) = false := by
    cases hs : b.status with
    | done | partially => exact Bool.and_eq_false_iff.mpr (.inl (by decide))
    | blocked =>
      obtain ⟨r, hr⟩ := Option.isSome_iff_exists.mp (b.reasoned hs)
      have hr1 := r.2.1
      simp only [hr, Option.map_some, textJson, Bool.and_eq_false_iff, decide_eq_false_iff_not]
      exact .inr (by omega)
  simp only [validateStoredCompletion, bind_ok, throwWhen_ok, hobj, Bool.not_true, keys_ok (strict_toJson b), h1, h2,
    ne_eq, not_true_eq_false, decide_false, hstatus, boundedField_ok (le_refl 2000) h3,
    boundedField_ok (le_refl 4000) h9, h9, hreason, hcommands, htests, hcommits,
    boundedStrings_ok (show MAX_PATH_CHARS ≤ 2000 by decide) (le_refl 200) h7,
    boundedStrings_ok (show MAX_NOTE_CHARS ≤ 2000 by decide) (le_refl 50) h8, true_and, decide_eq_false_iff_not, not_lt]
  rfl

/-! ## A parse error -/

def ErrorCode.text : ErrorCode → JsString
  | .NO_BLOCK => js "NO_BLOCK"
  | .UNCLOSED_FENCE => js "UNCLOSED_FENCE"
  | .OVERSIZED_BLOCK => js "OVERSIZED_BLOCK"
  | .MALFORMED_JSON => js "MALFORMED_JSON"
  | .SCHEMA_VIOLATION => js "SCHEMA_VIOLATION"

/-- A parse error as the object the receipt stores. -/
def errorJson (e : CompletionParseError) : Json :=
  .obj ([(js "code", .str (ErrorCode.text e.code)), (js "message", .str e.message)] ++
    optionalField (js "fieldPath") Json.str e.fieldPath)

/-- What the store asks of an error's texts. -/
def StorableError (e : CompletionParseError) : Prop :=
  0 < e.message.length ∧ e.message.length ≤ 2000 ∧ ∀ p, e.fieldPath = some p → p.length ≤ 500

theorem validateStoredCompletionError_error (e : CompletionParseError) :
    validateStoredCompletionError (errorJson e) = .ok () ↔ StorableError e := by
  have hs : strict [js "code", js "message", js "fieldPath"] (errorJson e) = some () :=
    strict_cons (by decide) (strict_cons (by decide) (strict_optional (by decide)))
  have hobj := ((strict_iff _ _).mp hs).1
  have h1 : (errorJson e).get (js "code") = some (.str (ErrorCode.text e.code)) := rfl
  have h2 : (errorJson e).get (js "message") = some (.str e.message) := rfl
  have h3 : (errorJson e).get (js "fieldPath") = e.fieldPath.map Json.str := by
    simp +decide only [errorJson, List.cons_append, nil_append, get_cons, get_optional, if_true, if_false]
  have hcode : (errorCodes.any fun c => some (Json.str (ErrorCode.text e.code)) = some (.str c)) = true := by
    cases e.code <;> decide
  simp only [validateStoredCompletionError, bind_ok, throwWhen_ok, hobj, Bool.not_true, keys_ok hs, h1, hcode, h2, h3,
    true_and, StorableError]
  cases e.fieldPath <;> simp [isString, longerThan, length_pos_iff, and_assoc]

end PiWebUi.RunReceipts
