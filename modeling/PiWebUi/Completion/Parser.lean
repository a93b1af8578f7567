/-
  PiWebUi.Completion.Parser — finding a completion block in assistant text
  (`completion/completion-parser.ts`).

  `scanBlocks` is the line automaton: one fold over the lines, with the open fence as
  its state. `parseCompletionBlock` selects among the fences it found. The text of a
  `SyntaxError` is the engine's, so it is a parameter (`reason`).
-/

import PiWebUi.Completion.Schema

namespace PiWebUi.Completion

open Lib

inductive FenceClass where
  | completion
  | json
  | none
  deriving DecidableEq

structure RawBlock where
  fenceClass : FenceClass
  content : JsString
  complete : Bool
  deriving DecidableEq

/-! ## Fences -/

def backtick : UInt16 := 96

def isBlank (u : UInt16) : Bool := u = 32 || u = 9

/-- `[a-z0-9_-]`. -/
def isInfo (u : UInt16) : Bool := (97 ≤ u && u ≤ 122) || isDigit u || u = 95 || u = 45

/-- `OPENING_FENCE`: the length of the run of backticks, and the info string. -/
def openingFence (line : JsString) : Option (ℕ × JsString) :=
  let (spaces, r) := line.span (· = 32)
  let (ticks, r) := r.span (· = backtick)
  let (info, r) := (r.dropWhile isBlank).span isInfo
  if spaces.length ≤ 3 ∧ 3 ≤ ticks.length ∧ r.all isBlank then some (ticks.length, info) else none

/-- `CLOSING_FENCE(minLength)`. -/
def closingFence (minLength : ℕ) (line : JsString) : Bool :=
  let (spaces, r) := line.span (· = 32)
  let (ticks, r) := r.span (· = backtick)
  spaces.length ≤ 3 && minLength ≤ ticks.length && r.all isBlank

def fenceClassOf (info : JsString) : Option FenceClass :=
  if info = js "completion" then some .completion
  else if info = js "json" then some .json
  else if info = [] then some .none
  else none

/-- An opening fence of a class the parser knows. -/
def opens (line : JsString) : Option (FenceClass × ℕ) := do
  let (length, info) ← openingFence line
  let fenceClass ← fenceClassOf info
  some (fenceClass, length)

/-! ## The scan -/

/-- `openFenceClass`, `openFenceLength` and `current`. -/
structure OpenFence where
  fenceClass : FenceClass
  fenceLength : ℕ
  current : List JsString

structure Scan where
  blocks : List RawBlock
  openFence : Option OpenFence

def OpenFence.block (f : OpenFence) (complete : Bool) : RawBlock :=
  { fenceClass := f.fenceClass, content := joinLines f.current, complete }

def scanLine (st : Scan) (line : JsString) : Scan :=
  match st.openFence with
  | none => { st with openFence := (opens line).map fun (c, n) => ⟨c, n, []⟩ }
  | some f =>
    if closingFence f.fenceLength line then { blocks := st.blocks ++ [f.block true], openFence := none }
    else match opens line with
      | some (c, n) => { blocks := st.blocks ++ [f.block false], openFence := some ⟨c, n, []⟩ }
      | none =>
        let f := { f with current := f.current ++ [line] }
        -- an oversized candidate is closed at the cap
        if (joinLines f.current).length > COMPLETION_BLOCK_MAX_CHARS then
          { blocks := st.blocks ++ [f.block true], openFence := none }
        else { st with openFence := some f }

def Scan.finish (st : Scan) : List RawBlock :=
  match st.openFence with
  | none => st.blocks
  | some f => st.blocks ++ [f.block false]

def scanBlocks (text : JsString) : List RawBlock := ((lines text).foldl scanLine ⟨[], none⟩).finish

/-! ## Results -/

inductive ErrorCode where
  | NO_BLOCK
  | UNCLOSED_FENCE
  | OVERSIZED_BLOCK
  | MALFORMED_JSON
  | SCHEMA_VIOLATION
  deriving DecidableEq

structure CompletionParseError where
  code : ErrorCode
  message : JsString
  fieldPath : Option JsString := none
  deriving DecidableEq

inductive CompletionDelimiter where
  | completion
  | jsonTagged
  deriving DecidableEq

inductive CompletionParseResult where
  | ok (block : CompletionBlock) (delimiter : CompletionDelimiter)
  | error (e : CompletionParseError)
  deriving DecidableEq

def noBlock : CompletionParseError := { code := .NO_BLOCK, message := js "No ```completion block found" }

def unclosedFence : CompletionParseError :=
  { code := .UNCLOSED_FENCE, message := js "The last ```completion block was never closed" }

def oversizedBlock : CompletionParseError :=
  { code := .OVERSIZED_BLOCK
    message := js "Completion block exceeds the " ++ JsNumber.natText COMPLETION_BLOCK_MAX_CHARS ++
      js "-character cap" }

def malformedJson (reason : JsString) : CompletionParseError :=
  { code := .MALFORMED_JSON, message := js "Completion block is not valid JSON: " ++ reason }

def notAnObject : CompletionParseError :=
  { code := .MALFORMED_JSON, message := js "Completion block JSON must be an object" }

def schemaViolation (v : Violation) : CompletionParseError :=
  { code := .SCHEMA_VIOLATION, message := v.message, fieldPath := v.fieldPath }

/-! ## Selection -/

section

-- `z` validates; `reason content` is the text of the error `JSON.parse(content)` throws.
variable (z : Zod) (reason : JsString → JsString)

def carriesSchemaTag (value : Json) : Bool := value.get (js "schema") = some (.str COMPLETION_SCHEMA_NAME)

def isObject : Json → Bool
  | .obj _ => true
  | _ => false

/-- `completionOutcome`: what a complete `completion` fence decides. -/
def completionOutcome (candidate : RawBlock) : CompletionParseResult :=
  if candidate.content.length > COMPLETION_BLOCK_MAX_CHARS then .error oversizedBlock
  else match Json.parse candidate.content with
    | none => .error (malformedJson (reason candidate.content))
    | some value =>
      if !isObject value then .error notAnObject
      else match validateCompletionBlock z value with
        | .ok block => .ok block .completion
        | .error v => .error (schemaViolation v)

structure Selection where
  outcome : Option CompletionParseResult
  jsonErrorCandidate : Option RawBlock
  hasCompleteCompletionFence : Bool
  hasUnclosedCompletionFence : Bool

def Selection.empty : Selection := ⟨none, none, false, false⟩

def selectCandidate (st : Selection) (candidate : RawBlock) : Selection :=
  if !candidate.complete then
    if candidate.fenceClass = .completion then { st with hasUnclosedCompletionFence := true } else st
  else if candidate.fenceClass = .completion then
    { st with hasCompleteCompletionFence := true, outcome := some (completionOutcome z reason candidate) }
  -- a json or untagged fence: only the schema tag makes it a protocol attempt
  else if candidate.content.length > COMPLETION_BLOCK_MAX_CHARS then st
  else match Json.parse candidate.content with
    | none => if candidate.fenceClass = .json then { st with jsonErrorCandidate := some candidate } else st
    | some value =>
      if !carriesSchemaTag value then st
      else match validateCompletionBlock z value with
        | .ok block => { st with outcome := some (.ok block .jsonTagged) }
        | .error _ => { st with jsonErrorCandidate := some candidate }

/-- The error a remembered json or untagged candidate surfaces as. -/
def jsonError (candidate : RawBlock) : Option CompletionParseError :=
  match Json.parse candidate.content with
  | none => some (malformedJson (reason candidate.content))
  | some value =>
    match validateCompletionBlock z value with
    | .ok _ => none
    | .error v => some (schemaViolation v)

def Selection.result (st : Selection) : CompletionParseResult :=
  match st.outcome with
  | some outcome => outcome
  | none =>
    match if st.hasCompleteCompletionFence then none else st.jsonErrorCandidate.bind (jsonError z reason) with
    | some e => .error e
    | none => if st.hasUnclosedCompletionFence then .error unclosedFence else .error noBlock

def selectBlocks (blocks : List RawBlock) : CompletionParseResult :=
  (blocks.foldl (selectCandidate z reason) .empty).result z reason

/-- The last `COMPLETION_PARSE_WINDOW_CHARS` characters. -/
def scanWindow (text : JsString) : JsString := text.drop (text.length - COMPLETION_PARSE_WINDOW_CHARS)

def parseCompletionBlock (text : Option JsString) : CompletionParseResult :=
  match text with
  | none => .error noBlock
  | some text =>
    if text = [] then .error noBlock
    else
      let blocks := scanBlocks (scanWindow text)
      if blocks = [] then .error noBlock else selectBlocks z reason blocks

end

end PiWebUi.Completion
