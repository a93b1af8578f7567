/-
  PiWebUi.Completion.Schema — the child completion block and its schema
  (`completion/completion-schema.ts`, and the wire types of `types.ts`).

  A block's bounds are part of its type, so a value of `CompletionBlock` is a block
  the schema accepts. `completionBlockSchema` decodes a JSON value the way the
  declared schema does. zod itself is a parameter: `Zod.Documented` collects what the
  code relies on, that `safeParse` accepts what the schema declares and reports its
  default messages otherwise.
-/

import PiWebUi.Lib.Json

namespace PiWebUi.Completion

open Lib

/-! ## Bounds -/

def COMPLETION_SCHEMA_NAME : JsString := js "pi-completion/v1"
def COMPLETION_BLOCK_MAX_CHARS : ℕ := 16384
def COMPLETION_PARSE_WINDOW_CHARS : ℕ := 65536

def MAX_SUMMARY_CHARS : ℕ := 2000
def MAX_COMMANDS : ℕ := 50
def MAX_TEST_CASES : ℕ := 100
def MAX_COMMITS : ℕ := 50
def MAX_FILES : ℕ := 200
def MAX_ISSUES : ℕ := 50
def MAX_COMMAND_CHARS : ℕ := 2000
def MAX_NOTE_CHARS : ℕ := 2000
def MAX_NAME_CHARS : ℕ := 500
def MAX_PATH_CHARS : ℕ := 1024
def MAX_REASON_CHARS : ℕ := 4000

/-- `/^[0-9a-f]{7,64}$/i`. -/
def SAFE_SHA (s : JsString) : Bool :=
  7 ≤ s.length && s.length ≤ 64 && s.all fun u => isDigit u || (97 ≤ u && u ≤ 102) || (65 ≤ u && u ≤ 70)

/-! ## The block -/

/-- A string of at least `lo` and at most `hi` code units. -/
abbrev Text (lo hi : ℕ) := { s : JsString // lo ≤ s.length ∧ s.length ≤ hi }

/-- An array of at most `n` elements. -/
abbrev Capped (α : Type) (n : ℕ) := { xs : List α // xs.length ≤ n }

inductive CompletionStatus where
  | done
  | blocked
  | partially
  deriving DecidableEq

inductive TestResult where
  | pass
  | fail
  | skip
  deriving DecidableEq

structure Command where
  command : Text 1 MAX_COMMAND_CHARS
  exitCode : Fin 256
  note : Option (Text 0 MAX_NOTE_CHARS)
  deriving DecidableEq

structure TestCase where
  name : Text 1 MAX_NAME_CHARS
  result : TestResult
  note : Option (Text 0 MAX_NOTE_CHARS)
  deriving DecidableEq

structure Commit where
  sha : { s : JsString // SAFE_SHA s }
  repo : Text 1 MAX_PATH_CHARS
  subject : Option (Text 0 MAX_NOTE_CHARS)
  deriving DecidableEq

structure CompletionBlock where
  status : CompletionStatus
  summary : Option (Text 0 MAX_SUMMARY_CHARS)
  commands : Option (Capped Command MAX_COMMANDS)
  tests : Option (Capped TestCase MAX_TEST_CASES)
  commits : Option (Capped Commit MAX_COMMITS)
  filesChanged : Option (Capped (Text 1 MAX_PATH_CHARS) MAX_FILES)
  openIssues : Option (Capped (Text 1 MAX_NOTE_CHARS) MAX_ISSUES)
  blockedReason : Option (Text 1 MAX_REASON_CHARS)
  /-- The schema's `refine`. -/
  reasoned : status = .blocked → blockedReason.isSome
  deriving DecidableEq

/-! ## As JSON -/

def CompletionStatus.text : CompletionStatus → JsString
  | done => js "done"
  | blocked => js "blocked"
  | partially => js "partial"

def TestResult.text : TestResult → JsString
  | pass => js "pass"
  | fail => js "fail"
  | skip => js "skip"

/-- A property that is present only when its value is. -/
def optionalField {α : Type} (key : JsString) (toJson : α → Json) (v : Option α) : List (JsString × Json) :=
  v.toList.map fun x => (key, toJson x)

def textJson {lo hi : ℕ} (t : Text lo hi) : Json := .str t.1

def Command.toJson (c : Command) : Json :=
  .obj ([(js "command", textJson c.command), (js "exitCode", .num (.fin (c.exitCode.val : ℚ)))] ++
    optionalField (js "note") textJson c.note)

def TestCase.toJson (t : TestCase) : Json :=
  .obj ([(js "name", textJson t.name), (js "result", .str t.result.text)] ++
    optionalField (js "note") textJson t.note)

def Commit.toJson (c : Commit) : Json :=
  .obj ([(js "sha", .str c.sha.1), (js "repo", textJson c.repo)] ++ optionalField (js "subject") textJson c.subject)

def arrayJson {α : Type} {n : ℕ} (toJson : α → Json) (xs : Capped α n) : Json := .arr (xs.1.map toJson)

/-- The block zod returns: the declared keys, in the schema's order. -/
def CompletionBlock.toJson (b : CompletionBlock) : Json :=
  .obj ([(js "schema", .str COMPLETION_SCHEMA_NAME), (js "status", .str b.status.text)] ++
    optionalField (js "summary") textJson b.summary ++
    optionalField (js "commands") (arrayJson Command.toJson) b.commands ++
    optionalField (js "tests") (arrayJson TestCase.toJson) b.tests ++
    optionalField (js "commits") (arrayJson Commit.toJson) b.commits ++
    optionalField (js "filesChanged") (arrayJson textJson) b.filesChanged ++
    optionalField (js "openIssues") (arrayJson textJson) b.openIssues ++
    optionalField (js "blockedReason") textJson b.blockedReason)

/-! ## The declared schema -/

/-- `z.string().min(lo).max(hi)`. -/
def text (lo hi : ℕ) : Json → Option (Text lo hi)
  | .str s => if h : lo ≤ s.length ∧ s.length ≤ hi then some ⟨s, h⟩ else none
  | _ => none

/-- `z.number().int().min(0).max(255)`. -/
def exitCode : Json → Option (Fin 256)
  | .num (.fin q) => if h : q.den = 1 ∧ 0 ≤ q.num ∧ q.num ≤ 255 then some ⟨q.num.toNat, by omega⟩ else none
  | _ => none

/-- `z.string().regex(SAFE_SHA)`. -/
def sha : Json → Option { s : JsString // SAFE_SHA s }
  | .str s => if h : SAFE_SHA s then some ⟨s, h⟩ else none
  | _ => none

/-- `z.array(item).max(n)`. -/
def array {α : Type} (item : Json → Option α) (n : ℕ) : Json → Option (Capped α n)
  | .arr xs => do
    let ys ← xs.mapM item
    if h : ys.length ≤ n then some ⟨ys, h⟩ else none
  | _ => none

/-- `z.enum(values)`. -/
def enum {α : Type} (values : List α) (text : α → JsString) : Json → Option α
  | .str s => values.find? fun a => text a = s
  | _ => none

/-- `schema.optional()` under a key of an object. -/
def optional {α : Type} (schema : Json → Option α) (v : Json) (key : JsString) : Option (Option α) :=
  match v.get key with
  | none => some none
  | some w => (schema w).map some

/-- A required key of an object. -/
def required {α : Type} (schema : Json → Option α) (v : Json) (key : JsString) : Option α :=
  (v.get key).bind schema

/-- `.strict()`: an object without other keys. -/
def strict (shape : List JsString) : Json → Option Unit
  | .obj fields => if fields.all fun f => shape.contains f.1 then some () else none
  | _ => none

def commandKeys : List JsString := [js "command", js "exitCode", js "note"]

def commandSchema (v : Json) : Option Command := do
  strict commandKeys v
  some
    { command := ← required (text 1 MAX_COMMAND_CHARS) v (js "command")
      exitCode := ← required exitCode v (js "exitCode")
      note := ← optional (text 0 MAX_NOTE_CHARS) v (js "note") }

def testKeys : List JsString := [js "name", js "result", js "note"]

def testSchema (v : Json) : Option TestCase := do
  strict testKeys v
  some
    { name := ← required (text 1 MAX_NAME_CHARS) v (js "name")
      result := ← required (enum [.pass, .fail, .skip] TestResult.text) v (js "result")
      note := ← optional (text 0 MAX_NOTE_CHARS) v (js "note") }

def commitKeys : List JsString := [js "sha", js "repo", js "subject"]

def commitSchema (v : Json) : Option Commit := do
  strict commitKeys v
  some
    { sha := ← required sha v (js "sha")
      repo := ← required (text 1 MAX_PATH_CHARS) v (js "repo")
      subject := ← optional (text 0 MAX_NOTE_CHARS) v (js "subject") }

def blockKeys : List JsString :=
  [js "schema", js "status", js "summary", js "commands", js "tests", js "commits", js "filesChanged",
    js "openIssues", js "blockedReason"]

/-- `z.literal(COMPLETION_SCHEMA_NAME)`. -/
def schemaName : Json → Option Unit
  | .str s => if s = COMPLETION_SCHEMA_NAME then some () else none
  | _ => none

/-- The block a JSON value is, when the declared schema accepts it. -/
def completionBlockSchema (v : Json) : Option CompletionBlock := do
  strict blockKeys v
  required schemaName v (js "schema")
  let status ← required (enum [.done, .blocked, .partially] CompletionStatus.text) v (js "status")
  let summary ← optional (text 0 MAX_SUMMARY_CHARS) v (js "summary")
  let commands ← optional (array commandSchema MAX_COMMANDS) v (js "commands")
  let tests ← optional (array testSchema MAX_TEST_CASES) v (js "tests")
  let commits ← optional (array commitSchema MAX_COMMITS) v (js "commits")
  let filesChanged ← optional (array (text 1 MAX_PATH_CHARS) MAX_FILES) v (js "filesChanged")
  let openIssues ← optional (array (text 1 MAX_NOTE_CHARS) MAX_ISSUES) v (js "openIssues")
  let blockedReason ← optional (text 1 MAX_REASON_CHARS) v (js "blockedReason")
  if h : status = .blocked → blockedReason.isSome then
    some { status, summary, commands, tests, commits, filesChanged, openIssues, blockedReason, reasoned := h }
  else none

/-! ## zod -/

inductive PathSegment where
  | key (name : JsString)
  | index (i : ℕ)
  deriving DecidableEq

/-- `String(segment)`. -/
def PathSegment.text : PathSegment → JsString
  | key name => name
  | index i => JsNumber.natText i

inductive IssueCode where
  | unrecognized_keys (keys : List JsString)
  | invalid_enum_value (options : List JsString) (received : JsString)
  | other

structure ZodIssue where
  code : IssueCode
  path : List PathSegment
  message : JsString

/-- `completionBlockSchema.safeParse`: the block, or the error's issues. -/
abbrev Zod := Json → Except (List ZodIssue) CompletionBlock

/-- `joinValues(values, separator)`: each value between apostrophes. -/
def joinValues (values : List JsString) (separator : JsString) : JsString :=
  List.intercalate separator (values.map fun v => unit '\'' :: (v ++ [unit '\'']))

def unrecognizedKeysMessage (keys : List JsString) : JsString :=
  js "Unrecognized key(s) in object: " ++ joinValues keys (js ", ")

def invalidEnumValueMessage (options : List JsString) (received : JsString) : JsString :=
  js "Invalid enum value. Expected " ++ joinValues options (js " | ") ++ js ", received '" ++ received ++ js "'"

/-- The enums of the schema, by their options. -/
def declaredEnums : List (List JsString) :=
  [[js "done", js "blocked", js "partial"], [js "pass", js "fail", js "skip"]]

/-- A place of the schema: the block, a field of it, an element of that, or one of
    the element's fields. Array indices are below 2^32. -/
def declaredPath : List PathSegment → Prop
  | [] => True
  | [.key k] => k ∈ blockKeys
  | [.key k, .index i] => k ∈ blockKeys ∧ i < 2 ^ 32
  | [.key k, .index i, .key f] => k ∈ blockKeys ∧ i < 2 ^ 32 ∧ f ∈ commandKeys ++ testKeys ++ commitKeys
  | _ => False

/-- A default message for an issue of another kind is a short fixed text. -/
def MAX_OTHER_MESSAGE : ℕ := 200

/-- What an issue of `safeParse` says, with zod's default error map. -/
structure ZodIssue.Documented (issue : ZodIssue) : Prop where
  path : declaredPath issue.path
  keys : ∀ ks, issue.code = .unrecognized_keys ks → ks ≠ [] ∧ issue.message = unrecognizedKeysMessage ks
  enum : ∀ options received, issue.code = .invalid_enum_value options received →
    options ∈ declaredEnums ∧ issue.message = invalidEnumValueMessage options received
  other : issue.code = .other → 0 < issue.message.length ∧ issue.message.length ≤ MAX_OTHER_MESSAGE

/-- What the code relies on: `safeParse` succeeds on what the schema declares, with
    the declared keys of the value, and otherwise reports at least one issue. -/
structure Zod.Documented (z : Zod) : Prop where
  accepts : ∀ v b, z v = .ok b ↔ completionBlockSchema v = some b
  reports : ∀ v issues, z v = .error issues → issues ≠ []
  issue : ∀ v issues, z v = .error issues → ∀ i ∈ issues, i.Documented

/-- `firstIssuePath`. -/
def firstIssuePath (issues : List ZodIssue) : Option JsString :=
  match issues with
  | [] => none
  | issue :: _ =>
    match issue.code with
    | .unrecognized_keys keys => keys.head?
    | _ => if issue.path = [] then none else some (List.intercalate (js ".") (issue.path.map PathSegment.text))

structure Violation where
  fieldPath : Option JsString
  message : JsString

/-- `validateCompletionBlock`. -/
def validateCompletionBlock (z : Zod) (value : Json) : Except Violation CompletionBlock :=
  match z value with
  | .ok block => .ok block
  | .error issues => .error
      { fieldPath := firstIssuePath issues
        message := match issues with
          | issue :: _ => issue.message
          | [] => js "completion block failed schema validation" }

end PiWebUi.Completion
