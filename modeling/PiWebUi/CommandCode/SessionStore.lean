/-
  PiWebUi.CommandCode.SessionStore — the stored record of a Command Code session
  (server/src/command-code/command-code-session-store.ts).

  `validateRecord` goes through its checks in their order and answers with the error of the
  first that fails. An update is the patch on the stored record with the time of the write,
  and is kept when the record it gives passes them. A property is absent or of the type the
  record's interface gives it; numbers are any of the language's. `path.resolve`, the
  recognition of an ISO timestamp and the effort table are parameters.
-/

import PiWebUi.CommandCode.EventJournal
import PiWebUi.Lib.SafeInteger

namespace PiWebUi.CommandCode

open PiWebUi.Lib

structure CommandCodeSessionTokenUsage where
  input : JsNumber
  output : JsNumber
  cacheRead : JsNumber
  cacheWrite : JsNumber
  total : JsNumber
  deriving DecidableEq

structure LastResult where
  subtype : JsString
  stopReason : Option JsString := none
  exitCode : Option ℤ := none
  deriving DecidableEq

structure DroppedLineSample where
  lineNumber : JsNumber
  sample : JsString
  deriving DecidableEq

structure CommandCodeDiagnostics where
  suppressedDuplicateCount : JsNumber
  unknownEventTypes : List JsString
  droppedLineCount : Option JsNumber := none
  droppedLineSamples : Option (List DroppedLineSample) := none
  stderrTail : Option JsString := none
  protocolError : Option JsString := none
  nativeSessionId : Option JsString := none
  exitCode : Option ℤ := none
  signal : Option JsString := none
  terminationCause : Option JsString := none
  deriving DecidableEq

/-- `Partial<CommandCodeInternalSessionRecord>` -/
structure CommandCodeInternalSessionRecord where
  schemaVersion : Option JsNumber := none
  sessionId : Option JsString := none
  runtime : Option JsString := none
  nativeSessionId : Option JsString := none
  cwd : Option JsString := none
  modelSelector : Option JsString := none
  effort : Option JsString := none
  defaultEffort : Option JsString := none
  executionInstanceId : Option JsString := none
  createdAt : Option JsString := none
  updatedAt : Option JsString := none
  activeRunId : Option JsString := none
  eventJournalRef : Option JsString := none
  state : Option JsString := none
  lastResult : Option LastResult := none
  messageCount : Option JsNumber := none
  firstMessage : Option JsString := none
  lastMessage : Option JsString := none
  lastFinalText : Option JsString := none
  assistantMessages : Option JsNumber := none
  toolCalls : Option JsNumber := none
  tokenUsage : Option CommandCodeSessionTokenUsage := none
  lastRunTokenUsage : Option CommandCodeSessionTokenUsage := none
  diagnostics : Option CommandCodeDiagnostics := none
  deriving DecidableEq

/-- What the checks ask of code outside the store. -/
structure StoreParameters where
  /-- `path.resolve` -/
  resolve : JsString → JsString
  isIsoTimestamp : JsString → Bool
  /-- `commandCodeEffortSpec(model).effortLevels` -/
  effortLevels : JsString → List JsString

/-! ## The checks -/

def isLowerOrDigit (u : UInt16) : Bool := isDigit u || (97 ≤ u && u ≤ 122)

/-- At most 256 units of `/^[a-z0-9][a-z0-9._/:-]*$/` -/
def isValidCommandCodeRuntimeModel : JsString → Bool
  | [] => false
  | u :: us => us.length < 256 && isLowerOrDigit u && us.all fun v => isLowerOrDigit v || (js "._/:-").contains v

/-- `!id || id.length > 512 || /[\r\n]/.test(id)`, denied. -/
def isNativeSessionId (id : JsString) : Bool := id ≠ [] && id.length ≤ 512 && !id.any fun u => u = 13 || u = 10

/-- A count of at most a million. -/
def isCounter (x : JsNumber) : Bool := x.isCount && x.le (.fin (1000000 : ℕ))

def isSample (s : DroppedLineSample) : Bool := s.lineNumber.isSafeInteger && !s.lineNumber.lt (.fin (1 : ℕ)) && s.sample.length ≤ 200

def absentOr {α : Type} (p : α → Bool) (x : Option α) : Bool := x.all p

def presentAnd {α : Type} (p : α → Bool) (x : Option α) : Bool := x.any p

theorem absentOr_iff {α : Type} {p : α → Bool} {x : Option α} : absentOr p x = true ↔ ∀ a ∈ x, p a = true := by
  cases x with
  | none | some a => simp [absentOr]

/-- `!value`, denied. -/
def isPresent (x : Option JsString) : Bool := x.any (· ≠ [])

def CommandCodeDiagnostics.isValid (d : CommandCodeDiagnostics) : Bool :=
  d.suppressedDuplicateCount.isCount && d.unknownEventTypes.all (·.length ≤ 200) &&
    absentOr JsNumber.isCount d.droppedLineCount &&
    absentOr (fun samples => samples.length ≤ 5 && samples.all isSample) d.droppedLineSamples

def CommandCodeSessionTokenUsage.counts (u : CommandCodeSessionTokenUsage) : List JsNumber :=
  [u.input, u.output, u.cacheRead, u.cacheWrite, u.total]

def states : List JsString := ["created", "running", "idle", "failed", "aborted", "deleted"].map js

section

variable (P : StoreParameters) (r : CommandCodeInternalSessionRecord)

/-- The journal that belongs to a session. -/
def isJournalOf (ref sessionId : JsString) : Bool :=
  ref = js "events/" ++ sessionId ++ js ".jsonl" || ref = sessionId ++ js ".jsonl"

def isEffort (model : Option JsString) (effort : JsString) : Bool := (P.effortLevels (model.getD [])).contains effort

/-- Every check with the error of its failure. -/
def checks : List (Bool × String) := [
  (r.schemaVersion = some (.fin (1 : ℕ)) && r.runtime = some (js "commandcode") && presentAnd isSessionId r.sessionId,
    "Invalid Command Code session record identity"),
  (presentAnd isValidCommandCodeRuntimeModel r.modelSelector, "Invalid Command Code model binding"),
  (r.executionInstanceId = some (js "commandcode-default"), "Invalid Command Code execution instance"),
  (presentAnd (fun cwd => cwd.head? = some 47 && P.resolve cwd = cwd) r.cwd && isPresent r.eventJournalRef,
    "Invalid Command Code session record paths"),
  (presentAnd (isJournalOf · (r.sessionId.getD [])) r.eventJournalRef, "Invalid Command Code event journal binding"),
  (isPresent r.createdAt && isPresent r.updatedAt, "Invalid Command Code session record fields"),
  (absentOr isNativeSessionId r.nativeSessionId, "Invalid Command Code native session id"),
  (presentAnd isCounter r.messageCount, "Invalid Command Code message count"),
  (presentAnd (·.length ≤ 4000) r.firstMessage && absentOr (·.length ≤ 4000) r.lastMessage &&
    absentOr (·.length ≤ 20000) r.lastFinalText, "Invalid Command Code message snapshot"),
  (presentAnd P.isIsoTimestamp r.createdAt && presentAnd P.isIsoTimestamp r.updatedAt, "Invalid Command Code timestamps"),
  (absentOr CommandCodeDiagnostics.isValid r.diagnostics, "Invalid Command Code diagnostics"),
  (absentOr (fun d => absentOr (fun id => r.nativeSessionId = some id) d.nativeSessionId) r.diagnostics,
    "Command Code diagnostic native session binding drift"),
  (absentOr (fun d => absentOr (·.length ≤ 64000) d.stderrTail) r.diagnostics, "Invalid Command Code diagnostics"),
  (absentOr (isEffort P r.modelSelector) r.effort, "Invalid Command Code effort"),
  (absentOr (isEffort P r.modelSelector) r.defaultEffort, "Invalid Command Code default effort"),
  (presentAnd states.contains r.state, "Invalid Command Code session state"),
  (absentOr isCounter r.assistantMessages, "Invalid Command Code session counters"),
  (absentOr isCounter r.toolCalls, "Invalid Command Code session counters"),
  (absentOr (·.counts.all JsNumber.isCount) r.tokenUsage, "Invalid Command Code session usage"),
  (absentOr (fun u => u.total = u.input.add u.output) r.tokenUsage, "Invalid Command Code session usage total"),
  (absentOr (·.counts.all JsNumber.isCount) r.lastRunTokenUsage, "Invalid Command Code session usage"),
  (absentOr (fun u => u.total = u.input.add u.output) r.lastRunTokenUsage, "Invalid Command Code session usage total")]

def validateRecord : Except JsString CommandCodeInternalSessionRecord :=
  match (checks P r).find? (!·.1) with
  | some c => .error (js c.2)
  | none => .ok r

def Valid : Prop := ∀ c ∈ checks P r, c.1 = true

end

theorem validateRecord_ok {P : StoreParameters} {r stored : CommandCodeInternalSessionRecord} :
    validateRecord P r = .ok stored ↔ stored = r ∧ Valid P r := by
  unfold validateRecord
  cases hfirst : (checks P r).find? (!·.1) with
  | some c =>
    have hfails := List.find?_some hfirst
    constructor
    · intro h
      cases h
    · rintro ⟨_, hvalid⟩
      rw [hvalid c (List.mem_of_find?_eq_some hfirst)] at hfails
      cases hfails
  | none =>
    constructor
    · intro h
      cases h
      exact ⟨rfl, fun c hc => by simpa using List.find?_eq_none.mp hfirst c hc⟩
    · rintro ⟨rfl, _⟩
      rfl

/-- A usage that both of its checks accept. -/
def StoredUsage (u : CommandCodeSessionTokenUsage) : Prop :=
  u.counts.all JsNumber.isCount = true ∧ u.total = u.input.add u.output

/-- What the checks say of a record they accept. -/
structure Accepted (P : StoreParameters) (r : CommandCodeInternalSessionRecord) : Prop where
  identity : r.schemaVersion = some (.fin (1 : ℕ)) ∧ r.runtime = some (js "commandcode") ∧ presentAnd isSessionId r.sessionId = true
  model : presentAnd isValidCommandCodeRuntimeModel r.modelSelector = true
  executionInstance : r.executionInstanceId = some (js "commandcode-default")
  cwd : presentAnd (fun cwd => cwd.head? = some 47 && P.resolve cwd = cwd) r.cwd = true
  journalRef : isPresent r.eventJournalRef = true
  journal : presentAnd (isJournalOf · (r.sessionId.getD [])) r.eventJournalRef = true
  createdAt : isPresent r.createdAt = true ∧ presentAnd P.isIsoTimestamp r.createdAt = true
  updatedAt : isPresent r.updatedAt = true ∧ presentAnd P.isIsoTimestamp r.updatedAt = true
  native : absentOr isNativeSessionId r.nativeSessionId = true
  messageCount : presentAnd isCounter r.messageCount = true
  firstMessage : presentAnd (·.length ≤ 4000) r.firstMessage = true
  lastMessage : absentOr (·.length ≤ 4000) r.lastMessage = true
  lastFinalText : absentOr (·.length ≤ 20000) r.lastFinalText = true
  diagnostics : ∀ d ∈ r.diagnostics, d.isValid = true
  bound : ∀ d ∈ r.diagnostics, ∀ id ∈ d.nativeSessionId, r.nativeSessionId = some id
  stderrTail : ∀ d ∈ r.diagnostics, ∀ tail ∈ d.stderrTail, tail.length ≤ 64000
  effort : absentOr (isEffort P r.modelSelector) r.effort = true
  defaultEffort : absentOr (isEffort P r.modelSelector) r.defaultEffort = true
  state : presentAnd states.contains r.state = true
  assistantMessages : absentOr isCounter r.assistantMessages = true
  toolCalls : absentOr isCounter r.toolCalls = true
  tokenUsage : ∀ u ∈ r.tokenUsage, StoredUsage u
  lastRunTokenUsage : ∀ u ∈ r.lastRunTokenUsage, StoredUsage u

theorem valid_iff {P : StoreParameters} {r : CommandCodeInternalSessionRecord} : Valid P r ↔ Accepted P r := by
  have husage : ∀ x : Option CommandCodeSessionTokenUsage,
      (absentOr (·.counts.all JsNumber.isCount) x = true ∧ absentOr (fun u => u.total = u.input.add u.output) x = true) ↔
        ∀ u ∈ x, StoredUsage u := by
    intro x
    cases x with
    | none => simp [absentOr]
    | some u => simp [absentOr, StoredUsage]
  simp only [Valid, checks, List.forall_mem_cons, List.not_mem_nil, false_implies, implies_true, and_true, Bool.and_eq_true_iff,
    decide_eq_true_iff]
  constructor
  · rintro ⟨⟨⟨h1, h2⟩, h3⟩, h4, h5, ⟨h6, h7⟩, h8, ⟨h9, h10⟩, h11, h12, ⟨⟨h13, h14⟩, h15⟩, ⟨h16, h17⟩, h18, h19, h20, h21, h22, h23,
      h24, h25, h26, h27, h28, h29⟩
    exact {
      identity := ⟨h1, h2, h3⟩
      model := h4
      executionInstance := h5
      cwd := h6
      journalRef := h7
      journal := h8
      createdAt := ⟨h9, h16⟩
      updatedAt := ⟨h10, h17⟩
      native := h11
      messageCount := h12
      firstMessage := h13
      lastMessage := h14
      lastFinalText := h15
      diagnostics := absentOr_iff.mp h18
      bound := fun d hd id hid => of_decide_eq_true (absentOr_iff.mp (absentOr_iff.mp h19 d hd) id hid)
      stderrTail := fun d hd tail htail => of_decide_eq_true (absentOr_iff.mp (absentOr_iff.mp h20 d hd) tail htail)
      effort := h21
      defaultEffort := h22
      state := h23
      assistantMessages := h24
      toolCalls := h25
      tokenUsage := (husage _).mp ⟨h26, h27⟩
      lastRunTokenUsage := (husage _).mp ⟨h28, h29⟩ }
  · intro h
    obtain ⟨h1, h2, h3⟩ := h.identity
    obtain ⟨h26, h27⟩ := (husage _).mpr h.tokenUsage
    obtain ⟨h28, h29⟩ := (husage _).mpr h.lastRunTokenUsage
    refine ⟨⟨⟨h1, h2⟩, h3⟩, h.model, h.executionInstance, ⟨h.cwd, h.journalRef⟩, h.journal, ⟨h.createdAt.1, h.updatedAt.1⟩, h.native,
      h.messageCount, ⟨⟨h.firstMessage, h.lastMessage⟩, h.lastFinalText⟩, ⟨h.createdAt.2, h.updatedAt.2⟩,
      absentOr_iff.mpr h.diagnostics, ?_, ?_, h.effort, h.defaultEffort, h.state, h.assistantMessages, h.toolCalls, h26, h27, h28, h29⟩
    · exact absentOr_iff.mpr fun d hd => absentOr_iff.mpr fun id hid => decide_eq_true (h.bound d hd id hid)
    · exact absentOr_iff.mpr fun d hd => absentOr_iff.mpr fun tail htail => decide_eq_true (h.stderrTail d hd tail htail)

/-! ## Updates -/

/-- `CommandCodeSessionPatch`: what it does to a record's own properties. -/
abbrev CommandCodeSessionPatch := CommandCodeInternalSessionRecord → CommandCodeInternalSessionRecord

section

variable (P : StoreParameters) (now : JsString)

/-- `updateRecord` with a patch that binds nothing. -/
def updateRecord (current : CommandCodeInternalSessionRecord) (patch : CommandCodeSessionPatch) :
    Except JsString CommandCodeInternalSessionRecord :=
  validateRecord P { patch current with updatedAt := some now }

def updateNativeSession (current : CommandCodeInternalSessionRecord) (nativeSessionId : JsString) :
    Except JsString CommandCodeInternalSessionRecord :=
  if current.nativeSessionId.any (· ≠ nativeSessionId) then .error (js "Command Code native session id drift")
  else updateRecord P now current fun r => { r with nativeSessionId := some nativeSessionId }

/-- `others` are the other sessions' records. -/
def bindNativeSession (others : List CommandCodeInternalSessionRecord) (current : CommandCodeInternalSessionRecord)
    (nativeSessionId : JsString) : Except JsString CommandCodeInternalSessionRecord :=
  if !isNativeSessionId nativeSessionId then .error (js "Invalid Command Code native session id")
  else
    match others.find? (·.nativeSessionId = some nativeSessionId) with
    | some duplicate => .error (js "Command Code native session id is already bound to " ++ duplicate.sessionId.getD [])
    | none => updateNativeSession P now current nativeSessionId

end

end PiWebUi.CommandCode
