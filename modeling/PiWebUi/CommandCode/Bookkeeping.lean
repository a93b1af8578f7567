/-
  PiWebUi.CommandCode.Bookkeeping — what the end of a turn writes into the session's record
  (`sendPrompt`, command-code-service.ts).

  A turn writes its record when it starts, binds the native session it was answered for, and
  at its end adds its answer, its tool calls and its usage to the counts of the record that
  was read first. `bound` is the record the last write finds.
-/

import PiWebUi.CommandCode.EventAdapter
import PiWebUi.CommandCode.ParserCounts
import PiWebUi.CommandCode.Service
import PiWebUi.CommandCode.SessionStore

namespace PiWebUi.CommandCode

open PiWebUi.Lib List Option

/-! ## Diagnostics -/

/-- `/((?:token|secret|password|api[_-]?key)\s*[=:]\s*)\S+/gi` -/
def secretAssignment : Matcher := fun _ s =>
  match sensitiveWord s with
  | none => none
  | some n =>
    let space := ((s.drop n).takeWhile isWhiteSpace).length
    match s.drop (n + space) with
    | [] => none
    | u :: r =>
      if u = unit '=' || u = unit ':' then
        let head := n + space + 1 + (r.takeWhile isWhiteSpace).length
        let word := ((s.drop head).takeWhile fun u => !isWhiteSpace u).length
        if word = 0 then none else some (head + word, s.take head ++ REDACTED)
      else none

def scrubDiagnostic (value : JsString) : JsString :=
  ([bearer, secretAssignment].foldl (fun value m => replaceFrom m 0 none value) value).take 320

/-! ## A turn -/

structure TurnResult extends CommandCodeProcessRunResult ParsedCommandCodeOutput where
  stderrTail : JsString

/-- What `sendPrompt` knows at the end of a turn besides the record. -/
structure FinishedTurn where
  sessionId : JsString
  prompt : JsString
  runId : Option JsString
  result : TurnResult
  /-- What was adapted and emitted while the output came in. -/
  streamedEvents : List NormalizedEvent
  syntheticMessagePrefix : JsString
  observedAt : JsNumber
  abortRequested : Bool

def subtypeOf (terminal : Fields) : TerminalSubtype :=
  if textProperty terminal "subtype" = some (js "success") then .success
  else if textProperty terminal "subtype" = some (js "error") then .error
  else .max_turns

/-! ## Counts -/

def zeroUsage : CommandCodeSessionTokenUsage := ⟨.fin 0, .fin 0, .fin 0, .fin 0, .fin 0⟩

/-- Add one validated run usage to the session's cumulative usage. -/
def accumulateTokenUsage (current : Option CommandCodeSessionTokenUsage) (delta : Option CommandCodeTerminalTokenUsage) :
    Option CommandCodeSessionTokenUsage :=
  match delta with
  | none => current
  | some delta =>
    let base := current.getD zeroUsage
    let input := base.input.add delta.input
    let output := base.output.add delta.output
    if !input.isSafeInteger || !output.isSafeInteger then current
    else some {
      input, output
      cacheRead := base.cacheRead.add (delta.cacheRead.getD (.fin 0))
      cacheWrite := base.cacheWrite.add (delta.cacheWrite.getD (.fin 0))
      total := input.add output }

def countToolCalls (events : List NormalizedEvent) : ℕ := events.countP (·.type = js "tool_execution_start")

def lastRun (delta : CommandCodeTerminalTokenUsage) : CommandCodeSessionTokenUsage where
  input := delta.input
  output := delta.output
  cacheRead := delta.cacheRead.getD (.fin 0)
  cacheWrite := delta.cacheWrite.getD (.fin 0)
  total := delta.total

/-! ## The writes of a turn -/

def stateText : RecordState → JsString
  | .created => js "created"
  | .running => js "running"
  | .idle => js "idle"
  | .failed => js "failed"
  | .aborted => js "aborted"
  | .deleted => js "deleted"

def causeText : TerminationCause → JsString
  | .abort => js "abort"
  | .timeout => js "timeout"
  | .shutdown => js "shutdown"

section

variable (record : CommandCodeInternalSessionRecord) (t : FinishedTurn)

def adapted : Option CommandCodeAdaptedOutput :=
  t.result.parsed.map fun parsed => adaptCommandCodeOutput {
    sessionId := t.sessionId
    nativeSessionId := record.nativeSessionId
    events := parsed.events
    terminal := parsed.terminal
    unknownEventTypes := parsed.unknownEventTypes
    suppressedDuplicateCount := parsed.suppressedDuplicateCount
    bytes := parsed.bytes
    lineCount := parsed.lineCount
    observedAt := t.observedAt
    syntheticMessagePrefix := t.syntheticMessagePrefix }

/-- The native session the turn was answered for. -/
def answeredFor : Option JsString := Transcript.truthy ((adapted record t).bind (·.nativeSessionId))

def usageDelta : Option CommandCodeTerminalTokenUsage := (adapted record t).bind (·.tokenUsage)

def runToolCalls : ℕ := countToolCalls ((adapted record t).elim t.streamedEvents (·.events))

def completionError : Option TurnError :=
  if t.abortRequested then some (.runtime .interrupted)
  else classifyResult { t.result with parsed := t.result.parsed.map fun parsed => subtypeOf parsed.terminal }

def completedState : RecordState :=
  (Update.final (t.result.terminationCause = some .abort || t.abortRequested) (completionError t)).state

def lastResultOf (terminal : Fields) : LastResult where
  subtype := (textProperty terminal "subtype").getD []
  stopReason := Transcript.truthy (textProperty terminal "stopReason")
  exitCode := t.result.exitCode

def sampleOf (d : DroppedLine) : DroppedLineSample := ⟨.fin d.lineNumber, d.sample⟩

def turnDiagnostics : CommandCodeDiagnostics where
  suppressedDuplicateCount := .fin ((t.result.parsed.map (·.suppressedDuplicateCount)).getD 0 : ℕ)
  unknownEventTypes := (t.result.parsed.map (·.unknownEventTypes)).getD []
  droppedLineCount := ((t.result.parsed.map (·.droppedLineCount)).filter (· ≠ 0)).map fun n => .fin (n : ℕ)
  droppedLineSamples := ((t.result.parsed.map (·.droppedLineSamples)).filter (· ≠ [])).map (·.map sampleOf)
  stderrTail := (Transcript.truthy (some t.result.stderrTail)).map scrubDiagnostic
  protocolError := (Transcript.truthy t.result.protocolError).map scrubDiagnostic
  nativeSessionId := answeredFor record t
  exitCode := t.result.exitCode
  signal := t.result.signal
  terminationCause := t.result.terminationCause.map causeText

def runningPatch : CommandCodeSessionPatch := fun r =>
  { r with
    state := some (js "running")
    activeRunId := t.runId
    messageCount := record.messageCount.map (·.add (.fin (1 : ℕ)))
    firstMessage := some ((Transcript.truthy record.firstMessage).getD (t.prompt.take 4000))
    lastMessage := some (t.prompt.take 4000) }

/-- The update at the end of the turn. -/
def completionPatch : CommandCodeSessionPatch := fun r =>
  { r with
    state := some (stateText (completedState t))
    activeRunId := none
    lastResult := ((adapted record t).map fun a => lastResultOf t a.terminal).or r.lastResult
    lastFinalText := ((adapted record t).map fun a => scrubDiagnostic a.finalText).or r.lastFinalText
    assistantMessages := some ((record.assistantMessages.getD (.fin 0)).add (.fin (1 : ℕ)))
    toolCalls := some ((record.toolCalls.getD (.fin 0)).add (.fin (runToolCalls record t : ℕ)))
    tokenUsage := (accumulateTokenUsage record.tokenUsage (usageDelta record t)).or r.tokenUsage
    lastRunTokenUsage := ((usageDelta record t).map lastRun).or r.lastRunTokenUsage
    diagnostics := some (turnDiagnostics record t) }

variable (P : StoreParameters)

/-- The stored record the last update of the turn finds, when the start of the turn and the
    native session were stored. -/
def bound (started answered : JsString) (others : List CommandCodeInternalSessionRecord) :
    Except JsString CommandCodeInternalSessionRecord := do
  let running ← updateRecord P started record (runningPatch record t)
  match answeredFor record t with
  | some id => bindNativeSession P answered others running id
  | none => return running

end

/-! ## Counts are natural numbers -/

theorem isCount_coerceCount {v : Json} {x : JsNumber} (h : coerceCount v = some x) : x.isCount = true := by
  unfold coerceCount at h
  split at h
  · split at h
    · next hcount =>
      cases h
      exact hcount
    · cases h
  · dsimp only at h
    split at h
    · next hdigits =>
      cases h
      exact JsNumber.isCount_round (Bool.and_eq_true_iff.mp hdigits).2
    · cases h
  · cases h

theorem isCount_readConsistentCount {record : Fields} {keys : List String} {x : JsNumber}
    (h : readConsistentCount record keys = some x) : x.isCount = true := by
  unfold readConsistentCount at h
  split at h
  · next first rest hvalues =>
    split at h
    · cases h
      cases hpresent : keys.filterMap (property record) with
      | nil =>
        rw [hpresent] at hvalues
        cases hvalues
      | cons v vs =>
        rw [hpresent, mapM_cons] at hvalues
        obtain ⟨y, hy, hrest⟩ := bind_eq_some_iff.mp hvalues
        obtain ⟨ys, _, heq⟩ := bind_eq_some_iff.mp hrest
        cases heq
        exact isCount_coerceCount hy
    · cases h
  · cases h

structure CommandCodeTerminalTokenUsage.Counted (u : CommandCodeTerminalTokenUsage) : Prop where
  input : u.input.isCount = true
  output : u.output.isCount = true
  total : u.total = u.input.add u.output
  safe : u.total.isSafeInteger = true
  cacheRead : absentOr JsNumber.isCount u.cacheRead = true
  cacheWrite : absentOr JsNumber.isCount u.cacheWrite = true

theorem counted_normalize {value : Option Json} {u : CommandCodeTerminalTokenUsage}
    (h : normalizeCommandCodeTerminalTokenUsage value = some u) : u.Counted := by
  obtain ⟨usage, _, h⟩ := bind_eq_some_iff.mp h
  obtain ⟨input, hinput, h⟩ := bind_eq_some_iff.mp h
  obtain ⟨output, houtput, h⟩ := bind_eq_some_iff.mp h
  dsimp only at h
  split at h
  · next hsafe =>
    cases h
    exact {
      input := isCount_readConsistentCount hinput
      output := isCount_readConsistentCount houtput
      total := rfl
      safe := (Bool.and_eq_true_iff.mp hsafe).1
      cacheRead := absentOr_iff.mpr fun x hx => isCount_readConsistentCount hx
      cacheWrite := absentOr_iff.mpr fun x hx => isCount_readConsistentCount hx }
  · cases h

/-! ## What is stored -/

/-- A count's value. -/
def countOf (x : Option JsNumber) : ℕ :=
  match x with
  | some (.fin q) => q.num.natAbs
  | _ => 0

/-- Either the sum of input or of output is no safe integer, and the usage stays as it was, or
    every sum is one. -/
def UsageFits (current : Option CommandCodeSessionTokenUsage) (delta : CommandCodeTerminalTokenUsage) : Prop :=
  let sum (past : CommandCodeSessionTokenUsage → JsNumber) (now : Option JsNumber) : ℕ := countOf (current.map past) + countOf now
  2 ^ 53 ≤ sum (·.input) (some delta.input) ∨ 2 ^ 53 ≤ sum (·.output) (some delta.output) ∨
    sum (·.input) (some delta.input) + sum (·.output) (some delta.output) < 2 ^ 53 ∧
      sum (·.cacheRead) delta.cacheRead < 2 ^ 53 ∧ sum (·.cacheWrite) delta.cacheWrite < 2 ^ 53

structure Storable (record : CommandCodeInternalSessionRecord) (t : FinishedTurn) : Prop where
  assistantMessages : countOf record.assistantMessages < 1000000
  toolCalls : countOf record.toolCalls + runToolCalls record t ≤ 1000000
  usage : ∀ delta ∈ usageDelta record t, UsageFits record.tokenUsage delta

/-! ## Sums -/

theorem countOf_nat (n : ℕ) : countOf (some (.fin n)) = n := by
  show (n : ℚ).num.natAbs = n
  rw [Rat.num_natCast, Int.natAbs_natCast]

theorem eq_count {x : JsNumber} (h : x.isCount = true) : x = .fin (countOf (some x) : ℕ) := by
  obtain ⟨n, _, rfl⟩ := JsNumber.isCount_iff.mp h
  rw [countOf_nat]

/-- A count that may be absent is its value, and zero when it is. -/
theorem getD_count {x : Option JsNumber} (h : absentOr JsNumber.isCount x = true) : x.getD (.fin 0) = .fin (countOf x : ℕ) := by
  cases x with
  | none => simp [countOf]
  | some x => exact eq_count h

theorem isCounter_add {x : Option JsNumber} (h : absentOr isCounter x = true) (n : ℕ) :
    isCounter ((x.getD (.fin 0)).add (.fin n)) = true ↔ countOf x + n ≤ 1000000 := by
  have hcount : absentOr JsNumber.isCount x = true := by
    cases x with
    | none => rfl
    | some x => exact (Bool.and_eq_true_iff.mp h).1
  rw [getD_count hcount, isCounter, Bool.and_eq_true_iff, JsNumber.isCount_add]
  constructor
  · intro hsum
    rw [JsNumber.add_nat hsum.1, JsNumber.nat_le_nat] at hsum
    exact hsum.2
  · intro hsum
    have hsmall : countOf x + n < 2 ^ 53 := by omega
    rw [JsNumber.add_nat hsmall, JsNumber.nat_le_nat]
    exact ⟨hsmall, hsum⟩

/-- A field of the usage so far is its count, and zero when there is none. -/
theorem base_count {current : Option CommandCodeSessionTokenUsage} (h : ∀ u ∈ current, StoredUsage u)
    (field : CommandCodeSessionTokenUsage → JsNumber) (hzero : field zeroUsage = .fin 0) (hfield : ∀ u, field u ∈ u.counts) :
    field (current.getD zeroUsage) = .fin (countOf (current.map field) : ℕ) := by
  cases current with
  | none =>
    show field zeroUsage = _
    rw [hzero]
    simp [countOf]
  | some u => exact eq_count (all_eq_true.mp (h u rfl).1 _ (hfield u))

/-- Where the sums of input and of output are written, the other three decide. -/
theorem storedUsage_sums {i o r w a b c e : ℕ} (hi : i + a < 2 ^ 53) (ho : o + b < 2 ^ 53) : StoredUsage {
      input := (JsNumber.fin i).add (.fin a)
      output := (JsNumber.fin o).add (.fin b)
      cacheRead := (JsNumber.fin r).add (.fin c)
      cacheWrite := (JsNumber.fin w).add (.fin e)
      total := ((JsNumber.fin i).add (.fin a)).add ((JsNumber.fin o).add (.fin b)) } ↔
    (i + a) + (o + b) < 2 ^ 53 ∧ r + c < 2 ^ 53 ∧ w + e < 2 ^ 53 := by
  simp only [StoredUsage, CommandCodeSessionTokenUsage.counts, all_cons, all_nil, Bool.and_true, Bool.and_eq_true_iff,
    JsNumber.add_nat hi, JsNumber.add_nat ho, JsNumber.isCount_nat, JsNumber.isCount_add, and_true]
  constructor
  · rintro ⟨_, _, hr, hw, htotal⟩
    exact ⟨htotal, hr, hw⟩
  · rintro ⟨htotal, hr, hw⟩
    exact ⟨hi, ho, hr, hw, htotal⟩

theorem accumulated_iff {current : Option CommandCodeSessionTokenUsage} (hcurrent : ∀ u ∈ current, StoredUsage u)
    {d : CommandCodeTerminalTokenUsage} (hd : d.Counted) :
    (∀ u ∈ accumulateTokenUsage current (some d), StoredUsage u) ↔ UsageFits current d := by
  have hinput := base_count hcurrent (·.input) rfl fun u => by simp [CommandCodeSessionTokenUsage.counts]
  have houtput := base_count hcurrent (·.output) rfl fun u => by simp [CommandCodeSessionTokenUsage.counts]
  have hread := base_count hcurrent (·.cacheRead) rfl fun u => by simp [CommandCodeSessionTokenUsage.counts]
  have hwrite := base_count hcurrent (·.cacheWrite) rfl fun u => by simp [CommandCodeSessionTokenUsage.counts]
  have hin : d.input = .fin (countOf (some d.input) : ℕ) := eq_count hd.input
  have hout : d.output = .fin (countOf (some d.output) : ℕ) := eq_count hd.output
  have hcacheRead := getD_count hd.cacheRead
  have hcacheWrite := getD_count hd.cacheWrite
  simp only [UsageFits, accumulateTokenUsage, hinput, houtput, hread, hwrite, hcacheRead, hcacheWrite]
  rw [hin, hout, countOf_nat, countOf_nat]
  by_cases hi : countOf (current.map (·.input)) + countOf (some d.input) < 2 ^ 53
  · have hisafe := JsNumber.isSafeInteger_add.mpr hi
    by_cases ho : countOf (current.map (·.output)) + countOf (some d.output) < 2 ^ 53
    · have hosafe := JsNumber.isSafeInteger_add.mpr ho
      rw [hisafe, hosafe]
      have hsums := storedUsage_sums hi ho
        (r := countOf (current.map (·.cacheRead))) (c := countOf d.cacheRead) (w := countOf (current.map (·.cacheWrite))) (e := countOf d.cacheWrite)
      constructor
      · intro h
        exact .inr (.inr (hsums.mp (h _ rfl)))
      · intro h u hu
        cases hu
        rcases h with h | h | h
        · omega
        · omega
        · exact hsums.mpr h
    · have hosafe : ((JsNumber.fin (countOf (current.map (·.output)))).add (.fin (countOf (some d.output)))).isSafeInteger = false :=
        Bool.eq_false_iff.mpr fun h => ho (JsNumber.isSafeInteger_add.mp h)
      rw [hosafe, Bool.not_false, Bool.or_true, if_pos rfl]
      constructor
      · intro _
        exact .inr (.inl (not_lt.mp ho))
      · intro _
        exact hcurrent
  · have hisafe : ((JsNumber.fin (countOf (current.map (·.input)))).add (.fin (countOf (some d.input)))).isSafeInteger = false :=
      Bool.eq_false_iff.mpr fun h => hi (JsNumber.isSafeInteger_add.mp h)
    rw [hisafe, Bool.not_false, Bool.true_or, if_pos rfl]
    constructor
    · intro _
      exact .inl (not_lt.mp hi)
    · intro _
      exact hcurrent

/-! ## The last write -/

section

variable {P : StoreParameters} {record b : CommandCodeInternalSessionRecord} {t : FinishedTurn}

/-- What the last write finds: a valid record with the usage the turn began with, bound to the
    native session that answered. -/
structure FoundAtEnd (P : StoreParameters) (record : CommandCodeInternalSessionRecord) (t : FinishedTurn)
    (b : CommandCodeInternalSessionRecord) : Prop where
  valid : Valid P b
  tokenUsage : b.tokenUsage = record.tokenUsage
  native : ∀ id ∈ answeredFor record t, b.nativeSessionId = some id

theorem foundAtEnd {started answered : JsString} {others : List CommandCodeInternalSessionRecord}
    (h : bound record t P started answered others = .ok b) : FoundAtEnd P record t b := by
  obtain ⟨running, hrunning, h⟩ := bind_eq_ok.mp h
  obtain ⟨rfl, hvalid⟩ := validateRecord_ok.mp hrunning
  cases hanswered : answeredFor record t with
  | none =>
    rw [hanswered] at h
    cases h
    exact ⟨hvalid, rfl, fun id hid => absurd (hanswered.symm.trans hid) (by simp)⟩
  | some id =>
    rw [hanswered] at h
    simp only [bindNativeSession, updateNativeSession] at h
    split at h
    · cases h
    · split at h
      · cases h
      · split at h
        · cases h
        · obtain ⟨rfl, hvalid⟩ := validateRecord_ok.mp h
          refine ⟨hvalid, rfl, fun id' hid => ?_⟩
          cases hanswered.symm.trans hid
          rfl

theorem stateText_known (s : RecordState) : states.contains (stateText s) = true := by
  cases s <;> decide

theorem length_scrubDiagnostic (value : JsString) : (scrubDiagnostic value).length ≤ 320 := length_take_le _ _

theorem isSample_sampleOf {d : DroppedLine} (hline : 1 ≤ d.lineNumber) (hsafe : d.lineNumber < 2 ^ 53) (hcut : d.sample.length ≤ 200) :
    isSample (sampleOf d) = true := by
  have hle : ¬ (JsNumber.fin d.lineNumber).lt (.fin (1 : ℕ)) = true := by
    rw [JsNumber.nat_lt_nat]
    omega
  show (JsNumber.isSafeInteger _ && !JsNumber.lt _ _ && decide (d.sample.length ≤ 200)) = true
  rw [sampleOf, JsNumber.isSafeInteger_nat.mpr hsafe, Bool.eq_false_iff.mpr hle, decide_eq_true hcut]
  rfl

/-- What the parser reports passes. -/
theorem diagnostics_valid {lines : ℕ} (hlines : lines < 2 ^ 53) (hparsed : ∀ parsed ∈ t.result.parsed, parsed.Bounded lines) :
    (turnDiagnostics record t).isValid = true := by
  have hcount : ∀ {n : ℕ}, n ≤ lines → (JsNumber.fin n).isCount = true := by
    intro n hn
    exact JsNumber.isCount_nat.mpr (by omega)
  simp only [CommandCodeDiagnostics.isValid, Bool.and_eq_true_iff, absentOr_iff, turnDiagnostics]
  cases hp : t.result.parsed with
  | none =>
    refine ⟨⟨⟨hcount (Nat.zero_le _), rfl⟩, ?_⟩, ?_⟩
    · intro x hx
      cases hx
    · intro samples hsamples
      cases hsamples
  | some parsed =>
    have hb := hparsed parsed hp
    refine ⟨⟨⟨hcount hb.suppressed, ?_⟩, ?_⟩, ?_⟩
    · refine all_eq_true.mpr fun type htype => decide_eq_true ?_
      exact (hb.types type htype).trans (by omega)
    · intro x hx
      obtain ⟨n, hn, rfl⟩ := map_eq_some_iff.mp hx
      cases (filter_eq_some_iff.mp hn).1
      exact hcount hb.dropped
    · intro samples hsamples
      obtain ⟨kept, hkept, rfl⟩ := map_eq_some_iff.mp hsamples
      cases (filter_eq_some_iff.mp hkept).1
      rw [length_map]
      refine ⟨decide_eq_true hb.samples, all_eq_true.mpr fun s hs => ?_⟩
      obtain ⟨d, hd, rfl⟩ := mem_map.mp hs
      have hnumber := hb.numbered d hd
      exact isSample_sampleOf hnumber.1 (by omega) (hb.cut d hd)

/-- The usage of the run itself always passes. -/
theorem stored_lastRun {d : CommandCodeTerminalTokenUsage} (hd : d.Counted) : StoredUsage (lastRun d) := by
  have hzero : ∀ {x : Option JsNumber}, absentOr JsNumber.isCount x = true → (x.getD (.fin 0)).isCount = true := by
    intro x hx
    cases x with
    | none => exact JsNumber.isCount_nat.mpr (by norm_num)
    | some x => exact hx
  have htotal : d.total.isCount = true := by
    have hsafe := hd.safe
    rw [hd.total, eq_count hd.input, eq_count hd.output] at hsafe ⊢
    exact JsNumber.isCount_add.mpr (JsNumber.isSafeInteger_add.mp hsafe)
  refine ⟨?_, hd.total⟩
  simp only [lastRun, CommandCodeSessionTokenUsage.counts, all_cons, all_nil, Bool.and_true, Bool.and_eq_true_iff]
  exact ⟨hd.input, hd.output, hzero hd.cacheRead, hzero hd.cacheWrite, htotal⟩

theorem counted_usageDelta {d : CommandCodeTerminalTokenUsage} (h : d ∈ usageDelta record t) : d.Counted := by
  obtain ⟨a, ha, hd⟩ := bind_eq_some_iff.mp h
  obtain ⟨parsed, _, rfl⟩ := map_eq_some_iff.mp ha
  exact counted_normalize hd

/-- The record at the end of a turn passes the checks just when the turn's counts fit. -/
theorem accepted_completed_iff (hrecord : Accepted P record) (hfound : FoundAtEnd P record t b) {lines : ℕ} (hlines : lines < 2 ^ 53)
    (hparsed : ∀ parsed ∈ t.result.parsed, parsed.Bounded lines) {now : JsString} (hnow : now ≠ []) (hiso : P.isIsoTimestamp now = true) :
    Accepted P { completionPatch record t b with updatedAt := some now } ↔ Storable record t := by
  have hb := valid_iff.mp hfound.valid
  have husage : (∀ u ∈ (accumulateTokenUsage record.tokenUsage (usageDelta record t)).or b.tokenUsage, StoredUsage u) ↔
      ∀ delta ∈ usageDelta record t, UsageFits record.tokenUsage delta := by
    rw [hfound.tokenUsage]
    cases hdelta : usageDelta record t with
    | none =>
      have hkept : accumulateTokenUsage record.tokenUsage none = record.tokenUsage := rfl
      rw [hkept, Option.or_self]
      constructor
      · intro _ d hd
        cases hd
      · intro _
        exact hrecord.tokenUsage
    | some d =>
      have hfits := accumulated_iff hrecord.tokenUsage (counted_usageDelta hdelta)
      constructor
      · intro h d' hd'
        cases hd'
        exact hfits.mp fun u hu => h u (by rw [hu]; rfl)
      · intro h u hu
        cases hsum : accumulateTokenUsage record.tokenUsage (some d) with
        | none =>
          rw [hsum] at hu
          exact hrecord.tokenUsage u hu
        | some v =>
          rw [hsum] at hu
          exact hfits.mpr (h d rfl) u (hsum.trans hu)
  constructor
  · intro h
    exact {
      assistantMessages := by
        have := (isCounter_add hrecord.assistantMessages 1).mp h.assistantMessages
        omega
      toolCalls := (isCounter_add hrecord.toolCalls _).mp h.toolCalls
      usage := husage.mp h.tokenUsage }
  · intro h
    exact {
      identity := hb.identity
      model := hb.model
      executionInstance := hb.executionInstance
      cwd := hb.cwd
      journalRef := hb.journalRef
      journal := hb.journal
      createdAt := hb.createdAt
      updatedAt := ⟨decide_eq_true hnow, hiso⟩
      native := hb.native
      messageCount := hb.messageCount
      firstMessage := hb.firstMessage
      lastMessage := hb.lastMessage
      lastFinalText := by
        refine absentOr_iff.mpr fun text htext => ?_
        rcases or_eq_some_iff.mp htext with hnew | ⟨_, hold⟩
        · obtain ⟨a, _, rfl⟩ := map_eq_some_iff.mp hnew
          exact decide_eq_true ((length_scrubDiagnostic _).trans (by omega))
        · exact absentOr_iff.mp hb.lastFinalText text hold
      diagnostics := by
        intro d hd
        cases hd
        exact diagnostics_valid hlines hparsed
      bound := by
        intro d hd id hid
        cases hd
        exact hfound.native id hid
      stderrTail := by
        intro d hd tail htail
        cases hd
        obtain ⟨text, _, rfl⟩ := map_eq_some_iff.mp htail
        exact (length_scrubDiagnostic text).trans (by omega)
      effort := hb.effort
      defaultEffort := hb.defaultEffort
      state := stateText_known _
      assistantMessages := (isCounter_add hrecord.assistantMessages 1).mpr h.assistantMessages
      toolCalls := (isCounter_add hrecord.toolCalls _).mpr h.toolCalls
      tokenUsage := husage.mpr h.usage
      lastRunTokenUsage := by
        intro u hu
        rcases or_eq_some_iff.mp hu with hnew | ⟨_, hold⟩
        · obtain ⟨d, hd, rfl⟩ := map_eq_some_iff.mp hnew
          exact stored_lastRun (counted_usageDelta hd)
        · exact hb.lastRunTokenUsage u hold }

end

/-- The update at the end of a turn is accepted just when the turn's counts fit. -/
theorem completion_stored_iff {P : StoreParameters} {record b : CommandCodeInternalSessionRecord} {t : FinishedTurn}
    {started answered finished : JsString} {others : List CommandCodeInternalSessionRecord}
    (hrecord : validateRecord P record = .ok record)
    (hparsed : ∀ parsed ∈ t.result.parsed, ∃ chunks exitCode signal, CommandCodeNdjsonParser.run {} chunks exitCode signal = .ok parsed)
    (hbound : bound record t P started answered others = .ok b) (hnow : finished ≠ []) (hiso : P.isIsoTimestamp finished = true) :
    (∃ stored, updateRecord P finished b (completionPatch record t) = .ok stored) ↔ Storable record t := by
  have hlimits : ∀ parsed ∈ t.result.parsed, parsed.Bounded (8 * 1024 * 1024 + 1) := by
    intro parsed hp
    obtain ⟨chunks, exitCode, signal, hrun⟩ := hparsed parsed hp
    exact bounded_run hrun
  have haccepted := accepted_completed_iff (valid_iff.mp (validateRecord_ok.mp hrecord).2) (foundAtEnd hbound) (by norm_num) hlimits hnow hiso
  constructor
  · rintro ⟨stored, hstored⟩
    exact haccepted.mp (valid_iff.mp (validateRecord_ok.mp hstored).2)
  · intro h
    exact ⟨_, validateRecord_ok.mpr ⟨rfl, valid_iff.mpr (haccepted.mpr h)⟩⟩

/-! ## A turn whose usage does not fit -/

def midnight : JsString := js "2026-11-19T00:00:00.000Z"

def storeParameters : StoreParameters := ⟨id, (· = midnight), fun _ => []⟩

/-- An idle session with a usage. -/
def idleRecord (usage : Option CommandCodeSessionTokenUsage) : CommandCodeInternalSessionRecord where
  schemaVersion := some (.fin (1 : ℕ))
  sessionId := some (js "s")
  runtime := some (js "commandcode")
  cwd := some (js "/w")
  modelSelector := some (js "m")
  executionInstanceId := some (js "commandcode-default")
  createdAt := some midnight
  updatedAt := some midnight
  eventJournalRef := some (js "s.jsonl")
  state := some (js "idle")
  messageCount := some (.fin 0)
  firstMessage := some []
  tokenUsage := usage

def resultText : JsString :=
  js "\x7b\"type\":\"result\",\"subtype\":\"success\",\"usage\":\x7b\"input\":\"1\",\"output\":\"1\",\"cacheRead\":\"1\"\x7d\x7d\n"

def resultFrame : Fields := [
  (js "type", .str (js "result")), (js "subtype", .str (js "success")),
  (js "usage", .obj [(js "input", .str (js "1")), (js "output", .str (js "1")), (js "cacheRead", .str (js "1"))])]

def resultOutput : ParsedCommandCodeOutput := ⟨[], resultFrame, [], 0, 0, [], 89, 1⟩

theorem resultOutput_parsed : CommandCodeNdjsonParser.run {} [.text resultText] (some 0) none = .ok resultOutput := by
  decide +kernel

def finishedTurn : FinishedTurn where
  sessionId := js "s"
  prompt := js "hi"
  runId := none
  result := {
    parsed := some resultOutput
    exitCode := some 0
    signal := none
    terminationCause := none
    protocolError := none
    spawnError := none
    stderrTail := [] }
  streamedEvents := []
  syntheticMessagePrefix := js "commandcode-message-x-"
  observedAt := .fin 0
  abortRequested := false

def runningRecord (usage : Option CommandCodeSessionTokenUsage) : CommandCodeInternalSessionRecord :=
  { idleRecord usage with
    state := some (js "running")
    messageCount := some (.fin 1)
    firstMessage := some (js "hi")
    lastMessage := some (js "hi") }

theorem completion_stored_first :
    (∃ stored, updateRecord storeParameters midnight (runningRecord none) (completionPatch (idleRecord none) finishedTurn) = .ok stored) ↔
      Storable (idleRecord none) finishedTurn :=
  @completion_stored_iff storeParameters (idleRecord none) (runningRecord none) finishedTurn midnight midnight midnight []
    (by decide +kernel) (fun parsed hp => by cases hp; exact ⟨_, _, _, resultOutput_parsed⟩) (by decide +kernel) (by decide) (by decide)

/-- The largest safe integer has been read from the cache so far. -/
def fullCache : CommandCodeSessionTokenUsage := ⟨.fin 0, .fin 0, .fin (2 ^ 53 - 1 : ℕ), .fin 0, .fin 0⟩

theorem completion_rejected : validateRecord storeParameters (idleRecord (some fullCache)) = .ok (idleRecord (some fullCache)) ∧
    CommandCodeNdjsonParser.run {} [.text resultText] (some 0) none = .ok resultOutput ∧
    bound (idleRecord (some fullCache)) finishedTurn storeParameters midnight midnight [] = .ok (runningRecord (some fullCache)) ∧
    classifyResult { finishedTurn.result with parsed := some .success } = none ∧
    updateRecord storeParameters midnight (runningRecord (some fullCache)) (completionPatch (idleRecord (some fullCache)) finishedTurn) =
      .error (js "Invalid Command Code session usage") := by
  refine ⟨?_, resultOutput_parsed, ?_, ?_, ?_⟩ <;> decide +kernel

end PiWebUi.CommandCode
