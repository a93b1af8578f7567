/-
  PiWebUi.Watch.Conditions — the watch condition evaluator
  (watch/condition-evaluator.ts).

  A condition spec is validated and resolved at registration: it gets an id, its `once`
  default and its compiled regular expression. The engine reads every event of the
  session, keeps the assistant text of the turn, and reports the conditions the event
  matches. Regular expressions are a parameter (`RegExps`): `new` throws or compiles,
  `matchAll` lists the matches of a text; nothing is assumed of them.
-/

import Mathlib.Tactic.SplitIfs
import PiWebUi.NormalizedEvent
import PiWebUi.Lib.JsMap
import PiWebUi.Lib.JsText
import PiWebUi.Lib.JsonRoundTrip

namespace PiWebUi.Watch

open Lib Option

/-! ## Specs -/

/-- The fields have the types the request declares. An absent field is `none`; a value of
    another type in `eventType` or `afterSeconds`, which validation rejects as it rejects
    an absent one, is `none` too. -/
structure WatchConditionSpec where
  id : Option JsString := none
  type : JsString
  eventType : Option JsString := none
  dataMatch : Option (JsMap JsString Json) := none
  toolName : Option JsString := none
  phase : Option JsString := none
  argIncludes : Option JsString := none
  contains : Option JsString := none
  pattern : Option JsString := none
  patternFlags : Option JsString := none
  source : Option JsString := none
  afterSeconds : Option JsNumber := none
  once : Option Bool := none
  deriving DecidableEq

/-- One match of `matchAll`: where it starts and what it matched. -/
structure RegExpMatch where
  index : ℕ
  text : JsString

structure RegExps (ρ : Type) where
  /-- `new RegExp(pattern, flags)`. -/
  new : JsString → JsString → Except JsString ρ
  flags : ρ → JsString
  source : ρ → JsString
  matchAll : ρ → JsString → List RegExpMatch

structure ResolvedCondition (ρ : Type) where
  id : JsString
  type : JsString
  spec : WatchConditionSpec
  once : Bool
  regex : Option ρ

structure ConditionMatch where
  conditionId : JsString
  eventType : JsString
  evidence : JsString

def EVIDENCE_MAX : ℕ := 200

def DEADLINE_MIN_SECONDS : ℕ := 1

def DEADLINE_MAX_SECONDS : ℕ := 86400

def KNOWN_CONDITION_TYPES : List JsString := [js "event_type", js "tool", js "text", js "deadline"]

/-- A string that JavaScript takes as true: present and not empty. -/
def truthy : Option JsString → Option JsString
  | some (u :: r) => some (u :: r)
  | _ => none

def unknownType (type : JsString) : JsString :=
  js "unknown condition type \"" ++ type ++ js "\" — valid types are event_type, tool, text, deadline. " ++
  js "To watch an event, use \x7b \"type\": \"event_type\", \"eventType\": \"goal_end\" \x7d (the event name goal_end / goal_state / agent_end is the eventType field, not the type). " ++
  js "To watch text, use \x7b \"type\": \"text\", \"pattern\": \"…\" \x7d or contains."

def validateConditionSpec (spec : WatchConditionSpec) : Except JsString Unit :=
  if !(KNOWN_CONDITION_TYPES.contains spec.type) then .error (unknownType spec.type)
  else if spec.type = js "event_type" && (spec.eventType.all fun t => trim t = []) then
    .error (js "event_type conditions require a non-empty string eventType (e.g. \"agent_end\", \"goal_end\", \"goal_state\")")
  else if spec.type = js "text" && spec.contains.isNone && spec.pattern.isNone then
    .error (js "text conditions require contains or pattern — without one the condition can never match")
  else .ok ()

/-- `Number.isInteger` between the bounds. -/
def isDeadline : Option JsNumber → Bool
  | some (.fin q) => q.den = 1 && (DEADLINE_MIN_SECONDS : ℚ) ≤ q && q ≤ (DEADLINE_MAX_SECONDS : ℚ)
  | _ => false

def validateDeadlineSpec (spec : WatchConditionSpec) : Except JsString Unit :=
  if !isDeadline spec.afterSeconds then
    .error (js "deadline.afterSeconds must be an integer between 1 and 86400")
  else if spec.once = some false then
    .error (js "deadline conditions fire exactly once; once:false is not supported")
  else .ok ()

section Resolve

variable {ρ : Type} (R : RegExps ρ)

/-- `spec.id && spec.id.trim() ? spec.id.trim() : c<index>`. -/
def conditionId (spec : WatchConditionSpec) (index : ℕ) : JsString :=
  (truthy (spec.id.map trim)).getD (js "c" ++ JsNumber.natText index)

def compile (spec : WatchConditionSpec) : Except JsString (Option ρ) :=
  match if spec.type = js "text" then truthy spec.pattern else none with
  | some p => (R.new p (spec.patternFlags.getD (js "i"))).map some
  | none => .ok none

def resolveCondition (spec : WatchConditionSpec) (index : ℕ) : Except JsString (ResolvedCondition ρ) := do
  validateConditionSpec spec
  let id := conditionId spec index
  if spec.type = js "deadline" then validateDeadlineSpec spec
  let regex ← compile R spec
  return { id, type := spec.type, spec := { spec with id := some id }, once := spec.once != some false, regex }

def resolveFrom : ℕ → List WatchConditionSpec → Except JsString (List (ResolvedCondition ρ))
  | _, [] => .ok []
  | index, spec :: specs => do
    let c ← resolveCondition R spec index
    let cs ← resolveFrom (index + 1) specs
    return c :: cs

def resolveConditions (specs : List WatchConditionSpec) : Except JsString (List (ResolvedCondition ρ)) :=
  resolveFrom R 0 specs

/-- What resolving a spec at an index makes of it. -/
structure Resolves (spec : WatchConditionSpec) (index : ℕ) (c : ResolvedCondition ρ) : Prop where
  id_eq : c.id = conditionId spec index
  type_eq : c.type = spec.type
  spec_eq : c.spec = { spec with id := some (conditionId spec index) }
  once_eq : c.once = (spec.once != some false)
  regex_eq : compile R spec = .ok c.regex
  known : KNOWN_CONDITION_TYPES.contains spec.type = true
  named : spec.type = js "event_type" → spec.eventType.isSome = true
  due : spec.type = js "deadline" → isDeadline spec.afterSeconds = true ∧ spec.once ≠ some false

variable {spec : WatchConditionSpec} {c : ResolvedCondition ρ} {cs : List (ResolvedCondition ρ)}
  {specs : List WatchConditionSpec}

theorem validateConditionSpec_ok (h : validateConditionSpec spec = .ok ()) :
    KNOWN_CONDITION_TYPES.contains spec.type = true ∧ (spec.type = js "event_type" → spec.eventType.isSome = true) := by
  rw [validateConditionSpec] at h
  split_ifs at h with hk he
  refine ⟨by simpa using hk, fun ht => ?_⟩
  cases hs : spec.eventType with
  | none => simp [ht, hs] at he
  | some t => rfl

theorem validateDeadlineSpec_ok (h : validateDeadlineSpec spec = .ok ()) :
    isDeadline spec.afterSeconds = true ∧ spec.once ≠ some false := by
  rw [validateDeadlineSpec] at h
  split_ifs at h with hd ho
  exact ⟨by simpa using hd, ho⟩

theorem resolveCondition_ok {index : ℕ} : resolveCondition R spec index = .ok c ↔ validateConditionSpec spec = .ok () ∧
      (spec.type = js "deadline" → validateDeadlineSpec spec = .ok ()) ∧
      ∃ regex, compile R spec = .ok regex ∧
        c = { id := conditionId spec index, type := spec.type, spec := { spec with id := some (conditionId spec index) }
              once := spec.once != some false, regex } := by
  rw [resolveCondition]
  cases hv : validateConditionSpec spec with
  | error e => simp [bind, Except.bind]
  | ok u =>
    by_cases hd : spec.type = js "deadline"
    · cases hds : validateDeadlineSpec spec with
      | error e => simp [bind, Except.bind, hd]
      | ok u => cases hc : compile R spec <;> simp [bind, Except.bind, pure, Except.pure, hd, eq_comm]
    · cases hc : compile R spec <;> simp [bind, Except.bind, pure, Except.pure, hd, eq_comm]

theorem resolves {index : ℕ} (h : resolveCondition R spec index = .ok c) : Resolves R spec index c := by
  obtain ⟨hv, hd, regex, hr, rfl⟩ := (resolveCondition_ok R).mp h
  obtain ⟨hk, hn⟩ := validateConditionSpec_ok hv
  exact ⟨rfl, rfl, rfl, rfl, hr, hk, hn, fun ht => validateDeadlineSpec_ok (hd ht)⟩

theorem resolveFrom_cons {index : ℕ} : resolveFrom R index (spec :: specs) = .ok cs ↔
      ∃ c rest, resolveCondition R spec index = .ok c ∧ resolveFrom R (index + 1) specs = .ok rest ∧ cs = c :: rest := by
  rw [resolveFrom]
  cases hc : resolveCondition R spec index with
  | error e => simp [bind, Except.bind]
  | ok c => cases hr : resolveFrom R (index + 1) specs <;> simp [bind, Except.bind, pure, Except.pure, eq_comm]

theorem resolveFrom_get : ∀ {specs : List WatchConditionSpec} {index : ℕ} {cs : List (ResolvedCondition ρ)},
    resolveFrom R index specs = .ok cs → cs.length = specs.length ∧
      ∀ (k : ℕ) (c : ResolvedCondition ρ), cs[k]? = some c → ∃ spec, specs[k]? = some spec ∧ Resolves R spec (index + k) c
  | [], _, _, h => by
    cases h
    exact ⟨rfl, fun k c hc => by simp at hc⟩
  | spec :: specs, index, cs, h => by
    obtain ⟨c, rest, hc, hr, rfl⟩ := (resolveFrom_cons R).mp h
    obtain ⟨hlen, hget⟩ := resolveFrom_get hr
    refine ⟨by simp [hlen], fun k d hd => ?_⟩
    cases k with
    | zero =>
      cases hd
      exact ⟨spec, rfl, resolves R hc⟩
    | succ k =>
      obtain ⟨s, hs, hres⟩ := hget k d (by simpa using hd)
      exact ⟨s, by simpa using hs, by rwa [Nat.add_assoc, Nat.add_comm 1 k] at hres⟩

/-- Resolving keeps the positions. -/
theorem resolveConditions_get (h : resolveConditions R specs = .ok cs) : cs.length = specs.length ∧
      ∀ (k : ℕ) (c : ResolvedCondition ρ), cs[k]? = some c → ∃ spec, specs[k]? = some spec ∧ Resolves R spec k c := by
  obtain ⟨hlen, hget⟩ := resolveFrom_get R h
  exact ⟨hlen, fun k c hc => by simpa using hget k c hc⟩

/-- A resolved spec resolves again, whatever its index. -/
theorem resolveCondition_again {index : ℕ}
    (h : resolveCondition R spec index = .ok c) (j : ℕ) : ∃ c', resolveCondition R c.spec j = .ok c' := by
  obtain ⟨hv, hd, regex, hr, rfl⟩ := (resolveCondition_ok R).mp h
  exact ⟨_, (resolveCondition_ok R).mpr ⟨hv, hd, regex, hr, rfl⟩⟩

theorem resolveFrom_again : ∀ {specs : List WatchConditionSpec} {index : ℕ} {cs : List (ResolvedCondition ρ)},
    resolveFrom R index specs = .ok cs → ∀ j, ∃ cs', resolveFrom R j (cs.map (·.spec)) = .ok cs' ∧ cs'.length = cs.length
  | [], _, _, h, _ => by
    cases h
    exact ⟨[], rfl, rfl⟩
  | spec :: specs, index, cs, h, j => by
    obtain ⟨c, rest, hc, hr, rfl⟩ := (resolveFrom_cons R).mp h
    obtain ⟨c', hc'⟩ := resolveCondition_again R hc j
    obtain ⟨rest', hrest', hlen⟩ := resolveFrom_again hr (j + 1)
    exact ⟨c' :: rest', (resolveFrom_cons R).mpr ⟨c', rest', hc', hrest', rfl⟩, by simp [hlen]⟩

/-- The specs of a resolved list resolve again. -/
theorem resolveConditions_again (h : resolveConditions R specs = .ok cs) :
    ∃ cs', resolveConditions R (cs.map (·.spec)) = .ok cs' ∧ cs'.length = cs.length := resolveFrom_again R h 0

end Resolve

/-! ## What an event carries -/

def truncate (text : JsString) : JsString :=
  let clean := trim (collapseSpace text)
  if clean.length > EVIDENCE_MAX then clean.take (EVIDENCE_MAX - 1) ++ js "…" else clean

def stringOf : Option Json → Option JsString
  | some (.str s) => some s
  | _ => none

/-- `b.type === 'text' && b.text`. -/
def blockText (b : Json) : JsString :=
  if b.get (js "type") = some (.str (js "text")) then (stringOf (b.get (js "text"))).getD [] else []

def extractAssistantDelta (event : NormalizedEvent) : JsString :=
  if event.type ≠ NormalizedEvent.message_update ∧ event.type ≠ NormalizedEvent.message_start then []
  else
    match stringOf (member event.data (js "text")) with
    | some text => text
    | none =>
      let ame := member event.data (js "assistantMessageEvent")
      match if member ame (js "type") = some (.str (js "text_delta")) then stringOf (member ame (js "delta")) else none with
      | some delta => delta
      | none =>
        match member ame (js "content") with
        | some (.arr content) => content.flatMap blockText
        | _ => []

def extractAnyText (event : NormalizedEvent) : JsString :=
  match extractAssistantDelta event with
  | [] => ([js "text", js "result", js "message", js "summary", js "content"].findSome? fun key =>
      stringOf (member event.data key)).getD []
  | assistant => assistant

inductive Role where
  | user
  | assistant
  | unknown
  deriving DecidableEq

def roleOf (event : NormalizedEvent) : Role :=
  let nested := member (member event.data (js "message")) (js "role")
  let role : Option Json := match member event.data (js "role") with
    | some (.str r) => some (.str r)
    | _ => nested
  if role = some (.str (js "user")) then .user
  else if role = some (.str (js "assistant")) then .assistant
  else .unknown

/-- `a === b`: two objects or arrays that come from different texts are different. -/
def strictEq (a : Option Json) (b : Json) : Bool :=
  match a, b with
  | some .null, .null => true
  | some (.bool x), .bool y => x = y
  | some (.num x), .num y => x = y && x ≠ .nan
  | some (.str x), .str y => x = y
  | _, _ => false

def shallowDataMatch (event : NormalizedEvent) (m : JsMap JsString Json) : Bool :=
  m.entries.all fun e => strictEq (member event.data e.1) e.2

/-! ## The engine -/

/-- The engine's own state. User-role text never feeds the buffer; `previousLength` is the
    buffer's length before the current event's text. -/
structure ConditionEngine where
  assistantBuffer : JsString := []
  previousLength : ℕ := 0
  streamingUser : Bool := false
  deriving DecidableEq

section Engine

variable {ρ : Type} (R : RegExps ρ)

/-- The copy that `matchAll` searches with: the same source, with the flag `g`. -/
def globalCopy (regex : ρ) : Except JsString ρ :=
  R.new (R.source regex) (if (R.flags regex).contains (unit 'g') then R.flags regex else R.flags regex ++ js "g")

/-- The first match that ends after `newFrom`. -/
def matchText (cond : ResolvedCondition ρ) (haystack : JsString) (newFrom : ℕ) : Option JsString :=
  match truthy cond.spec.contains with
  | some needle =>
    let start := newFrom + 1 - needle.length
    if (indexFrom haystack needle start).isNone then none
    else some (truncate (js "…" ++ needle ++ js "…"))
  | none =>
    match cond.regex with
    | none => none
    | some regex =>
      match globalCopy R regex with
      | .error _ => none
      | .ok re =>
        ((R.matchAll re haystack).find? fun m => m.index + m.text.length > newFrom).map fun m =>
          truncate (((truthy (some m.text)).or (truthy cond.spec.pattern)).getD (js "match"))

def eventEvidence (event : NormalizedEvent) : JsString :=
  let data := member event.data
  let interruption := member (data (js "interruption"))
  if data (js "interruptedByRestart") = some (.bool true) then
    js "event " ++ event.type ++ js " (interrupted by restart: run " ++ Json.textOr (data (js "runId")) (js "unknown") ++
      js ", " ++ Json.textOr (data (js "interruptionReason")) (js "server_restart") ++ js ")"
  else if data (js "runNeverStarted") = some (.bool true) then
    js "event " ++ event.type ++ js " (run never started: run " ++ Json.textOr (data (js "runId")) (js "unknown") ++
      js ", start window " ++ Json.textOr (data (js "startWindowMs")) (js "unknown") ++ js "ms)"
  else if event.type = js "goal_state" ∧ data (js "autoContinued") = some (.bool true) then
    js "event goal_state (autoContinued: true, cause: " ++ Json.textOr (interruption (js "cause")) (js "unknown") ++
      js ", continueCount: " ++ Json.textOr (interruption (js "continueCount")) (js "unknown") ++ js ")"
  else if event.type = js "goal_state" ∧ data (js "pausedReason") = some (.str (js "interrupted")) then
    js "event goal_state (interrupted: cause " ++ Json.textOr (interruption (js "cause")) (js "unknown") ++
      js ", continueCount: " ++ Json.textOr (interruption (js "continueCount")) (js "0") ++ js ")"
  else js "event " ++ event.type

def wantPhase (spec : WatchConditionSpec) : JsString := spec.phase.getD (js "start")

/-- The tool call's payload as text. -/
def payloadText (payload : Option Json) : JsString :=
  match payload with
  | some (.str s) => s
  | none | some .null => Json.stringify (.str [])
  | some v => Json.stringify v

def matchTool (cond : ResolvedCondition ρ) (event : NormalizedEvent) : Option JsString :=
  let ended := wantPhase cond.spec = js "end"
  let toolName := stringOf (member event.data (js "toolName"))
  if event.type ≠ (if ended then js "tool_execution_end" else js "tool_execution_start") then none
  else if (truthy cond.spec.toolName).any (some · ≠ toolName) then none
  else
    let payload := member event.data (if ended then js "result" else js "args")
    if (truthy cond.spec.argIncludes).any (!includes (payloadText payload) ·) then none
    else some (truncate (toolName.getD (js "tool") ++ js " (" ++ wantPhase cond.spec ++ js ")"))

def matchEventType (cond : ResolvedCondition ρ) (event : NormalizedEvent) : Option JsString :=
  if some event.type ≠ cond.spec.eventType then none
  else if cond.spec.dataMatch.any (!shallowDataMatch event ·) then none
  else some (truncate (eventEvidence event))

/-- `extractAnyText(event) || delta`. -/
def haystackOf (event : NormalizedEvent) (delta : JsString) : JsString :=
  if extractAnyText event = [] then delta else extractAnyText event

/-- Assistant text is searched in the buffer, only when this event added text and only for a
    match that reaches into it. -/
def matchTextEvent (engine : ConditionEngine) (cond : ResolvedCondition ρ) (event : NormalizedEvent) (delta : JsString) :
    Option JsString :=
  if cond.spec.source = some (js "any") then
    if haystackOf event delta = [] then none else matchText R cond (haystackOf event delta) 0
  else if delta = [] then none
  else matchText R cond engine.assistantBuffer engine.previousLength

/-- The evidence when the condition matches the event, given the engine after it read the
    event and the event's assistant text. -/
def matchOne (engine : ConditionEngine) (cond : ResolvedCondition ρ) (event : NormalizedEvent) (delta : JsString) :
    Option JsString :=
  if cond.type = js "event_type" then matchEventType cond event
  else if cond.type = js "tool" then matchTool cond event
  else if cond.type = js "text" then matchTextEvent R engine cond event delta
  else none

/-- The engine and the event's assistant text after the event is read. -/
def read (engine : ConditionEngine) (event : NormalizedEvent) : ConditionEngine × JsString :=
  let started := event.type = js "agent_start"
  let buffer := if started then [] else engine.assistantBuffer
  let streaming := if started then false else engine.streamingUser
  let streaming := if event.type = NormalizedEvent.message_start then roleOf event = .user else streaming
  let userText := streaming || roleOf event = .user
  let delta := if userText then [] else extractAssistantDelta event
  let streaming := if event.type = NormalizedEvent.message_end then false else streaming
  ({ assistantBuffer := buffer ++ delta, previousLength := buffer.length, streamingUser := streaming }, delta)

def ingest (conditions : List (ResolvedCondition ρ)) (engine : ConditionEngine) (event : NormalizedEvent) :
    ConditionEngine × List ConditionMatch :=
  let (engine, delta) := read engine event
  (engine, conditions.filterMap fun cond =>
    (matchOne R engine cond event delta).map fun evidence => ⟨cond.id, event.type, evidence⟩)

/-- The matches reported of an event. -/
theorem mem_ingest {conditions : List (ResolvedCondition ρ)} {engine : ConditionEngine} {event : NormalizedEvent}
    {m : ConditionMatch} : m ∈ (ingest R conditions engine event).2 ↔ ∃ cond ∈ conditions, ∃ evidence,
      matchOne R (read engine event).1 cond event (read engine event).2 = some evidence ∧
        m = ⟨cond.id, event.type, evidence⟩ := by
  simp only [ingest, List.mem_filterMap, map_eq_some_iff]
  constructor
  all_goals
    rintro ⟨cond, hc, evidence, hev, rfl⟩
    exact ⟨cond, hc, evidence, hev, rfl⟩

/-! ## Conditions that can match -/

def Primitive : Json → Bool
  | .arr _ | .obj _ => false
  | .num x => x ≠ .nan
  | _ => true

/-- The pattern matches somewhere in some text, with a match that does not end at its start. -/
def PatternMatches (cond : ResolvedCondition ρ) : Prop :=
  ∃ regex re haystack m, cond.regex = some regex ∧ globalCopy R regex = .ok re ∧ haystack ≠ [] ∧
    m ∈ R.matchAll re haystack ∧ 0 < m.index + m.text.length

/-- An `event_type` condition asks for values that `===` can hold of; a `text` condition has a
    text to look for, or a pattern that some text matches. -/
def CanMatch (cond : ResolvedCondition ρ) : Prop :=
  (cond.type = js "event_type" → ∀ m, cond.spec.dataMatch = some m → ∀ e ∈ m.entries, Primitive e.2 = true) ∧
    (cond.type = js "text" → truthy cond.spec.contains = none → PatternMatches R cond)

theorem truthy_some {s t : JsString} (h : truthy (some s) = some t) : t = s ∧ s ≠ [] := by
  cases s with
  | nil => cases h
  | cons u r => exact ⟨(some.inj h).symm, by simp⟩

theorem truthy_eq_some {o : Option JsString} {t : JsString} (h : truthy o = some t) : o = some t ∧ t ≠ [] := by
  cases o with
  | none => cases h
  | some s =>
    obtain ⟨rfl, hne⟩ := truthy_some h
    exact ⟨rfl, hne⟩

theorem truthy_of_ne_nil {s : JsString} (h : s ≠ []) : truthy (some s) = some s := by
  cases s with
  | nil => exact absurd rfl h
  | cons u r => rfl

theorem strictEq_self {v : Json} (h : Primitive v = true) : strictEq (some v) v = true := by
  cases v with
  | arr _ | obj _ => cases h
  | num x => simpa [strictEq, Primitive] using h
  | _ => simp [strictEq]

theorem primitive_of_strictEq {o : Option Json} {v : Json} (h : strictEq o v = true) : Primitive v = true := by
  cases v with
  | arr _ | obj _ => cases o with
    | none => cases h
    | some w => cases w <;> cases h
  | num x => cases o with
    | none => cases h
    | some w =>
      cases w <;> simp [strictEq] at h
      simpa [Primitive, ← h.1] using h.2
  | _ => rfl

variable {cond : ResolvedCondition ρ}

/-- A text that contains what the condition looks for matches it, wherever the search starts. -/
theorem matchText_isSome {haystack : JsString} {newFrom : ℕ}
    (h : (matchText R cond haystack newFrom).isSome = true) : truthy cond.spec.contains = none →
      haystack ≠ [] → PatternMatches R cond := by
  intro hc hne
  simp only [matchText, hc] at h
  cases hr : cond.regex with
  | none => simp [hr] at h
  | some regex =>
    cases hg : globalCopy R regex with
    | error e => simp [hr, hg] at h
    | ok re =>
      simp only [hr, hg, isSome_map, List.find?_isSome] at h
      obtain ⟨m, hm, hend⟩ := h
      exact ⟨regex, re, haystack, m, hr, hg, hne, hm, by simp at hend; omega⟩

theorem matchOne_text (ht : cond.type = js "text") (engine : ConditionEngine) (event : NormalizedEvent) (delta : JsString) :
    matchOne R engine cond event delta = matchTextEvent R engine cond event delta := by
  rw [matchOne, if_neg (by rw [ht]; decide), if_neg (by rw [ht]; decide), if_pos ht]

/-- A condition that matches an event in some state of the engine can match. -/
theorem canMatch_of_matchOne {engine : ConditionEngine} {event : NormalizedEvent}
    (h : (matchOne R (read engine event).1 cond event (read engine event).2).isSome = true) : CanMatch R cond := by
  constructor
  · intro ht m hm e he
    rw [matchOne, if_pos ht, matchEventType] at h
    split_ifs at h with _ hall <;> cases h
    simp only [hm, any_some, Bool.not_eq_true', Bool.not_eq_false] at hall
    exact primitive_of_strictEq (List.all_eq_true.mp hall e he)
  · intro ht hc
    rw [matchOne_text R ht, matchTextEvent] at h
    split_ifs at h with _ hhay hdelta
    · cases h
    · exact matchText_isSome R h hc hhay
    · cases h
    · refine matchText_isSome R h hc fun hbuf => hdelta ?_
      simp only [read, List.append_eq_nil_iff] at hbuf
      exact hbuf.2

/-- The event a fresh engine is shown to make the condition match. -/
def matchingText (haystack : JsString) : NormalizedEvent :=
  { type := NormalizedEvent.message_update, data := some (.obj [(js "text", .str haystack)]) }

theorem extractAssistantDelta_matchingText (s : JsString) : extractAssistantDelta (matchingText s) = s := by
  simp [extractAssistantDelta, matchingText, member, Json.get, stringOf]

theorem roleOf_matchingText (s : JsString) : roleOf (matchingText s) = .unknown := by
  have h1 : js "text" ≠ js "role" := by decide
  have h2 : js "text" ≠ js "message" := by decide
  simp [roleOf, matchingText, member, Json.get, h1, h2]

theorem read_matchingText (s : JsString) :
    read {} (matchingText s) = ({ assistantBuffer := s, previousLength := 0, streamingUser := false }, s) := by
  have h1 : NormalizedEvent.message_update ≠ js "agent_start" := by decide
  have h2 : NormalizedEvent.message_update ≠ NormalizedEvent.message_start := by decide
  have h3 : NormalizedEvent.message_update ≠ NormalizedEvent.message_end := by decide
  simp only [read, roleOf_matchingText, extractAssistantDelta_matchingText]
  simp [matchingText, h1, h2, h3]

theorem matchOne_matchingText (ht : cond.type = js "text") {s : JsString} (hs : s ≠ []) :
    matchOne R (read {} (matchingText s)).1 cond (matchingText s) (read {} (matchingText s)).2 = matchText R cond s 0 := by
  have hany : extractAnyText (matchingText s) = s := by
    rw [extractAnyText, extractAssistantDelta_matchingText]
    cases s with
    | nil => exact absurd rfl hs
    | cons u r => rfl
  rw [matchOne_text R ht]
  simp only [matchTextEvent, haystackOf, read_matchingText, hany, hs, if_false, ite_self]

/-- A text condition that can match matches some text. -/
theorem exists_matchText (ht : cond.type = js "text") (h : CanMatch R cond) :
    ∃ s, s ≠ [] ∧ (matchText R cond s 0).isSome = true := by
  cases hc : truthy cond.spec.contains with
  | some needle =>
    obtain ⟨-, hne⟩ := truthy_eq_some hc
    refine ⟨needle, hne, ?_⟩
    have hlen : 0 + 1 - needle.length = 0 := by
      have := List.length_pos_iff.mpr hne
      omega
    have hfound : (indexFrom needle needle 0).isSome = true := includes_self needle
    simp only [matchText, hc, hlen]
    rw [if_neg (by simpa using isSome_iff_ne_none.mp hfound)]
    rfl
  | none =>
    obtain ⟨regex, re, haystack, m, hr, hg, hne, hm, hend⟩ := h.2 ht hc
    refine ⟨haystack, hne, ?_⟩
    simp only [matchText, hc, hr, hg, isSome_map, List.find?_isSome]
    exact ⟨m, hm, by simpa using hend⟩

/-- The event that carries what a tool condition asks for. -/
def matchingTool (spec : WatchConditionSpec) : NormalizedEvent :=
  { type := if wantPhase spec = js "end" then js "tool_execution_end" else js "tool_execution_start"
    data := some (.obj [(js "toolName", .str (spec.toolName.getD [])), (js "args", .str (spec.argIncludes.getD [])),
      (js "result", .str (spec.argIncludes.getD []))]) }

theorem matchTool_matchingTool (cond : ResolvedCondition ρ) : (matchTool cond (matchingTool cond.spec)).isSome = true := by
  have h1 : js "toolName" ≠ js "args" := by decide
  have h2 : js "toolName" ≠ js "result" := by decide
  have h3 : js "args" ≠ js "result" := by decide
  have htool : stringOf (member (matchingTool cond.spec).data (js "toolName")) = some (cond.spec.toolName.getD []) := by
    simp [matchingTool, member, Json.get, stringOf]
  have hargs : member (matchingTool cond.spec).data (if wantPhase cond.spec = js "end" then js "result" else js "args") =
      some (.str (cond.spec.argIncludes.getD [])) := by
    split_ifs <;> simp [matchingTool, member, Json.get, h1, h2, h3]
  have hname : (truthy cond.spec.toolName).any (some · ≠ some (cond.spec.toolName.getD [])) = false := by
    cases ht : truthy cond.spec.toolName with
    | none => rfl
    | some t => simp [(truthy_eq_some ht).1]
  have hincl : (truthy cond.spec.argIncludes).any (!includes (payloadText (some (.str (cond.spec.argIncludes.getD [])))) ·) =
      false := by
    cases ht : truthy cond.spec.argIncludes with
    | none => rfl
    | some t => simp [(truthy_eq_some ht).1, payloadText, includes_self]
  have htype : (matchingTool cond.spec).type =
      if wantPhase cond.spec = js "end" then js "tool_execution_end" else js "tool_execution_start" := rfl
  simp only [matchTool, htool, hname, hargs, hincl, Bool.false_eq_true, if_false, htype, ne_eq, not_true]
  rfl

def matchingEventType (spec : WatchConditionSpec) : NormalizedEvent :=
  { type := spec.eventType.getD [], data := some (.obj ((spec.dataMatch.getD JsMap.empty).entries)) }

theorem matchEventType_matchingEventType {t : JsString} (he : cond.spec.eventType = some t)
    (h : ∀ m, cond.spec.dataMatch = some m → ∀ e ∈ m.entries, Primitive e.2 = true) :
    (matchEventType cond (matchingEventType cond.spec)).isSome = true := by
  have hdata : cond.spec.dataMatch.any (!shallowDataMatch (matchingEventType cond.spec) ·) = false := by
    cases hm : cond.spec.dataMatch with
    | none => rfl
    | some m =>
      simp only [any_some, Bool.not_eq_false', shallowDataMatch, List.all_eq_true]
      intro e hmem
      have hget : member (matchingEventType cond.spec).data e.1 = some e.2 := by
        simp only [matchingEventType, hm, getD_some, member, bind_some]
        exact Json.get_of_mem m.nodup hmem
      rw [hget]
      exact strictEq_self (h m hm e hmem)
  have htype : some (matchingEventType cond.spec).type = cond.spec.eventType := by simp [matchingEventType, he]
  rw [matchEventType, if_neg (by simp [htype]), if_neg (by simp [hdata])]
  rfl

/-- A condition other than a deadline that can match matches some event on a fresh engine. -/
theorem matchOne_of_canMatch (h : CanMatch R cond)
    (hk : KNOWN_CONDITION_TYPES.contains cond.type = true) (hd : cond.type ≠ js "deadline")
    (he : cond.type = js "event_type" → cond.spec.eventType.isSome = true) :
    ∃ event, (matchOne R (read {} event).1 cond event (read {} event).2).isSome = true := by
  by_cases h1 : cond.type = js "event_type"
  · obtain ⟨t, ht⟩ := isSome_iff_exists.mp (he h1)
    exact ⟨matchingEventType cond.spec, by rw [matchOne, if_pos h1]; exact matchEventType_matchingEventType ht (h.1 h1)⟩
  by_cases h2 : cond.type = js "tool"
  · exact ⟨matchingTool cond.spec, by rw [matchOne, if_neg h1, if_pos h2]; exact matchTool_matchingTool cond⟩
  by_cases h3 : cond.type = js "text"
  · obtain ⟨s, hs, hm⟩ := exists_matchText R h3 h
    exact ⟨matchingText s, by rw [matchOne_matchingText R h3 hs]; exact hm⟩
  simp [KNOWN_CONDITION_TYPES, h1, h2, h3, hd] at hk

end Engine

end PiWebUi.Watch
