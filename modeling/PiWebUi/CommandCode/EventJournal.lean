/-
  PiWebUi.CommandCode.EventJournal — `CommandCodeEventJournal`: a session's events as lines
  of JSON in one file, appended to by `append` and replayed by `read`.

  The appends of a session wait for each other (`queue`). The one that runs checks the
  limits against the size of the file, then appends its line and a newline; its octets
  reach the disk in any portions (`write`), and the process may die at any moment
  (`crash`): what was queued is lost, what had reached the disk stays, and the journal is
  opened again over the same file. `attempts` is read by nothing: the appends that came
  past the limits, the newest first.
-/

import PiWebUi.NormalizedEvent
import PiWebUi.Lib.JsText
import PiWebUi.Lib.Utf8

namespace PiWebUi.CommandCode

open PiWebUi.Lib

/-! ## Redaction -/

def asciiLower (u : UInt16) : UInt16 := if 65 ≤ u && u ≤ 90 then u + 32 else u

/-- `word` matches at the head of `s`, whatever the case of its letters. -/
def startsWith (word s : JsString) : Bool := (s.take word.length).map asciiLower = word

/-- `token|secret|password|api[_-]?key` at the head of `s`: the length of the match. -/
def sensitiveWord (s : JsString) : Option ℕ :=
  if startsWith (js "token") s then some 5
  else if startsWith (js "secret") s then some 6
  else if startsWith (js "password") s then some 8
  else if startsWith (js "apikey") s then some 6
  else if startsWith (js "api_key") s || startsWith (js "api-key") s then some 7
  else none

/-- `SENSITIVE_STRING_KEY.test(key)`. -/
def isSensitiveStringKey (key : JsString) : Bool :=
  key.tails.any fun s => (sensitiveWord s).isSome || startsWith (js "auth") s

/-- `SENSITIVE_OBJECT_KEY.test(key)`: no `token`, but `credential`. -/
def isSensitiveObjectKey (key : JsString) : Bool :=
  key.tails.any fun s =>
    ((sensitiveWord s).isSome && !startsWith (js "token") s) || startsWith (js "auth") s || startsWith (js "credential") s

def isNumericString (value : JsString) : Bool := !value.isEmpty && value.all isDigit

/-- A regular expression at the head of what is left, after the unit `before`: the length of
    the match and what replaces it. -/
abbrev Matcher := Option UInt16 → JsString → Option (ℕ × JsString)

/-- `value.replace(m, ...)` for a global expression; `skip` units belong to the last match. -/
def replaceFrom (m : Matcher) : ℕ → Option UInt16 → JsString → JsString
  | _, _, [] => []
  | skip + 1, _, u :: r => replaceFrom m skip (some u) r
  | 0, before, u :: r =>
    match m before (u :: r) with
    | some (n + 1, text) => text ++ replaceFrom m n (some u) r
    | _ => u :: replaceFrom m 0 (some u) r

def REDACTED : JsString := js "[REDACTED]"

/-- `\s+\S+`: the lengths of both. -/
def spacedWord (s : JsString) : Option (ℕ × ℕ) :=
  let space := (s.takeWhile isWhiteSpace).length
  let word := ((s.drop space).takeWhile fun u => !isWhiteSpace u).length
  if space = 0 || word = 0 then none else some (space, word)

/-- `"[^"]*"|'[^']*'|\S+`: the length. -/
def secretValue (s : JsString) : Option ℕ :=
  let quoted (q : UInt16) : Option ℕ :=
    match s with
    | u :: r => if u = q then (r.findIdx? (· = q)).map (· + 2) else none
    | [] => none
  match quoted 34, quoted 39 with
  | some n, _ => some n
  | none, some n => some n
  | none, none =>
    let word := (s.takeWhile fun u => !isWhiteSpace u).length
    if word = 0 then none else some word

/-- `/Bearer\s+\S+/gi`. -/
def bearer : Matcher := fun _ s =>
  if startsWith (js "bearer") s then
    (spacedWord (s.drop 6)).map fun (space, word) => (6 + space + word, js "Bearer " ++ REDACTED)
  else none

/-- `/((?:token|...)\s*[=:]\s*)(?:"[^"]*"|'[^']*'|\S+)/gi`. -/
def assigned : Matcher := fun _ s =>
  match sensitiveWord s with
  | none => none
  | some n =>
    let space := ((s.drop n).takeWhile isWhiteSpace).length
    match s.drop (n + space) with
    | [] => none
    | u :: r =>
      if u = unit '=' || u = unit ':' then
        let head := n + space + 1 + (r.takeWhile isWhiteSpace).length
        (secretValue (s.drop head)).map fun value => (head + value, s.take head ++ REDACTED)
      else none

def isWordUnit (u : UInt16) : Bool := isDigit u || (97 ≤ asciiLower u && asciiLower u ≤ 122) || u = unit '_'

/-- `/(\b(?:token|...)\b\s+)(?:"[^"]*"|'[^']*'|\S+)/gi`. -/
def named : Matcher := fun before s =>
  if before.any isWordUnit then none
  else match sensitiveWord s with
    | none => none
    | some n =>
      let space := ((s.drop n).takeWhile isWhiteSpace).length
      if space = 0 then none
      else (secretValue (s.drop (n + space))).map fun value => (n + space + value, s.take (n + space) ++ REDACTED)

def redactSensitiveText (value : JsString) : JsString :=
  [bearer, assigned, named].foldl (fun value m => replaceFrom m 0 none value) value

def MAX_DEPTH : ℕ := 8
def MAX_TEXT : ℕ := 20000
def MAX_ITEMS : ℕ := 100

mutual
def redactValue : Json → ℕ → JsString → Json
  | .str value, depth, keyHint =>
    if depth > MAX_DEPTH then .str (js "[truncated]")
    else if isSensitiveStringKey keyHint && !isNumericString value then .str REDACTED
    else .str (redactSensitiveText (if value.length > MAX_TEXT then value.take MAX_TEXT ++ js "…" else value))
  | .arr items, depth, keyHint =>
    if depth > MAX_DEPTH then .str (js "[truncated]") else .arr (redactItems MAX_ITEMS items (depth + 1) keyHint)
  | .obj fields, depth, keyHint =>
    if depth > MAX_DEPTH then .str (js "[truncated]")
    else if depth > 0 && isSensitiveObjectKey keyHint then .str REDACTED
    else .obj (redactFields MAX_ITEMS fields (depth + 1))
  | value, depth, _ => if depth > MAX_DEPTH then .str (js "[truncated]") else value

/-- `value.slice(0, n).map(...)`. -/
def redactItems : ℕ → List Json → ℕ → JsString → List Json
  | 0, _, _, _ => []
  | _, [], _, _ => []
  | n + 1, item :: items, depth, keyHint => redactValue item depth keyHint :: redactItems n items depth keyHint

/-- The loop over `Object.entries(value).slice(0, n)`. -/
def redactFields : ℕ → List (JsString × Json) → ℕ → List (JsString × Json)
  | 0, _, _ => []
  | _, [], _ => []
  | n + 1, (key, item) :: fields, depth =>
    let value :=
      match item with
      | .str text =>
        if isSensitiveStringKey key && !isNumericString text then .str REDACTED else redactValue item depth key
      | .arr _ | .obj _ => if isSensitiveObjectKey key then .str REDACTED else redactValue item depth key
      | _ => redactValue item depth key
    (key, value) :: redactFields n fields depth
end

/-! ## The journal of a session -/

/-- `/^[-a-zA-Z0-9_]+$/`. -/
def isSessionId (value : JsString) : Bool := !value.isEmpty && value.all fun u => isWordUnit u || u = unit '-'

structure SessionId where
  text : JsString
  valid : isSessionId text = true

def validateSessionId (value : JsString) : Except JsString SessionId :=
  if h : isSessionId value = true then .ok ⟨value, h⟩ else .error (js "Invalid Command Code session id")

/-- The line an event is written as. -/
def lineOf (event : NormalizedEvent) : JsString := (redactValue event.toJson 0 []).stringify

/-- An append that came past the limits: whether it resolved, and whether its complete line,
    newline included, is on disk. -/
structure Attempt where
  event : NormalizedEvent
  resolved : Bool
  onDisk : Bool
deriving DecidableEq

/-- `writing`: the octets of the running append that have not reached the disk. -/
structure SessionJournal where
  sessionId : SessionId
  maxBytes : ℕ
  maxEventBytes : ℕ
  file : Option (List ℕ)
  queue : List NormalizedEvent
  writing : Option (List ℕ)
  attempts : List Attempt

inductive JournalEvent where
  | append (event : NormalizedEvent)
  /-- The first append of the queue makes its checks. -/
  | start
  /-- The next `n` octets of its line reach the disk. -/
  | write (n : ℕ)
  /-- `appendFile` has written everything. -/
  | finish
  | crash

namespace SessionJournal

def new (sessionId : SessionId) (maxBytes maxEventBytes : ℕ) : SessionJournal :=
  ⟨sessionId, maxBytes, maxEventBytes, none, [], none, []⟩

/-- `stat(filename).size`, 0 where there is no file. -/
def size (s : SessionJournal) : ℕ := (s.file.getD []).length

/-- The limit an append is refused for. -/
def refusal (s : SessionJournal) (event : NormalizedEvent) : Option JsString :=
  let line := lineOf event
  if utf8Length line > s.maxEventBytes then some (js "Command Code event exceeds journal event limit")
  else if s.size + utf8Length (line ++ [newline]) > s.maxBytes then some (js "Command Code event journal exceeds byte limit")
  else none

def append (s : SessionJournal) (event : NormalizedEvent) : SessionJournal := { s with queue := s.queue ++ [event] }

def start (s : SessionJournal) : SessionJournal :=
  match s.writing, s.queue with
  | none, event :: queue =>
    if (s.refusal event).isSome then { s with queue := queue }
    else
      { s with
        queue := queue
        writing := some (Utf8.encode (lineOf event ++ [newline]))
        attempts := ⟨event, false, false⟩ :: s.attempts }
  | _, _ => s

/-- Change the newest attempt. -/
def modifyNewest (s : SessionJournal) (f : Attempt → Attempt) : List Attempt := s.attempts.modifyHead f

def write (s : SessionJournal) (n : ℕ) : SessionJournal :=
  match s.writing with
  | none => s
  | some bytes =>
    { s with
      file := some (s.file.getD [] ++ bytes.take n)
      writing := some (bytes.drop n)
      attempts := s.modifyNewest fun a => { a with onDisk := (bytes.drop n).isEmpty } }

def finish (s : SessionJournal) : SessionJournal :=
  match s.writing with
  | some [] => { s with writing := none, attempts := s.modifyNewest fun a => { a with resolved := true } }
  | _ => s

def crash (s : SessionJournal) : SessionJournal := { s with queue := [], writing := none }

def step (s : SessionJournal) : JournalEvent → SessionJournal
  | .append event => s.append event
  | .start => s.start
  | .write n => s.write n
  | .finish => s.finish
  | .crash => s.crash

end SessionJournal

/-! ## Reading -/

def stripCarriageReturn (line : JsString) : JsString := if line.getLast? = some 13 then line.dropLast else line

/-- `content.split(/\r?\n/).slice(0, -1)`. -/
def completeLines (content : JsString) : List JsString := (lines content).dropLast.map stripCarriageReturn

/-- A line parsed and its shape checked; `none` where either throws. -/
def eventOf (line : JsString) : Option Json :=
  match Json.parse line with
  | some (.obj fields) =>
    match (Json.obj fields).get (js "type"), (Json.obj fields).get (js "timestamp") with
    | some (.str _), some (.num _) => some (.obj fields)
    | _, _ => none
  | _ => none

/-- The loop over the lines; `index` is that of the first. -/
def readLines : ℕ → List JsString → Except JsString (List Json)
  | _, [] => .ok []
  | index, line :: rest =>
    if trim line = [] then readLines (index + 1) rest
    else match eventOf line with
      | none => .error (js "Command Code event journal corruption at line " ++ JsNumber.natText (index + 1))
      | some event => (readLines (index + 1) rest).map (event :: ·)

namespace SessionJournal

/-- What `read` answers for the file as it is. -/
def read (s : SessionJournal) : Except JsString (List Json) :=
  match s.file with
  | none => .ok []
  | some bytes =>
    let content := Utf8.decode bytes
    if utf8Length content > s.maxBytes then .error (js "Command Code event journal exceeds byte limit")
    else readLines 0 (completeLines content)

/-- What reading back gives for an event. -/
def recorded (event : NormalizedEvent) : Json := (eventOf (lineOf event)).getD .null

/-- The appends whose complete line is on disk, in the order they ran. -/
def written (s : SessionJournal) : List Attempt := s.attempts.reverse.filter (·.onDisk)

/-- While the file is within the limit, `read` answers the events whose complete line is on
    disk, in order and each once, and these include every one whose append resolved. -/
def ReadsBack (s : SessionJournal) : Prop :=
  (s.size ≤ s.maxBytes → s.read = .ok (s.written.map fun a => recorded a.event)) ∧
    ∀ a ∈ s.attempts, a.resolved = true → a.onDisk = true

/-- The file is empty or ends with a newline: no append has left a part of its line. -/
def endsWhole (s : SessionJournal) : Bool := (s.file.getD []).getLast?.all (· = 10)

/-- A step that does not write onto a torn line, nor an event whose own line `read` refuses. -/
def OnWholeLines (s : SessionJournal) : JournalEvent → Prop
  | .start => ∀ event queue, s.writing = none → s.queue = event :: queue → s.refusal event = none →
      s.endsWhole = true ∧ (eventOf (lineOf event)).isSome = true
  | _ => True

end SessionJournal

end PiWebUi.CommandCode
