/-
  PiWebUi.Notifications.OptInStore — the opt-ins of the notification store, their
  canonical identity, and the migration to it.

  A call changes the opt-ins at once and asks for a write of what they are then; the
  writes of the file go one after the other. A write may have replaced the file or not
  when its promise settles, and it may resolve though it has not (a missing directory is
  swallowed). `init` reads the file again, if it fits (`fits` stands for the bound on its
  size).
-/

import Mathlib.Data.List.Lex
import Mathlib.Order.Lex
import PiWebUi.Lib.JsMap
import PiWebUi.Lib.RegExp

namespace PiWebUi.Notifications.OptIns

open Lib Lib.RegExp

/-! ## The identity of an opt-in -/

inductive NotificationOptInRuntime
  | pi
  | claude
  | opencode
  | antigravity
  | commandcode
  deriving DecidableEq

inductive OptInAccess
  | internal
  | browser
  deriving DecidableEq

structure OptInRecord where
  sessionId : JsString
  runtime : NotificationOptInRuntime
  sessionPath : JsString
  optedInAt : Option JsString
  label : Option JsString := none
  access : Option OptInAccess := none
  deriving DecidableEq

/-- `[0-9a-f]`, in any case. -/
def hex : Pattern := .unit fun u => isDigit u || (97 ≤ lower u && lower u ≤ 102)

def hexes (n : ℕ) : Pattern := .cat (List.replicate n hex)

def PI_UUID_RE : Pattern :=
  .seq (.group 1 (.cat [hexes 8, .word "-", hexes 4, .word "-", hexes 4, .word "-", hexes 4, .word "-", hexes 12]))
    (.cat [.word ".jsonl", .finish])

def piSessionIdFromPath (sessionPath : JsString) : Option JsString := (PI_UUID_RE.captures sessionPath).map (· 1)

def canonicalOptInId (runtime : NotificationOptInRuntime) (sessionId sessionPath : JsString) : JsString :=
  if runtime = .pi then (piSessionIdFromPath sessionPath).getD sessionId else sessionId

/-! ## The store -/

abbrev Records := JsMap JsString OptInRecord

/-- A write that has not settled, with what its caller puts back if it fails. -/
structure OptInWrite where
  key : JsString
  previous : Option OptInRecord
  /-- A key that `setOptIn` brought goes again. -/
  sets : Bool
  snapshot : Records
  deriving DecidableEq

structure OptInStore where
  optIns : Records
  file : Records
  writes : List OptInWrite := []
  deriving DecidableEq

/-- `written`: the file was replaced; `resolved`: the promise resolves. -/
structure WriteOutcome where
  written : Bool
  resolved : Bool
  deriving DecidableEq

/-- The records under their session ids. -/
def byId (records : List OptInRecord) : Records := records.foldl (fun m r => m.set r.sessionId r) .empty

inductive OptInCall
  | setOptIn (record : OptInRecord)
  | removeOptIn (sessionId : JsString)
  deriving DecidableEq

namespace OptInStore

variable (fits : Records → Bool)

def readOptIns (file : Records) : Records :=
  if fits file then byId (file.values.filter (·.sessionId ≠ [])) else .empty

def init (file : Records) : OptInStore := { optIns := readOptIns fits file, file }

def setOptIn (s : OptInStore) (record : OptInRecord) : OptInStore :=
  let optIns := s.optIns.set record.sessionId record
  { s with
    optIns
    writes := s.writes ++ [⟨record.sessionId, s.optIns.get record.sessionId, true, byId optIns.values⟩] }

def removeOptIn (s : OptInStore) (sessionId : JsString) : OptInStore :=
  let optIns := s.optIns.delete sessionId
  { s with
    optIns
    writes := s.writes ++ [⟨sessionId, s.optIns.get sessionId, false, byId optIns.values⟩] }

def call (s : OptInStore) : OptInCall → OptInStore
  | .setOptIn record => s.setOptIn record
  | .removeOptIn sessionId => s.removeOptIn sessionId

def rollback (optIns : Records) (w : OptInWrite) : Records :=
  match w.previous with
  | some previous => optIns.set w.key previous
  | none => if w.sets then optIns.delete w.key else optIns

/-- The oldest write is over. -/
def settle (s : OptInStore) (outcome : WriteOutcome) : OptInStore :=
  match s.writes with
  | [] => s
  | w :: writes =>
    { optIns := if outcome.resolved then s.optIns else rollback s.optIns w
      file := if outcome.written then w.snapshot else s.file
      writes }

end OptInStore

inductive OptInEvent
  | call (c : OptInCall)
  | settle (outcome : WriteOutcome)
  deriving DecidableEq

def OptInStore.step (s : OptInStore) : OptInEvent → OptInStore
  | .call c => s.call c
  | .settle outcome => s.settle outcome

/-! ## The migration -/

/-- `a >= b` of two strings. -/
def atLeast (a b : JsString) : Bool := decide (b.map (·.toNat) ≤ a.map (·.toNat))

def isNewer (a b : OptInRecord) : Bool := atLeast (a.optedInAt.getD []) (b.optedInAt.getD [])

structure Canonical where
  canonical : Records := .empty
  normalized : ℕ := 0
  deduped : ℕ := 0

def canonicalize (t : Canonical) (record : OptInRecord) : Canonical :=
  let id := canonicalOptInId record.runtime record.sessionId record.sessionPath
  let normalized := if id ≠ record.sessionId then t.normalized + 1 else t.normalized
  let incoming := if id = record.sessionId then record else { record with sessionId := id }
  match t.canonical.get id with
  | none => { t with canonical := t.canonical.set id incoming, normalized }
  | some existing =>
    { canonical := t.canonical.set id (if isNewer incoming existing then incoming else existing)
      normalized
      deduped := t.deduped + 1 }

/-- The calls the migration makes. -/
def migration (optIns : List OptInRecord) : List OptInCall :=
  let t := optIns.foldl canonicalize {}
  if t.normalized = 0 && t.deduped = 0 then []
  else
    (optIns.filter fun record => !t.canonical.has record.sessionId).map (fun record => .removeOptIn record.sessionId) ++
      t.canonical.values.map .setOptIn

namespace OptInStore

/-- The calls, one after the other: whether all of them returned. -/
def runCalls (s : OptInStore) : List OptInCall → List WriteOutcome → OptInStore × Bool
  | [], _ => (s, true)
  | _ :: _, [] => (s, false)
  | c :: calls, outcome :: outcomes =>
    let s := (s.call c).settle outcome
    if outcome.resolved then s.runCalls calls outcomes else (s, false)

def migrateOptIns (s : OptInStore) (outcomes : List WriteOutcome) : OptInStore × Bool :=
  s.runCalls (migration s.optIns.values) outcomes

/-- A start. -/
def attempt (fits : Records → Bool) (file : Records) (outcomes : List WriteOutcome) : OptInStore × Bool :=
  (init fits file).migrateOptIns outcomes

/-- What a start leaves in the file. -/
def leaves (fits : Records → Bool) (file : Records) (outcomes : List WriteOutcome) : Records :=
  (attempt fits file outcomes).1.file

/-- A start whose writes all land. -/
def migrated (fits : Records → Bool) (file : Records) : OptInStore :=
  (attempt fits file (List.replicate (migration (readOptIns fits file).values).length ⟨true, true⟩)).1

end OptInStore

end PiWebUi.Notifications.OptIns
