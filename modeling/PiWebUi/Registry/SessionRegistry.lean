/-
  PiWebUi.Registry.SessionRegistry — the session registry in memory
  (server/src/session-registry.ts: `load`, the lookups, `upsert`, `patchSessionMeta`,
  `updateStatus`, `delete`).

  The entries are objects: the list and the five indexes hold references to them, an upsert
  puts a new object in the place of the old one, a patch writes into the object itself. An
  entry is its own properties in order, each a JSON value or undefined; a file may hold
  anything there.
-/

import PiWebUi.Lib.Json
import PiWebUi.Lib.FirstIndex

namespace PiWebUi.Registry

open PiWebUi.Lib

/-! ## Entries -/

abbrev RegistryEntry := JsMap JsString (Option Json)

namespace RegistryEntry

/-- The property, undefined when it is not there. -/
def value (e : RegistryEntry) (key : JsString) : Option Json := (e.get key).join

/-- `{ ...e, ...f }` -/
def spread (e f : RegistryEntry) : RegistryEntry := f.entries.foldl (fun m p => m.set p.1 p.2) e

def ofMembers (fields : List (JsString × Json)) : RegistryEntry := fields.foldl (fun m p => m.set p.1 (some p.2)) JsMap.empty

/-- Each property that is not undefined is written into the entry. -/
def assign (e : RegistryEntry) (properties : List (JsString × Option JsString)) : RegistryEntry :=
  properties.foldl (fun m p => match p.2 with | some v => m.set p.1 (some (.str v)) | none => m) e

end RegistryEntry

/-- `v ?? d` -/
def orElse (v : Option Json) (d : Json) : Option Json :=
  match v with
  | none | some .null => some d
  | some v => some v

/-- `===`. No two entries share an object. -/
def strictEq : Option Json → Option Json → Bool
  | some (.obj _), _ | some (.arr _), _ => false
  | v, w => v = w

/-- The keys the indexes are for. -/
inductive Field
  | id
  | path
  | claudeSessionId
  | opencodeSessionId
  | commandCodeNativeSessionId
  deriving DecidableEq

def Field.name : Field → JsString
  | .id => js "id"
  | .path => js "path"
  | .claudeSessionId => js "claudeSessionId"
  | .opencodeSessionId => js "opencodeSessionId"
  | .commandCodeNativeSessionId => js "commandCodeNativeSessionId"

def Field.all : List Field := [.id, .path, .claudeSessionId, .opencodeSessionId, .commandCodeNativeSessionId]

/-- The key an entry is indexed by: an empty path or native id is none. -/
def indexKey (f : Field) (e : RegistryEntry) : Option JsString :=
  match e.value f.name with
  | some (.str k) => if f = .id ∨ k ≠ [] then some k else none
  | _ => none

/-! ## The registry -/

structure SessionRegistry where
  /-- Every entry object made so far; a reference is a place in it. -/
  heap : List RegistryEntry := []
  entries : List ℕ := []
  /-- `indexById`, `indexByPath`, `indexByClaudeSessionId`, `indexByOpencodeSessionId`,
      `indexByCommandCodeNativeSessionId`. -/
  index : Field → JsMap JsString ℕ := fun _ => JsMap.empty
  outside : List ℕ := []

namespace SessionRegistry

def entryAt (r : SessionRegistry) (ref : ℕ) : RegistryEntry := r.heap.getD ref JsMap.empty

/-- The key of the object behind a reference. -/
def keyOf (r : SessionRegistry) (f : Field) (ref : ℕ) : Option JsString := indexKey f (r.entryAt ref)

def addEntryToIndexes (r : SessionRegistry) (ref : ℕ) : SessionRegistry :=
  { r with index := fun f => FirstIndex.add (r.keyOf f) (r.index f) ref }

def removeEntryFromIndexes (r : SessionRegistry) (ref : ℕ) : SessionRegistry :=
  { r with index := fun f => FirstIndex.remove (r.keyOf f) (r.index f) ref }

def rebuildIndexes (r : SessionRegistry) : SessionRegistry :=
  r.entries.foldl addEntryToIndexes { r with index := fun _ => JsMap.empty }

/-- Every entry left that shares a key with the removed one, or lacks one as it does. -/
def restoreIndexesAfterDelete (r : SessionRegistry) (removed : ℕ) : SessionRegistry :=
  let shares (candidate : ℕ) : Bool := Field.all.any fun f => strictEq ((r.entryAt candidate).value f.name) ((r.entryAt removed).value f.name)
  (r.entries.filter shares).foldl addEntryToIndexes r

/-! ## Loading -/

inductive Stored
  | missing
  | unreadable
  | content (raw : JsString)

/-- The members of each entry, if each is an object. -/
def entryMembers : List Json → Option (List RegistryEntry)
  | [] => some []
  | .obj fields :: rest => (entryMembers rest).map (RegistryEntry.ofMembers fields :: ·)
  | _ :: _ => none

def load : Stored → Option SessionRegistry
  | .missing => some (rebuildIndexes {})
  | .unreadable => none
  | .content raw =>
    match Json.parse raw with
    | some (.obj fields) =>
      match (Json.obj fields).get (js "version"), (Json.obj fields).get (js "entries") with
      | some (.num _), some (.arr items) =>
        (entryMembers items).map fun objects =>
          rebuildIndexes { heap := objects, entries := List.range objects.length }
      | _, _ => none
    | _ => none

/-! ## Lookups -/

def lookup (r : SessionRegistry) (f : Field) (key : JsString) : Option ℕ := (r.index f).get key

def get (r : SessionRegistry) (id : JsString) : Option ℕ := r.lookup .id id

def getByPath (r : SessionRegistry) (sessionPath : JsString) : Option ℕ := r.lookup .path sessionPath

def getByClaudeSessionId (r : SessionRegistry) (claudeSessionId : JsString) : Option ℕ := r.lookup .claudeSessionId claudeSessionId

def getByOpencodeSessionId (r : SessionRegistry) (opencodeSessionId : JsString) : Option ℕ := r.lookup .opencodeSessionId opencodeSessionId

def getByCommandCodeNativeSessionId (r : SessionRegistry) (commandCodeNativeSessionId : JsString) : Option ℕ :=
  r.lookup .commandCodeNativeSessionId commandCodeNativeSessionId

/-! ## Mutations -/

section

variable (now uuid : JsString)

/-- The entry the upsert is of: by id, then by path, then by each native id. -/
def resolve (r : SessionRegistry) (entry : RegistryEntry) : Option ℕ :=
  Field.all.findSome? fun f =>
    match entry.value f.name with
    | some (.str key) => if key = [] then none else r.lookup f key
    | _ => none

/-- The entry another session's native id is bound to. -/
def boundElsewhere (r : SessionRegistry) (entry : RegistryEntry) : Option ℕ :=
  if entry.value (js "sdkType") = some (.str (js "commandcode")) then
    match entry.value (js "commandCodeNativeSessionId") with
    | some (.str key) =>
      if key = [] then none
      else
        (r.getByCommandCodeNativeSessionId key).filter fun duplicate =>
          (r.entryAt duplicate).value (js "sdkType") = some (.str (js "commandcode")) &&
            !strictEq ((r.entryAt duplicate).value (js "id")) (entry.value (js "id")) &&
            !strictEq ((r.entryAt duplicate).value (js "path")) (entry.value (js "path"))
    | _ => none
  else none

def sessionClassPreserved (existing incoming : RegistryEntry) : RegistryEntry :=
  let validation : Option Json := some (.str (js "validation"))
  if existing.value (js "sessionClass") = validation ∨ incoming.value (js "sessionClass") = validation then
    JsMap.empty.set (js "sessionClass") validation
  else JsMap.empty

/-- `{ ...existing, ...entry, id: existing.id, updatedAt: now, lastActivity, ...sessionClassPreserved }` -/
def merged (existing entry : RegistryEntry) : RegistryEntry :=
  let updated : RegistryEntry := existing.spread entry
  let updated := updated.set (js "id") (existing.value (js "id"))
  let updated := updated.set (js "updatedAt") (some (.str now))
  let updated : RegistryEntry := updated.set (js "lastActivity") (orElse (entry.value (js "lastActivity")) (.str now))
  updated.spread (sessionClassPreserved existing entry)

def created (entry : RegistryEntry) : RegistryEntry :=
  let same (key : String) : JsString × Option Json := (js key, entry.value (js key))
  let default (key : String) (d : Json) : JsString × Option Json := (js key, orElse (entry.value (js key)) d)
  let agentOsCapture := entry.value (js "agentOsCapture")
  let validation : Option Json := some (.str (js "validation"))
  let properties := [default "id" (.str uuid), same "sdkType", default "path" (.str []), same "claudeSessionId",
    same "opencodeSessionId", same "commandCodeNativeSessionId", same "antigravityConversationId", same "nativeSessionId",
    same "parentSessionId", same "parentSource", same "cwd", same "model", same "thinkingLevel",
    default "firstMessage" (.str []), default "messageCount" (.num (.fin 0)), default "createdAt" (.str now),
    default "lastActivity" (.str now), default "status" (.str (js "idle")), same "origin", same "claudeProfileId",
    same "claudeProfileBackend", same "claudeProviderId"]
  let captured := match agentOsCapture with
    | some (.str s) => if s = [] then [] else [(js "agentOsCapture", agentOsCapture)]
    | _ => []
  let classed := if entry.value (js "sessionClass") = validation then [(js "sessionClass", validation)] else []
  (properties ++ captured ++ classed).foldl (fun m p => m.set p.1 p.2) JsMap.empty

/-- `registry.entries[registry.entries.indexOf(existing)] = updated` -/
def writeAt (r : SessionRegistry) (existing updated : ℕ) : SessionRegistry :=
  match r.entries.findIdx? (· = existing) with
  | some i => { r with entries := r.entries.set i updated }
  | none => { r with outside := r.outside ++ [updated] }

/-- `none` when the native id is bound to another session. -/
def upsert (r : SessionRegistry) (entry : RegistryEntry) : Option ℕ × SessionRegistry :=
  if (r.boundElsewhere entry).isSome then (none, r)
  else
    match r.resolve entry with
    | some existing =>
      let updated := r.heap.length
      let r := { r with heap := r.heap ++ [merged now (r.entryAt existing) entry] }
      (some updated, ((r.removeEntryFromIndexes existing).writeAt existing updated).addEntryToIndexes updated)
    | none =>
      let newEntry := r.heap.length
      let r := { r with heap := r.heap ++ [created now uuid entry], entries := r.entries ++ [newEntry] }
      (some newEntry, r.addEntryToIndexes newEntry)

def assign (r : SessionRegistry) (ref : ℕ) (properties : List (JsString × Option JsString)) : SessionRegistry :=
  { r with heap := r.heap.modify ref fun e => RegistryEntry.assign e properties }

structure MetaPatch where
  model : Option JsString := none
  thinkingLevel : Option JsString := none
  parentSessionId : Option JsString := none
  parentSource : Option JsString := none

def patchSessionMeta (r : SessionRegistry) (id : JsString) (patch : MetaPatch) : SessionRegistry :=
  match r.get id with
  | none => r
  | some ref =>
    r.assign ref [(js "model", patch.model), (js "thinkingLevel", patch.thinkingLevel),
      (js "parentSessionId", patch.parentSessionId), (js "parentSource", patch.parentSource), (js "lastActivity", some now)]

def updateStatus (r : SessionRegistry) (id status : JsString) : SessionRegistry :=
  match r.get id with
  | none => r
  | some ref => r.assign ref [(js "status", some status), (js "lastActivity", some now)]

def delete (r : SessionRegistry) (id : JsString) : SessionRegistry :=
  match r.get id with
  | none => r
  | some ref =>
    let r := { r with entries := r.entries.filter fun e => (r.entryAt e).value (js "id") ≠ some (Json.str id) }
    (r.removeEntryFromIndexes ref).restoreIndexesAfterDelete ref

end

end SessionRegistry

inductive RegistryCall
  | upsert (now uuid : JsString) (entry : RegistryEntry)
  | patchSessionMeta (now id : JsString) (patch : SessionRegistry.MetaPatch)
  | updateStatus (now id status : JsString)
  | delete (id : JsString)

def SessionRegistry.step (r : SessionRegistry) : RegistryCall → SessionRegistry
  | .upsert now uuid entry => (r.upsert now uuid entry).2
  | .patchSessionMeta now id patch => r.patchSessionMeta now id patch
  | .updateStatus now id status => r.updateStatus now id status
  | .delete id => r.delete id

/-- Whether the call gets to its `await this.save()`. -/
def SessionRegistry.saves (r : SessionRegistry) : RegistryCall → Bool
  | .upsert _ _ entry => !(r.boundElsewhere entry).isSome
  | .patchSessionMeta _ id _ | .updateStatus _ id _ | .delete id => (r.get id).isSome

end PiWebUi.Registry
