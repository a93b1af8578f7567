/-
  PiWebUi.Preferences.SessionMeta — the session records of the preferences and what
  writes them (server/src/routes/session-meta.ts, server/src/routes/preferences.ts).

  A record carries the flags of a session, the instant of its last write and the v1 key
  it came from. A delta sets or clears one field of one record (`Change`), under the key
  of a path or under a key sent as such; archiving also unpins. A whole-object patch
  merges the records of `migrateV1ToV2`. Instants are any linear order: they are compared
  and copied, nothing else.
-/

import PiWebUi.Lib.JsMap
import PiWebUi.Lib.JsText
import Mathlib.Order.WithBot

namespace PiWebUi.Preferences

open PiWebUi.Lib Option

/-! ## Keys -/

def isHex (u : UInt16) : Bool := isDigit u || (97 ≤ u && u ≤ 102) || (65 ≤ u && u ≤ 70)

/-- A character of the pattern, a letter in either case. -/
def letter (c : Char) (u : UInt16) : Bool := u = unit c || u = unit c.toUpper

/-- `/([0-9a-f]{8}-[0-9a-f]{4}-[0-9a-f]{4}-[0-9a-f]{4}-[0-9a-f]{12})\.jsonl$/i`, unit by unit. -/
def PI_UUID_RE : List (UInt16 → Bool) :=
  let hex : ℕ → List (UInt16 → Bool) := (List.replicate · isHex)
  let dash := [letter '-']
  hex 8 ++ dash ++ hex 4 ++ dash ++ hex 4 ++ dash ++ hex 4 ++ dash ++ hex 12 ++
    [letter '.', letter 'j', letter 's', letter 'o', letter 'n', letter 'l']

def piSessionIdFromPath (sessionPath : JsString) : Option JsString :=
  let tail := sessionPath.drop (sessionPath.length - PI_UUID_RE.length)
  if tail.length = PI_UUID_RE.length ∧ (List.zipWith (· ·) PI_UUID_RE tail).all id then some (tail.take 36) else none

structure V2Key where
  key : JsString
  runtime : JsString
  id : JsString
  deriving DecidableEq

/-- `resolveRuntime` is the answer of the session registry for an id or a path. -/
def toV2Key (legacyKey : JsString) (resolveRuntime : JsString → Option JsString) : V2Key :=
  match piSessionIdFromPath legacyKey with
  | some piId => ⟨js "pi:" ++ piId, js "pi", piId⟩
  | none =>
    match resolveRuntime legacyKey with
    | some rt =>
      if rt ≠ [] ∧ rt ≠ js "unknown" then ⟨rt ++ js ":" ++ legacyKey, rt, legacyKey⟩
      else ⟨js "unknown:" ++ legacyKey, js "unknown", legacyKey⟩
    | none => ⟨js "unknown:" ++ legacyKey, js "unknown", legacyKey⟩

/-! ## Records -/

/-- `archived` and `pinned` are present (and then `true`) or absent. -/
structure SessionMeta (τ : Type) where
  archived : Bool := false
  archivedAt : Option τ := none
  pinned : Bool := false
  displayName : Option JsString := none
  updatedAt : Option τ := none
  legacyKey : Option JsString := none
  deriving DecidableEq

abbrev Sessions (τ : Type) := JsMap JsString (SessionMeta τ)

inductive Field
  | archived
  | pinned
  | displayName
  deriving DecidableEq

variable {τ : Type} [LinearOrder τ]

/-- The instant is older than the record. -/
def staleFor (stored : SessionMeta τ) (now : τ) : Bool := stored.updatedAt.any (now < ·)

structure Merged (τ : Type) where
  record : SessionMeta τ
  changed : Bool

def applyLWW (stored : Option (SessionMeta τ)) (incoming : SessionMeta τ) : Merged τ :=
  let base := stored.getD {}
  if incoming.updatedAt.any (staleFor base) then ⟨base, false⟩
  else
    { record :=
        { archived := incoming.archived || base.archived
          archivedAt := incoming.archivedAt <|> base.archivedAt
          pinned := incoming.pinned || base.pinned
          displayName := incoming.displayName <|> base.displayName
          updatedAt := incoming.updatedAt <|> base.updatedAt
          legacyKey := incoming.legacyKey <|> base.legacyKey }
      changed :=
        (incoming.archived && !base.archived) || (incoming.archivedAt.isSome && incoming.archivedAt ≠ base.archivedAt) ||
          (incoming.pinned && !base.pinned) || (incoming.displayName.isSome && incoming.displayName ≠ base.displayName) ||
          (incoming.legacyKey.isSome && incoming.legacyKey ≠ base.legacyKey) || incoming.updatedAt.isSome }

/-- What `setField` writes over the stored record. -/
def setRecord (stored : Option (SessionMeta τ)) (patch : SessionMeta τ) (legacyKey : JsString) (now : τ) : SessionMeta τ :=
  let incoming := { patch with updatedAt := some now, legacyKey := some legacyKey }
  -- entering the archived state stamps the dwell clock; archiving again keeps it
  let incoming :=
    if patch.archived ∧ stored.bind (·.archivedAt) = none then { incoming with archivedAt := some now } else incoming
  (applyLWW stored incoming).record

def setField (sessions : Sessions τ) (key : JsString) (patch : SessionMeta τ) (legacyKey : JsString) (now : τ) :
    Sessions τ :=
  sessions.set key (setRecord (sessions.get key) patch legacyKey now)

def SessionMeta.drop (r : SessionMeta τ) : Field → SessionMeta τ
  | .archived => { r with archived := false, archivedAt := none }
  | .pinned => { r with pinned := false }
  | .displayName => { r with displayName := none }

/-- What `clearField` leaves of a stored record. -/
def clearRecord (stored : SessionMeta τ) (field : Field) (legacyKey : JsString) (now : τ) : SessionMeta τ :=
  if staleFor stored now then stored
  else { stored.drop field with updatedAt := some now, legacyKey := some legacyKey }

def clearField (sessions : Sessions τ) (key : JsString) (field : Field) (legacyKey : JsString) (now : τ) : Sessions τ :=
  match sessions.get key with
  | none => sessions
  | some stored => sessions.set key (clearRecord stored field legacyKey now)

/-- `if (prefs.sessions[key]?.pinned) clearField(…)`: archiving unpins. -/
def autoUnpin (sessions : Sessions τ) (key legacyKey : JsString) (now : τ) : Sessions τ :=
  if (sessions.get key).any (·.pinned) then clearField sessions key .pinned legacyKey now else sessions

/-! ## The deltas -/

inductive Change
  | archive
  | unarchive
  | pin
  | unpin
  | rename (name : Option JsString)
  deriving DecidableEq

/-- The name a rename sets; an empty one clears. -/
def trimmedName (name : Option JsString) : Option JsString :=
  match trim (name.getD []) with
  | [] => none
  | u :: us => some (u :: us)

/-- A delta on the record of `key`; the path and the key variants share it. -/
def Change.apply (sessions : Sessions τ) (key legacyKey : JsString) (now : τ) : Change → Sessions τ
  | .archive => autoUnpin (setField sessions key { archived := true } legacyKey now) key legacyKey now
  | .unarchive => clearField sessions key .archived legacyKey now
  | .pin => setField sessions key { pinned := true } legacyKey now
  | .unpin => clearField sessions key .pinned legacyKey now
  | .rename name =>
    match trimmedName name with
    | some trimmed => setField sessions key { displayName := some trimmed } legacyKey now
    | none => clearField sessions key .displayName legacyKey now

section

variable (resolver : JsString → Option JsString) (sessions : Sessions τ)

def pathToKey (sessionPath : JsString) : JsString := (toV2Key sessionPath resolver).key

def addArchivedPath (sessionPath : JsString) (now : τ) : Sessions τ :=
  Change.archive.apply sessions (pathToKey resolver sessionPath) sessionPath now

def removeArchivedPath (sessionPath : JsString) (now : τ) : Sessions τ :=
  Change.unarchive.apply sessions (pathToKey resolver sessionPath) sessionPath now

def addPinnedPath (sessionPath : JsString) (now : τ) : Sessions τ :=
  Change.pin.apply sessions (pathToKey resolver sessionPath) sessionPath now

def removePinnedPath (sessionPath : JsString) (now : τ) : Sessions τ :=
  Change.unpin.apply sessions (pathToKey resolver sessionPath) sessionPath now

def setDisplayName (sessionPath : JsString) (name : Option JsString) (now : τ) : Sessions τ :=
  (Change.rename name).apply sessions (pathToKey resolver sessionPath) sessionPath now

def addArchivedKey (key : JsString) (now : τ) : Sessions τ := Change.archive.apply sessions key key now

def removeArchivedKey (key : JsString) (now : τ) : Sessions τ := Change.unarchive.apply sessions key key now

def addPinnedKey (key : JsString) (now : τ) : Sessions τ := Change.pin.apply sessions key key now

def removePinnedKey (key : JsString) (now : τ) : Sessions τ := Change.unpin.apply sessions key key now

def setDisplayNameKey (key : JsString) (name : Option JsString) (now : τ) : Sessions τ :=
  (Change.rename name).apply sessions key key now

/-- Every path is archived first, each session once; then every archived session is unpinned. -/
def addArchivedPaths (sessionPaths : List JsString) (now : τ) : Sessions τ :=
  let archived := sessionPaths.foldl (fun s p => setField s (pathToKey resolver p) { archived := true } p now) sessions
  let archivedKeys := (sessionPaths.map (pathToKey resolver)).eraseDups
  archivedKeys.foldl
    (fun s key => autoUnpin s key (((s.get key).bind (·.legacyKey)).getD key) now) archived

end

/-- The session a delta names: a path, or a key the client sends. -/
inductive Target
  | path (sessionPath : JsString)
  | key (key : JsString)
  deriving DecidableEq

/-- A delta request; `now` is `updatedAt ?? Date.now()`. -/
structure Delta (τ : Type) where
  target : Target
  change : Change
  now : τ
  deriving DecidableEq

def Delta.key (resolver : JsString → Option JsString) (d : Delta τ) : JsString :=
  match d.target with
  | .path p => pathToKey resolver p
  | .key k => k

def Delta.legacyKey (d : Delta τ) : JsString :=
  match d.target with
  | .path p => p
  | .key k => k

def Delta.run (resolver : JsString → Option JsString) (sessions : Sessions τ) (d : Delta τ) : Sessions τ :=
  match d.target, d.change with
  | .path p, .archive => addArchivedPath resolver sessions p d.now
  | .path p, .unarchive => removeArchivedPath resolver sessions p d.now
  | .path p, .pin => addPinnedPath resolver sessions p d.now
  | .path p, .unpin => removePinnedPath resolver sessions p d.now
  | .path p, .rename name => setDisplayName resolver sessions p name d.now
  | .key k, .archive => addArchivedKey sessions k d.now
  | .key k, .unarchive => removeArchivedKey sessions k d.now
  | .key k, .pin => addPinnedKey sessions k d.now
  | .key k, .unpin => removePinnedKey sessions k d.now
  | .key k, .rename name => setDisplayNameKey sessions k name d.now

/-! ## The v1 form -/

structure V1Preferences where
  archivedSessionPaths : List JsString := []
  pinnedSessionPaths : List JsString := []
  sessionDisplayNames : List (JsString × JsString) := []
  deriving DecidableEq

section

variable (resolver : JsString → Option JsString) (now : τ)

/-- `touch(legacyKey, apply)` of `migrateV1ToV2`. -/
def touch (sessions : Sessions τ) (legacyKey : JsString) (apply : SessionMeta τ → SessionMeta τ) : Sessions τ :=
  let key := (toV2Key legacyKey resolver).key
  let rec0 := apply ((sessions.get key).getD {})
  sessions.set key
    { rec0 with
      legacyKey := some legacyKey
      updatedAt := some (rec0.updatedAt.getD now) }

def migrateV1ToV2 (v1 : V1Preferences) : Sessions τ :=
  let sessions := v1.archivedSessionPaths.foldl (fun s p => touch resolver now s p fun r => { r with archived := true })
    JsMap.empty
  let sessions := v1.pinnedSessionPaths.foldl (fun s p => touch resolver now s p fun r => { r with pinned := true })
    sessions
  v1.sessionDisplayNames.foldl (fun s e => touch resolver now s e.1 fun r => { r with displayName := some e.2 }) sessions

/-- The merge of `PAT.unarchive /`: each supplied record under its stable key. -/
def mergePatch (sessions : Sessions τ) (v1 : V1Preferences) : Sessions τ :=
  (migrateV1ToV2 resolver now v1).entries.foldl (fun s e => s.set e.1 (applyLWW (s.get e.1) e.2).record) sessions

end

/-! ## One record -/

/-- A change sets a field, or clears one. -/
def Change.sets : Change → Bool
  | .archive | .pin => true
  | .unarchive | .unpin => false
  | .rename name => (trimmedName name).isSome

/-- What a change that is applied makes of the record. -/
def Change.effect (r : SessionMeta τ) (now : τ) : Change → SessionMeta τ
  | .archive => { r with archived := true, archivedAt := some (r.archivedAt.getD now), pinned := false }
  | .unarchive => { r with archived := false, archivedAt := none }
  | .pin => { r with pinned := true }
  | .unpin => { r with pinned := false }
  | .rename name => { r with displayName := trimmedName name }

/-- A change finds a record that is not newer, or sets a field where there is none. -/
def Change.applies (stored : Option (SessionMeta τ)) (now : τ) (c : Change) : Bool :=
  match stored with
  | none => c.sets
  | some r => !staleFor r now

def Change.onRecord (stored : Option (SessionMeta τ)) (legacyKey : JsString) (now : τ) (c : Change) :
    Option (SessionMeta τ) :=
  if c.applies stored now then
    some { c.effect (stored.getD {}) now with updatedAt := some now, legacyKey := some legacyKey }
  else stored

variable {now : τ} {r : SessionMeta τ} {stored : Option (SessionMeta τ)}

theorem setRecord_stale (h : staleFor r now = true) (patch : SessionMeta τ)
    (legacyKey : JsString) : setRecord (some r) patch legacyKey now = r := by
  simp only [setRecord, applyLWW, getD_some]
  split <;> simp [h]

/-- A record that is not older takes the fields of the patch that are present. -/
theorem setRecord_fresh (h : staleFor (stored.getD {}) now = false)
    (patch : SessionMeta τ) (legacyKey : JsString) :
    setRecord stored patch legacyKey now =
      { archived := patch.archived || (stored.getD {}).archived
        archivedAt :=
          if patch.archived ∧ (stored.getD {}).archivedAt = none then some now
          else patch.archivedAt <|> (stored.getD {}).archivedAt
        pinned := patch.pinned || (stored.getD {}).pinned
        displayName := patch.displayName <|> (stored.getD {}).displayName
        updatedAt := some now
        legacyKey := some legacyKey } := by
  have hb : stored.bind (·.archivedAt) = (stored.getD {}).archivedAt := by cases stored <;> rfl
  simp only [setRecord, applyLWW, hb]
  split <;> simp [h]

theorem clearRecord_stale (h : staleFor r now = true) (field : Field) (legacyKey : JsString) :
    clearRecord r field legacyKey now = r := if_pos h

theorem clearRecord_fresh (h : staleFor r now = false) (field : Field)
    (legacyKey : JsString) :
    clearRecord r field legacyKey now = { r.drop field with updatedAt := some now, legacyKey := some legacyKey } :=
  if_neg (by simp [h])

theorem get_setField (sessions : Sessions τ) (key : JsString) (patch : SessionMeta τ) (legacyKey : JsString) (now : τ)
    (j : JsString) :
    (setField sessions key patch legacyKey now).get j =
      if j = key then some (setRecord (sessions.get key) patch legacyKey now) else sessions.get j :=
  JsMap.get_set ..

theorem get_clearField (sessions : Sessions τ) (key : JsString) (field : Field) (legacyKey : JsString) (now : τ)
    (j : JsString) :
    (clearField sessions key field legacyKey now).get j =
      if j = key then (sessions.get key).map (clearRecord · field legacyKey now) else sessions.get j := by
  rw [clearField]
  split
  · next h =>
    rw [h]
    split
    · next hj => rw [hj, h, map_none]
    · rfl
  · next r h => rw [JsMap.get_set, h, map_some]

/-- A record as archiving leaves it: the set half, then the unpin. -/
theorem get_autoUnpin (sessions : Sessions τ) (key legacyKey : JsString) (now : τ) (j : JsString) :
    (autoUnpin sessions key legacyKey now).get j =
      if j = key then (sessions.get key).map fun r => if r.pinned then clearRecord r .pinned legacyKey now else r
      else sessions.get j := by
  rw [autoUnpin]
  cases h : sessions.get key with
  | none =>
    rw [any_none, if_neg (by simp), map_none]
    split
    · next hj => rw [hj, h]
    · rfl
  | some r =>
    rw [any_some, map_some]
    by_cases hp : r.pinned = true
    · rw [if_pos hp, if_pos hp, get_clearField, h, map_some]
    · rw [if_neg hp, if_neg hp]
      split
      · next hj => rw [hj, h]
      · rfl

theorem staleFor_stamped (h : r.updatedAt = some now) : staleFor r now = false := by
  simp [staleFor, h]

theorem staleFor_empty (now : τ) : staleFor ({} : SessionMeta τ) now = false := rfl

/-- The set half of a change, on the record it finds. -/
theorem setRecord_onRecord (c : Change) {patch : SessionMeta τ} {legacyKey : JsString}
    (hc : c.sets = true)
    (hfresh : staleFor (stored.getD {}) now = false →
      setRecord stored patch legacyKey now =
        { c.effect (stored.getD {}) now with updatedAt := some now, legacyKey := some legacyKey }) :
    some (setRecord stored patch legacyKey now) = c.onRecord stored legacyKey now := by
  rw [Change.onRecord]
  cases stored with
  | none => rw [Change.applies, if_pos hc, hfresh (staleFor_empty now)]
  | some r =>
    cases hs : staleFor r now with
    | true => rw [Change.applies, hs, if_neg (by simp), setRecord_stale hs]
    | false => rw [Change.applies, hs, if_pos (by simp), hfresh hs]

theorem clearRecord_onRecord (c : Change) {field : Field} {legacyKey : JsString}
    (hc : c.sets = false) (heff : ∀ r : SessionMeta τ, c.effect r now = r.drop field) :
    stored.map (clearRecord · field legacyKey now) = c.onRecord stored legacyKey now := by
  rw [Change.onRecord]
  cases stored with
  | none => rw [Change.applies, hc, if_neg (by simp), map_none]
  | some r =>
    rw [map_some]
    cases hs : staleFor r now with
    | true => rw [Change.applies, hs, if_neg (by simp), clearRecord_stale hs]
    | false => rw [Change.applies, hs, if_pos (by simp), clearRecord_fresh hs, getD_some, heff]

/-- Both halves of archiving are refused, or neither is. -/
theorem archive_onRecord {legacyKey : JsString}
    (hr : r = setRecord stored { archived := true } legacyKey now) :
    some (if r.pinned then clearRecord r .pinned legacyKey now else r) =
      Change.archive.onRecord stored legacyKey now := by
  subst hr
  rw [Change.onRecord]
  by_cases hs : staleFor (stored.getD {}) now = true
  · obtain ⟨r, rfl⟩ : ∃ r, stored = some r := by
      cases stored with
      | none => cases hs
      | some r => exact ⟨r, rfl⟩
    rw [getD_some] at hs
    simp only [setRecord_stale hs, clearRecord_stale hs, Change.applies, hs]
    simp
  · have hf : staleFor (stored.getD {}) now = false := by simpa using hs
    have ha : Change.archive.applies stored now = true := by
      cases stored with
      | none => rfl
      | some r => simpa [Change.applies] using hf
    rw [if_pos ha]
    simp only [setRecord_fresh hf]
    split
    · next hp =>
      rw [clearRecord_fresh (staleFor_stamped rfl)]
      cases h : (stored.getD {}).archivedAt <;> simp [Change.effect, SessionMeta.drop, h]
    · next hp =>
      have hpin : (stored.getD {}).pinned = false := by simpa using hp
      cases h : (stored.getD {}).archivedAt <;> simp [Change.effect, h, hpin]

/-- A change touches the record of its key, as `onRecord` says, and no other. -/
theorem get_apply (c : Change) (sessions : Sessions τ) (key legacyKey : JsString) (now : τ) (j : JsString) :
    (c.apply sessions key legacyKey now).get j =
      if j = key then c.onRecord (sessions.get key) legacyKey now else sessions.get j := by
  cases c with
  | archive =>
    rw [Change.apply, get_autoUnpin, get_setField, if_pos rfl, map_some, get_setField]
    split
    · exact archive_onRecord rfl
    · rfl
  | unarchive => rw [Change.apply, get_clearField, clearRecord_onRecord .unarchive rfl fun _ => rfl]
  | pin =>
    rw [Change.apply, get_setField, setRecord_onRecord .pin rfl]
    intro hf
    rw [setRecord_fresh hf]
    simp [Change.effect]
  | unpin => rw [Change.apply, get_clearField, clearRecord_onRecord .unpin rfl fun _ => rfl]
  | rename name =>
    rw [Change.apply]
    cases hn : trimmedName name with
    | none =>
      rw [get_clearField, clearRecord_onRecord (.rename name) (by simp [Change.sets, hn]) fun r => ?_]
      simp [Change.effect, SessionMeta.drop, hn]
    | some trimmed =>
      rw [get_setField, setRecord_onRecord (.rename name) (by simp [Change.sets, hn])]
      intro hf
      rw [setRecord_fresh hf]
      simp [Change.effect, hn]

theorem run_eq_apply (resolver : JsString → Option JsString) (sessions : Sessions τ) (d : Delta τ) :
    d.run resolver sessions = d.change.apply sessions (d.key resolver) d.legacyKey d.now := by
  obtain ⟨target, change, now⟩ := d
  cases target <;> cases change <;> rfl

def Delta.onRecord (stored : Option (SessionMeta τ)) (d : Delta τ) : Option (SessionMeta τ) :=
  d.change.onRecord stored d.legacyKey d.now

theorem get_run (resolver : JsString → Option JsString) (sessions : Sessions τ) (d : Delta τ) (j : JsString) :
    (d.run resolver sessions).get j =
      if j = d.key resolver then d.onRecord (sessions.get (d.key resolver)) else sessions.get j := by
  rw [run_eq_apply, get_apply]
  rfl

/-- No change drops a record. -/
theorem isSome_onRecord (h : stored.isSome) (d : Delta τ) : (d.onRecord stored).isSome := by
  rw [Delta.onRecord, Change.onRecord]
  split
  · rfl
  · exact h

end PiWebUi.Preferences
