/-
  PiWebUi.Preferences.Lossless — what the v2 records keep of a v1 form
  (server/src/routes/session-meta.ts, shared/src/session-preferences.ts).

  A record of `migrateV1ToV2` has the metadata of every v1 key that has its stable key, and
  the last of them as its own v1 key. Where no two of them share a stable key, the v1 form
  is derived back from the records, exactly if no display name is stored under `__proto__`
  (`migration_lossless_iff`): the derived names are assigned to an object literal.
-/

import PiWebUi.Preferences.Exclusive

namespace PiWebUi.Preferences

open PiWebUi.Lib List

variable {τ : Type}

/-- The v1 key of a record: its own, or else what follows the first colon of its key. -/
def legacyOf (e : JsString × SessionMeta τ) : JsString :=
  e.2.legacyKey.getD (match e.1.idxOf? (unit ':') with
    | some i => e.1.drop (i + 1)
    | none => e.1)

structure LegacyArrays where
  archivedSessionPaths : List JsString := []
  pinnedSessionPaths : List JsString := []
  sessionDisplayNames : JsMap JsString JsString := JsMap.empty

def protoKey : JsString := js "__proto__"

/-- `o[k] = v` for a string on an object literal: the setter of `__proto__` passes over it. -/
def assign (o : JsMap JsString JsString) (k v : JsString) : JsMap JsString JsString :=
  if k = protoKey then o else o.set k v

/-- The loop's body for one entry. -/
def LegacyArrays.add (a : LegacyArrays) (e : JsString × SessionMeta τ) : LegacyArrays where
  archivedSessionPaths := if e.2.archived then a.archivedSessionPaths ++ [legacyOf e] else a.archivedSessionPaths
  pinnedSessionPaths := if e.2.pinned then a.pinnedSessionPaths ++ [legacyOf e] else a.pinnedSessionPaths
  sessionDisplayNames := e.2.displayName.elim a.sessionDisplayNames (assign a.sessionDisplayNames (legacyOf e))

def deriveLegacySessionArrays (sessions : Sessions τ) : LegacyArrays := sessions.entries.foldl LegacyArrays.add {}

def V1Preferences.keys (v1 : V1Preferences) : List JsString :=
  v1.archivedSessionPaths ++ v1.pinnedSessionPaths ++ v1.sessionDisplayNames.map (·.1)

/-- The last name of a key that `has`. -/
def lastName (has : JsString → Bool) (names : List (JsString × JsString)) : Option JsString :=
  ((names.filter fun e => has e.1).map (·.2)).getLast?

section

variable (resolver : JsString → Option JsString) (now : τ) (v1 : V1Preferences)

/-- Distinct v1 keys have distinct stable keys. -/
def V1Preferences.Apart : Prop := ∀ p ∈ v1.keys, ∀ q ∈ v1.keys, pathToKey resolver p = pathToKey resolver q → p = q

/-- The v1 form comes back, up to order and repetition. -/
def V1Preferences.Lossless : Prop :=
  let d := deriveLegacySessionArrays (migrateV1ToV2 resolver now v1)
  (∀ p, p ∈ d.archivedSessionPaths ↔ p ∈ v1.archivedSessionPaths) ∧ (∀ p, p ∈ d.pinnedSessionPaths ↔ p ∈ v1.pinnedSessionPaths) ∧
    ∀ p, d.sessionDisplayNames.get p = lastName (· = p) v1.sessionDisplayNames

/-- The record of a stable key unites what the v1 keys of it have, and a delta for one of them is a write to it. -/
structure V1Preferences.Unites (k : JsString) (r : SessionMeta τ) : Prop where
  archived : r.archived = true ↔ ∃ p ∈ v1.archivedSessionPaths, pathToKey resolver p = k
  pinned : r.pinned = true ↔ ∃ p ∈ v1.pinnedSessionPaths, pathToKey resolver p = k
  displayName : r.displayName = lastName (pathToKey resolver · = k) v1.sessionDisplayNames
  legacyKey : ∃ p ∈ v1.keys, r.legacyKey = some p ∧ pathToKey resolver p = k
  reached : ∀ p ∈ v1.keys, pathToKey resolver p = k → ∀ d : Delta τ, d.target = .path p → d.key resolver = k

/-! ## The records of a form -/

/-- What the form says, in the order of the loops. -/
def V1Preferences.edits : List (JsString × (SessionMeta τ → SessionMeta τ)) :=
  v1.archivedSessionPaths.map (·, fun r => { r with archived := true }) ++
    v1.pinnedSessionPaths.map (·, fun r => { r with pinned := true }) ++
    v1.sessionDisplayNames.map fun e => (e.1, fun r => { r with displayName := some e.2 })

/-- After some edits: the record has the key of one of them, and the last name that they set. -/
theorem get_foldl_touch (l : List (JsString × (SessionMeta τ → SessionMeta τ)))
    (hl : ∀ e ∈ l, ∀ r, (e.2 r).displayName = (e.2 {}).displayName.or r.displayName) (k : JsString) :
    let o := (l.foldl (fun s e => touch resolver now s e.1 e.2) JsMap.empty).get k
    (o.getD {}).displayName = ((l.filter fun e => pathToKey resolver e.1 = k).filterMap fun e => (e.2 {}).displayName).getLast? ∧
      ((o = none ∧ ∀ e ∈ l, pathToKey resolver e.1 ≠ k) ∨
        ∃ r, o = some r ∧ ∃ e ∈ l, r.legacyKey = some e.1 ∧ pathToKey resolver e.1 = k) := by
  induction l using List.reverseRecOn with
  | nil => exact ⟨rfl, .inl ⟨rfl, fun _ h => by cases h⟩⟩
  | append_singleton l e ih =>
    obtain ⟨hname, hkey⟩ := ih fun e he => hl e (mem_append_left _ he)
    rw [foldl_append, foldl_cons, foldl_nil, get_touch, filter_append, filterMap_append, getLast?_append, ← hname]
    by_cases hk : k = pathToKey resolver e.1
    · rw [if_pos hk]
      refine ⟨?_, .inr ⟨_, rfl, e, mem_append_right _ mem_cons_self, rfl, hk.symm⟩⟩
      show (e.2 _).displayName = _
      rw [hl e (mem_append_right _ mem_cons_self), filter_singleton, hk]
      cases hn : (e.2 {}).displayName <;> simp [hn]
    · rw [if_neg hk]
      refine ⟨?_, hkey.imp (fun h => ⟨h.1, forall_mem_append.mpr ⟨h.2, forall_mem_singleton.mpr (Ne.symm hk)⟩⟩) ?_⟩
      · simp [Ne.symm hk]
      · intro hlater
        obtain ⟨r, hr, d, hd, h⟩ := hlater
        exact ⟨r, hr, d, mem_append_left _ hd, h⟩

theorem migrate_edits (k : JsString) :
    (((migrateV1ToV2 resolver now v1).get k).getD {}).displayName = lastName (pathToKey resolver · = k) v1.sessionDisplayNames ∧
      (((migrateV1ToV2 resolver now v1).get k = none ∧ ∀ p ∈ v1.keys, pathToKey resolver p ≠ k) ∨
        ∃ r, (migrateV1ToV2 resolver now v1).get k = some r ∧ ∃ p ∈ v1.keys, r.legacyKey = some p ∧ pathToKey resolver p = k) := by
  have hkeys : v1.keys = (v1.edits (τ := τ)).map (·.1) := by simp [V1Preferences.keys, V1Preferences.edits, Function.comp_def]
  have hedits : migrateV1ToV2 resolver now v1 = v1.edits.foldl (fun s e => touch resolver now s e.1 e.2) JsMap.empty := by
    simp only [migrateV1ToV2, V1Preferences.edits, foldl_append, foldl_map]
  obtain ⟨hname, hkey⟩ := get_foldl_touch resolver now v1.edits (by
    simp only [V1Preferences.edits, forall_mem_append, forall_mem_map]
    exact ⟨⟨fun _ _ _ => rfl, fun _ _ _ => rfl⟩, fun _ _ _ => rfl⟩) k
  rw [hkeys, hedits]
  refine ⟨hname.trans ?_, by simpa using hkey⟩
  simp [lastName, V1Preferences.edits, filter_map, Function.comp_def]

theorem migrate_unites {k : JsString} {r : SessionMeta τ} (h : (migrateV1ToV2 resolver now v1).get k = some r) :
    v1.Unites resolver k r where
  archived := by
    have ha := migrate_archived resolver now v1 k
    rw [h, Option.getD_some] at ha
    rw [ha, V1Preferences.archives, any_eq_true]
    simp only [decide_eq_true_eq]
  pinned := by
    have hp := migrate_pinned resolver now v1 k
    rw [h, Option.getD_some] at hp
    rw [hp, V1Preferences.pins, any_eq_true]
    simp only [decide_eq_true_eq]
  displayName := by
    have hn := (migrate_edits resolver now v1 k).1
    rwa [h] at hn
  legacyKey := by
    obtain ⟨hnone, -⟩ | ⟨q, hq, hkey⟩ := (migrate_edits resolver now v1 k).2
    · cases h.symm.trans hnone
    · cases h.symm.trans hq
      exact hkey
  reached p _ hpk d hd := by
    rw [Delta.key, hd]
    exact hpk

end

/-! ## The form of the records -/

theorem mem_derive (flag : SessionMeta τ → Bool) (paths : LegacyArrays → List JsString)
    (hpaths : ∀ a e, paths (a.add e) = if flag e.2 then paths a ++ [legacyOf e] else paths a) (l : List (JsString × SessionMeta τ))
    (p : JsString) (a : LegacyArrays) : p ∈ paths (l.foldl LegacyArrays.add a) ↔ p ∈ paths a ∨ ∃ e ∈ l, flag e.2 = true ∧ legacyOf e = p := by
  induction l generalizing a with
  | nil => simp
  | cons e l ih =>
    rw [foldl_cons, ih, hpaths, exists_mem_cons_iff]
    split
    · next he => simp only [he, mem_append, mem_singleton, true_and, or_assoc, eq_comm]
    · next he => simp only [he, false_and, false_or, Bool.false_eq_true]

/-- The records of one v1 key have one name. -/
theorem get_derive {p : JsString} {v : Option JsString} (l : List (JsString × SessionMeta τ))
    (hl : ∀ e ∈ l, legacyOf e = p → e.2.displayName = v) :
    let names := (l.foldl LegacyArrays.add {}).sessionDisplayNames
    (names.get p = if p = protoKey then none else v) ∨ names.get p = none ∧ ∀ e ∈ l, legacyOf e ≠ p := by
  induction l using List.reverseRecOn with
  | nil => exact .inr ⟨rfl, (fun _ h => by cases h)⟩
  | append_singleton l e ih =>
    have ih := ih fun e he => hl e (mem_append_left _ he)
    have he := hl e (mem_append_right _ mem_cons_self)
    simp only [foldl_append, foldl_cons, foldl_nil, LegacyArrays.add]
    generalize (l.foldl LegacyArrays.add {}).sessionDisplayNames = names at ih ⊢
    by_cases hp : legacyOf e = p
    · left
      rw [he hp, hp]
      cases v with
      | none => rcases ih with h | h <;> simp_all
      | some v =>
        rw [Option.elim_some, assign]
        split
        · rcases ih with h | h <;> simp_all
        · exact JsMap.get_set_same ..
    · have hget : ∀ o : Option JsString, (o.elim names (assign names (legacyOf e))).get p = names.get p := fun o => by
        cases o with
        | none => rfl
        | some v =>
          rw [Option.elim_some, assign]
          split
          · rfl
          · exact JsMap.get_set_ne _ _ (Ne.symm hp)
      rw [hget]
      exact ih.imp_right fun h => ⟨h.1, forall_mem_append.mpr ⟨h.2, forall_mem_singleton.mpr hp⟩⟩

/-! ## There and back -/

section

variable {resolver : JsString → Option JsString} {now : τ} {v1 : V1Preferences}

theorem legacy_of_mem {e : JsString × SessionMeta τ} (he : e ∈ (migrateV1ToV2 resolver now v1).entries) :
    legacyOf e ∈ v1.keys ∧ pathToKey resolver (legacyOf e) = e.1 := by
  obtain ⟨p, hp, hl, hk⟩ := (migrate_unites resolver now v1 (JsMap.get_of_mem he)).legacyKey
  have hlegacy : legacyOf e = p := by rw [legacyOf, hl, Option.getD_some]
  rw [hlegacy]
  exact ⟨hp, hk⟩

theorem exists_entry (now : τ) (ha : v1.Apart resolver) {p : JsString} (hp : p ∈ v1.keys) :
    ∃ e ∈ (migrateV1ToV2 resolver now v1).entries, legacyOf e = p ∧ e.1 = pathToKey resolver p := by
  obtain ⟨-, hno⟩ | ⟨r, hr, -⟩ := (migrate_edits resolver now v1 (pathToKey resolver p)).2
  · exact absurd rfl (hno p hp)
  · have he := JsMap.get_eq_some.mp hr
    obtain ⟨hl, hk⟩ := legacy_of_mem he
    exact ⟨_, he, ha _ hl _ hp hk, rfl⟩

/-- A flag of the records, and the paths of the array it comes from. -/
theorem flag_iff {paths : List JsString} {flag : SessionMeta τ → Bool} (ha : v1.Apart resolver) (hsub : ∀ p ∈ paths, p ∈ v1.keys)
    (hflag : ∀ k r, (migrateV1ToV2 resolver now v1).get k = some r → (flag r = true ↔ ∃ p ∈ paths, pathToKey resolver p = k)) (p : JsString) :
    (∃ e ∈ (migrateV1ToV2 resolver now v1).entries, flag e.2 = true ∧ legacyOf e = p) ↔ p ∈ paths := by
  constructor
  · rintro ⟨e, he, hf, rfl⟩
    obtain ⟨hl, hk⟩ := legacy_of_mem he
    obtain ⟨q, hq, hqk⟩ := (hflag e.1 e.2 (JsMap.get_of_mem he)).mp hf
    rwa [← ha q (hsub q hq) _ hl (hqk.trans hk.symm)]
  · intro hp
    obtain ⟨e, he, hl, hk⟩ := exists_entry now ha (hsub p hp)
    exact ⟨e, he, (hflag e.1 e.2 (JsMap.get_of_mem he)).mpr ⟨p, hp, hk.symm⟩, hl⟩

theorem lastName_eq_none {has : JsString → Bool} {names : List (JsString × JsString)} :
    lastName has names = none ↔ ∀ e ∈ names, ¬ has e.1 = true := by
  simp [lastName]

theorem derived_name (ha : v1.Apart resolver) (p : JsString) :
    (deriveLegacySessionArrays (migrateV1ToV2 resolver now v1)).sessionDisplayNames.get p =
      if p = protoKey then none else lastName (· = p) v1.sessionDisplayNames := by
  have hnames : ∀ e ∈ v1.sessionDisplayNames, e.1 ∈ v1.keys := fun e he => mem_append_right _ (mem_map_of_mem he)
  have hentry : ∀ e ∈ (migrateV1ToV2 resolver now v1).entries, legacyOf e = p → e.2.displayName = lastName (· = p) v1.sessionDisplayNames := by
    rintro e he rfl
    obtain ⟨hkeys, hk⟩ := legacy_of_mem he
    rw [(migrate_unites resolver now v1 (JsMap.get_of_mem he)).displayName, lastName, lastName, filter_congr fun d hd => ?_]
    rw [← hk, decide_eq_decide]
    exact ⟨ha _ (hnames d hd) _ hkeys, congrArg _⟩
  refine (get_derive _ hentry).elim id fun ⟨h, hno⟩ => h.trans ?_
  have hnone : lastName (· = p) v1.sessionDisplayNames = none := lastName_eq_none.mpr fun e he hep => by
    obtain ⟨d, hd, hl, -⟩ := exists_entry now ha (hnames e he)
    exact hno d hd (hl.trans (of_decide_eq_true hep))
  rw [hnone, ite_self]

end

/-- The v1 form comes back exactly if no name is stored under `__proto__`. -/
theorem migration_lossless_iff (resolver : JsString → Option JsString) (now : τ) (v1 : V1Preferences) :
    (v1.Apart resolver → (v1.Lossless resolver now ↔ protoKey ∉ v1.sessionDisplayNames.map (·.1))) ∧
      ∀ k r, (migrateV1ToV2 resolver now v1).get k = some r → v1.Unites resolver k r := by
  refine ⟨fun ha => ?_, fun k r => migrate_unites resolver now v1⟩
  have hnone : lastName (· = protoKey) v1.sessionDisplayNames = none ↔ protoKey ∉ v1.sessionDisplayNames.map (·.1) := by
    simp only [lastName_eq_none, decide_eq_true_eq, mem_map, not_exists, not_and]
  rw [← hnone]
  constructor
  · intro h
    have hproto := h.2.2 protoKey
    rw [derived_name ha, if_pos rfl] at hproto
    exact hproto.symm
  · refine fun hproto => ⟨fun p => ?_, fun p => ?_, fun p => ?_⟩
    · rw [deriveLegacySessionArrays, mem_derive (·.archived) (·.archivedSessionPaths) (fun _ _ => rfl), or_iff_right not_mem_nil]
      exact flag_iff ha (fun q hq => mem_append_left _ (mem_append_left _ hq)) (fun k r h => (migrate_unites resolver now v1 h).archived) p
    · rw [deriveLegacySessionArrays, mem_derive (·.pinned) (·.pinnedSessionPaths) (fun _ _ => rfl), or_iff_right not_mem_nil]
      exact flag_iff ha (fun q hq => mem_append_left _ (mem_append_right _ hq)) (fun k r h => (migrate_unites resolver now v1 h).pinned) p
    · rw [derived_name ha]
      split
      · next hp => rw [hp, hproto]
      · rfl

/-- A name that `JSON.parse` stored under `__proto__`. -/
def protoNamed : V1Preferences := { sessionDisplayNames := [(protoKey, js "x")] }

theorem proto_name_lost : ¬ (protoNamed.Apart (fun _ => none) → protoNamed.Lossless (fun _ => none) 0) := by
  intro h
  have ha : protoNamed.Apart fun _ => none := fun p hp q hq _ => (mem_singleton.mp hp).trans (mem_singleton.mp hq).symm
  have hname := (h ha).2.2 protoKey
  revert hname
  decide +kernel

end PiWebUi.Preferences
