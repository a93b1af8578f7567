/-
  PiWebUi.Preferences.Exclusive — an archived session holds no pin slot.

  Archiving unpins in the same request, under the same instant: both halves are refused
  or neither is. Nothing undoes an archive when a session is pinned, though: a pin of an
  archived session, a patch that pins one or that supplies one session in both arrays,
  and a v1 file that has one session in both leave a record with both flags
  (`a_pin_of_an_archived_session`). `exclusive_iff` is the exact condition: the records
  stay exclusive, and dated exactly while archived, along a run if and only if the file
  was and no request of the run is one of these.
-/

import PiWebUi.Preferences.SessionMeta
import PiWebUi.Lib.Run

namespace PiWebUi.Preferences

open PiWebUi.Lib List Option

variable {τ : Type}

/-! ## The records of a v1 form -/

section

variable (resolver : JsString → Option JsString) (now : τ)

theorem get_touch (s : Sessions τ) (p : JsString) (f : SessionMeta τ → SessionMeta τ) (k : JsString) :
    (touch resolver now s p f).get k = if k = pathToKey resolver p then some { f ((s.get k).getD {}) with
          legacyKey := some p
          updatedAt := some ((f ((s.get k).getD {})).updatedAt.getD now) }
      else s.get k := by
  rw [touch, JsMap.get_set]
  by_cases hk : k = pathToKey resolver p
  · rw [hk]
    rfl
  · rw [if_neg hk]
    exact if_neg hk

/-- A flag after one array: set for the paths of the array if the array sets it. -/
theorem flag_foldl_touch {α : Type} (flag : SessionMeta τ → Bool) (sets : Bool) {path : α → JsString}
    {f : α → SessionMeta τ → SessionMeta τ} (hflag : ∀ r l u, flag { r with legacyKey := l, updatedAt := u } = flag r)
    (hf : ∀ a r, flag (f a r) = (flag r || sets)) (l : List α) (s : Sessions τ) (k : JsString) :
    flag (((l.foldl (fun s a => touch resolver now s (path a) (f a)) s).get k).getD {}) =
      (flag ((s.get k).getD {}) || (sets && l.any fun a => pathToKey resolver (path a) = k)) := by
  induction l generalizing s with
  | nil => simp
  | cons a l ih =>
    rw [foldl_cons, ih, get_touch, any_cons]
    by_cases hk : k = pathToKey resolver (path a)
    · rw [if_pos hk, getD_some, hflag, hf, hk]
      cases sets <;> simp
    · have hk' : ¬ pathToKey resolver (path a) = k := fun h => hk h.symm
      rw [if_neg hk]
      simp [hk']

/-- A record of the form: undated, and written now. -/
def Migrated (r : SessionMeta τ) : Prop := r.archivedAt = none ∧ r.updatedAt = some now

theorem migrated_foldl_touch {α : Type} {path : α → JsString} {f : α → SessionMeta τ → SessionMeta τ}
    (hf : ∀ a r, (f a r).archivedAt = r.archivedAt ∧ (f a r).updatedAt = r.updatedAt) (l : List α) {s : Sessions τ}
    (hs : ∀ k r, s.get k = some r → Migrated now r) {k : JsString} {r : SessionMeta τ}
    (hr : (l.foldl (fun s a => touch resolver now s (path a) (f a)) s).get k = some r) : Migrated now r := by
  induction l generalizing s with
  | nil => exact hs k r hr
  | cons a l ih =>
    refine ih ?_ hr
    intro j q hq
    rw [get_touch] at hq
    split at hq
    · obtain rfl := some.inj hq
      cases hj : s.get j with
      | none => exact ⟨(hf a _).1, by simp [(hf a _).2]⟩
      | some q => exact ⟨(hf a _).1.trans (hs j q hj).1, by simp [(hf a _).2, (hs j q hj).2]⟩
    · exact hs j q hq

/-- The form names the session `k` in its archived array, in its pinned array. -/
def V1Preferences.archives (v1 : V1Preferences) (k : JsString) : Bool :=
  v1.archivedSessionPaths.any fun p => pathToKey resolver p = k

def V1Preferences.pins (v1 : V1Preferences) (k : JsString) : Bool :=
  v1.pinnedSessionPaths.any fun p => pathToKey resolver p = k

theorem migrate_archived (v1 : V1Preferences) (k : JsString) :
    (((migrateV1ToV2 resolver now v1).get k).getD {}).archived = v1.archives resolver k := by
  rw [migrateV1ToV2, flag_foldl_touch resolver now (·.archived) false (fun _ _ _ => rfl) (fun _ _ => by simp),
    flag_foldl_touch resolver now (·.archived) false (fun _ _ _ => rfl) (fun _ _ => by simp),
    flag_foldl_touch resolver now (·.archived) true (fun _ _ _ => rfl) (fun _ _ => by simp), JsMap.get_empty]
  simp [V1Preferences.archives]

theorem migrate_pinned (v1 : V1Preferences) (k : JsString) :
    (((migrateV1ToV2 resolver now v1).get k).getD {}).pinned = v1.pins resolver k := by
  rw [migrateV1ToV2, flag_foldl_touch resolver now (·.pinned) false (fun _ _ _ => rfl) (fun _ _ => by simp),
    flag_foldl_touch resolver now (·.pinned) true (fun _ _ _ => rfl) (fun _ _ => by simp),
    flag_foldl_touch resolver now (·.pinned) false (fun _ _ _ => rfl) (fun _ _ => by simp), JsMap.get_empty]
  simp [V1Preferences.pins]

theorem migrate_migrated (v1 : V1Preferences) {k : JsString} {r : SessionMeta τ}
    (h : (migrateV1ToV2 resolver now v1).get k = some r) : Migrated now r := by
  rw [migrateV1ToV2] at h
  refine migrated_foldl_touch resolver now ?_ _ ?_ h
  · exact fun _ _ => ⟨rfl, rfl⟩
  intro _ _ h
  refine migrated_foldl_touch resolver now ?_ _ ?_ h
  · exact fun _ _ => ⟨rfl, rfl⟩
  intro _ _ h
  refine migrated_foldl_touch resolver now ?_ _ ?_ h
  · exact fun _ _ => ⟨rfl, rfl⟩
  intro _ _ h
  cases h

variable [LinearOrder τ] in
theorem get_mergePatch (s : Sessions τ) (v1 : V1Preferences) (k : JsString) : (mergePatch resolver now s v1).get k =
      ((migrateV1ToV2 resolver now v1).get k).elim (s.get k) fun r => some (applyLWW (s.get k) r).record :=
  JsMap.get_foldl_set (fun stored r => (applyLWW stored r).record) ..

end

/-! ## Requests -/

inductive Write (τ : Type)
  | delta (d : Delta τ)
  | archiveAll (sessionPaths : List JsString) (now : τ)
  | patch (v1 : V1Preferences) (now : τ)

/-- A request that writes the map; the session registry is read anew by each. -/
structure Request (τ : Type) where
  resolver : JsString → Option JsString
  write : Write τ

variable [LinearOrder τ]

def Request.run (s : Sessions τ) (q : Request τ) : Sessions τ :=
  match q.write with
  | .delta d => d.run q.resolver s
  | .archiveAll ps now => addArchivedPaths q.resolver s ps now
  | .patch v1 now => mergePatch q.resolver now s v1

def isArchived (s : Sessions τ) (k : JsString) : Bool := (s.get k).any (·.archived)

/-- The map, and the sessions that an undated form archived and that are archived since. -/
structure Tracked (τ : Type) where
  sessions : Sessions τ
  undated : JsString → Bool
  undated_archived : ∀ k, undated k = true → isArchived sessions k = true

/-- The patch archives `k` itself: its record was not archived. -/
def Request.patchArchives (s : Sessions τ) (q : Request τ) (k : JsString) : Bool :=
  match q.write with
  | .patch v1 _ => v1.archives q.resolver k && !isArchived s k
  | _ => false

variable (patchExcepted : Bool)

def Tracked.step (t : Tracked τ) (q : Request τ) : Tracked τ :=
  let sessions := q.run t.sessions
  { sessions
    undated := fun k =>
      isArchived sessions k && (t.undated k || (patchExcepted && q.patchArchives t.sessions k))
    undated_archived := fun _ h => (Bool.and_eq_true_iff.mp h).1 }

/-- Not archived and pinned at once, and dated while archived, the excepted sessions apart. -/
structure Good (excepted : Bool) (r : SessionMeta τ) : Prop where
  exclusive : ¬ (r.archived = true ∧ r.pinned = true)
  dated : r.archivedAt.isSome → r.archived = true
  archived : r.archived = true → r.archivedAt.isSome ∨ excepted = true

def Exclusive (t : Tracked τ) : Prop := ∀ k r, t.sessions.get k = some r → Good (t.undated k) r

/-- What keeps a request from leaving a record with both flags, or an undated one. -/
def Request.Separate (t : Tracked τ) (q : Request τ) : Prop :=
  match q.write with
  | .delta d =>
    d.change = .pin → ∀ r, t.sessions.get (d.key q.resolver) = some r → r.archived = true → staleFor r d.now = true
  | .archiveAll _ _ => True
  | .patch v1 now =>
    ∀ k, staleFor ((t.sessions.get k).getD {}) now = false →
      (v1.pins q.resolver k = true → isArchived t.sessions k = false ∧ v1.archives q.resolver k = false) ∧
      (v1.archives q.resolver k = true → ((t.sessions.get k).getD {}).pinned = false ∧
        (isArchived t.sessions k = true ∨ patchExcepted = true))

/-! ## One step -/

def GoodAt (excepted : Bool) (stored : Option (SessionMeta τ)) : Prop := ∀ r, stored = some r → Good excepted r

variable {e : Bool} {r : SessionMeta τ} {now : τ} {excepted : JsString → Bool} {keys : List JsString}
  {s : Sessions τ}

omit [LinearOrder τ] in
theorem good_and_archived {a : Bool} (h : r.archived = a) : Good (a && e) r ↔ Good e r := by
  constructor
  · rintro ⟨hx, hd, ha⟩
    exact ⟨hx, hd, fun hr => (ha hr).imp id fun he => (Bool.and_eq_true_iff.mp he).2⟩
  · rintro ⟨hx, hd, ha⟩
    exact ⟨hx, hd, fun hr => (ha hr).imp id fun he => by rw [← h, hr, he, Bool.and_self]⟩

/-- The step keeps the map good when it does so under each key. -/
theorem exclusive_step_iff {t : Tracked τ} {q : Request τ} : Exclusive (t.step patchExcepted q) ↔
      ∀ k, GoodAt (t.undated k || (patchExcepted && q.patchArchives t.sessions k)) ((q.run t.sessions).get k) := by
  refine forall_congr' fun k => forall_congr' fun r => ?_
  refine imp_congr_right fun hr => good_and_archived ?_
  have hr' : (q.run t.sessions).get k = some r := hr
  rw [isArchived, hr', any_some]

omit [LinearOrder τ] in
theorem good_empty (e : Bool) : Good e ({} : SessionMeta τ) := ⟨by simp, by simp, by simp⟩

omit [LinearOrder τ] in
theorem good_effect (h : Good e r) (c : Change) (now : τ) (u : Option τ) (l : Option JsString) :
    Good e { c.effect r now with updatedAt := u, legacyKey := l } ↔ (c = .pin → r.archived = false) := by
  obtain ⟨hx, hd, ha⟩ := h
  by_cases hc : c = .pin
  · subst hc
    constructor
    · rintro ⟨hx', -, -⟩ -
      by_contra hr
      exact hx' ⟨by simpa [Change.effect] using hr, rfl⟩
    · intro hr
      refine ⟨?_, hd, ha⟩
      rintro ⟨hr', -⟩
      have hr'' : r.archived = true := hr'
      rw [hr rfl] at hr''
      cases hr''
  · refine ⟨fun _ hc' => absurd hc' hc, fun _ => ?_⟩
    cases c with
    | archive | unarchive => exact ⟨by simp [Change.effect], by simp [Change.effect], by simp [Change.effect]⟩
    | pin => exact absurd rfl hc
    | unpin => exact ⟨by simp [Change.effect], hd, ha⟩
    | rename name => exact ⟨hx, hd, ha⟩

/-- A change on a good record leaves it good, a pin of an archived one apart. -/
theorem goodAt_onRecord {stored : Option (SessionMeta τ)} (h : GoodAt e stored) (c : Change) (legacyKey : JsString) (now : τ) :
    GoodAt e (c.onRecord stored legacyKey now) ↔ (c = .pin → ∀ r, stored = some r → r.archived = true → staleFor r now = true) := by
  rw [Change.onRecord]
  by_cases ha : c.applies stored now = true
  · rw [if_pos ha]
    have hsome : GoodAt e (some { c.effect (stored.getD {}) now with updatedAt := some now, legacyKey := some legacyKey }) ↔
        (c = .pin → (stored.getD {}).archived = false) := by
      have hbase : Good e (stored.getD {}) := by
        cases stored with
        | none => exact good_empty e
        | some r => exact h r rfl
      rw [← good_effect hbase c now (some now) (some legacyKey)]
      exact ⟨fun hg => hg _ rfl, fun hg r hr => some.inj hr ▸ hg⟩
    rw [hsome]
    refine imp_congr_right fun _ => ?_
    cases stored with
    | none => simp
    | some r =>
      have hfresh : staleFor r now = false := by simpa [Change.applies] using ha
      simp [hfresh]
  · rw [if_neg ha]
    refine ⟨?_, fun _ => h⟩
    rintro - rfl r rfl -
    simpa [Change.applies] using ha

/-! ## Archiving many -/

/-- Archived by this request, and perhaps still pinned. -/
def Awaiting (now : τ) (r : SessionMeta τ) : Prop :=
  r.archived = true ∧ r.archivedAt.isSome ∧ r.updatedAt = some now

/-- Between the two loops: good, or one of the keys still to be unpinned. -/
def HalfArchived (excepted : JsString → Bool) (now : τ) (keys : List JsString) (s : Sessions τ) : Prop :=
  ∀ k r, s.get k = some r → Good (excepted k) r ∨ k ∈ keys ∧ Awaiting now r

theorem setRecord_archive (stored : Option (SessionMeta τ)) {legacyKey : JsString} :
    stored = some (setRecord stored { archived := true } legacyKey now) ∨
      Awaiting now (setRecord stored { archived := true } legacyKey now) := by
  cases hs : staleFor (stored.getD {}) now with
  | true =>
    cases stored with
    | none => cases hs
    | some r => exact .inl (congrArg some (setRecord_stale hs ..).symm)
  | false =>
    refine .inr ?_
    rw [setRecord_fresh hs]
    refine ⟨rfl, ?_, rfl⟩
    cases (stored.getD {}).archivedAt <;> rfl

theorem half_setField (h : HalfArchived excepted now keys s) {key : JsString} (hk : key ∈ keys) (legacyKey : JsString) :
    HalfArchived excepted now keys (setField s key { archived := true } legacyKey now) := by
  intro k r hr
  rw [get_setField] at hr
  split at hr
  · next heq =>
    obtain rfl := some.inj hr
    rcases setRecord_archive (s.get key) with hst | hst
    · rw [heq]
      exact h key _ hst
    · exact .inr ⟨heq ▸ hk, hst⟩
  · exact h k r hr

theorem half_setFields (resolver : JsString → Option JsString) (ps : List JsString) (h : HalfArchived excepted now keys s)
    (hps : ∀ p ∈ ps, pathToKey resolver p ∈ keys) : HalfArchived excepted now keys
      (ps.foldl (fun s p => setField s (pathToKey resolver p) { archived := true } p now) s) := by
  induction ps generalizing s with
  | nil => exact h
  | cons p ps ih =>
    refine ih (half_setField h (hps p (mem_cons_self ..)) p) ?_
    exact fun q hq => hps q (mem_cons_of_mem p hq)

theorem good_clear_pinned (h : Good e r) (legacyKey : JsString) (now : τ) : Good e (clearRecord r .pinned legacyKey now) := by
  rw [clearRecord]
  split
  · exact h
  · exact ⟨by simp [SessionMeta.drop], h.dated, h.archived⟩

theorem awaiting_unpinned (h : Awaiting now r) (legacyKey : JsString) :
    Good e (if r.pinned = true then clearRecord r .pinned legacyKey now else r) := by
  obtain ⟨ha, hat, hu⟩ := h
  split
  · rw [clearRecord_fresh (staleFor_stamped hu)]
    exact ⟨by simp [SessionMeta.drop], fun _ => ha, fun _ => .inl hat⟩
  · next hp => exact ⟨fun hx => hp hx.2, fun _ => ha, fun _ => .inl hat⟩

theorem half_autoUnpin {key : JsString} (h : HalfArchived excepted now (key :: keys) s) (legacyKey : JsString) :
    HalfArchived excepted now keys (autoUnpin s key legacyKey now) := by
  intro k r hr
  rw [get_autoUnpin] at hr
  split at hr
  · next heq =>
    subst heq
    obtain ⟨q, hq, rfl⟩ := map_eq_some_iff.mp hr
    refine .inl ?_
    rcases h k q hq with hg | ⟨-, haw⟩
    · split
      · exact good_clear_pinned hg legacyKey now
      · exact hg
    · exact awaiting_unpinned haw legacyKey
  · next hne =>
    rcases h k r hr with hg | ⟨hk, haw⟩
    · exact .inl hg
    · exact .inr ⟨(mem_cons.mp hk).resolve_left hne, haw⟩

theorem half_autoUnpins (legacy : Sessions τ → JsString → JsString) (keys : List JsString) (h : HalfArchived excepted now keys s) :
    HalfArchived excepted now [] (keys.foldl (fun s key => autoUnpin s key (legacy s key) now) s) := by
  induction keys generalizing s with
  | nil => exact h
  | cons key keys ih => exact ih (half_autoUnpin h _)

/-- Archiving many keeps every record good. -/
theorem good_addArchivedPaths (resolver : JsString → Option JsString)
    (h : ∀ k, GoodAt (excepted k) (s.get k)) (ps : List JsString) (now : τ) (k : JsString) :
    GoodAt (excepted k) ((addArchivedPaths resolver s ps now).get k) := by
  have hall : HalfArchived excepted now [] (addArchivedPaths resolver s ps now) := by
    refine half_autoUnpins (fun s key => ((s.get key).bind (·.legacyKey)).getD key) _ ?_
    refine half_setFields resolver ps (fun k r hr => .inl (h k r hr)) ?_
    intro p hp
    exact mem_eraseDups.mpr (mem_map_of_mem hp)
  intro r hr
  exact (hall k r hr).resolve_right fun hk => not_mem_nil hk.1

/-! ## A patch -/

omit [LinearOrder τ] in
theorem good_iff : Good e r ↔ ¬ (r.archived = true ∧ r.pinned = true) ∧ (r.archivedAt.isSome = true → r.archived = true) ∧
      (r.archived = true → r.archivedAt.isSome = true ∨ e = true) :=
  ⟨fun ⟨hx, hd, ha⟩ => ⟨hx, hd, ha⟩, fun ⟨hx, hd, ha⟩ => ⟨hx, hd, ha⟩⟩

/-- The flags of a good record under the flags of an undated one: `a`, `p`, `d` the stored
    record's, `ra`, `rp` the incoming one's. -/
theorem flags_merge : ∀ e a p d ra rp pe : Bool,
    (¬ (a = true ∧ p = true) ∧ (d = true → a = true) ∧ (a = true → d = true ∨ e = true)) → (e = true → a = true) →
      ((¬ ((ra || a) = true ∧ (rp || p) = true) ∧ (d = true → (ra || a) = true) ∧
          ((ra || a) = true → d = true ∨ (e || pe && (ra && !a)) = true)) ↔
        (rp = true → a = false ∧ ra = false) ∧ (ra = true → p = false ∧ (a = true ∨ pe = true))) := by
  intro e a p d ra rp pe
  cases a <;> cases ra <;> cases d <;> simp +contextual [and_assoc]

theorem goodAt_applyLWW {stored : Option (SessionMeta τ)} (h : GoodAt e stored)
    (he : e = true → stored.any (·.archived) = true) (hr : Migrated now r) :
    GoodAt (e || patchExcepted && (r.archived && !stored.any (·.archived))) (some (applyLWW stored r).record) ↔
      (staleFor (stored.getD {}) now = false →
        (r.pinned = true → stored.any (·.archived) = false ∧ r.archived = false) ∧
        (r.archived = true → (stored.getD {}).pinned = false ∧ (stored.any (·.archived) = true ∨ patchExcepted = true))) := by
  have hbase : Good e (stored.getD {}) := by
    cases stored with
    | none => exact good_empty e
    | some q => exact h q rfl
  have harch : stored.any (·.archived) = (stored.getD {}).archived := by cases stored <;> rfl
  rw [harch] at he ⊢
  obtain ⟨hat, hu⟩ := hr
  cases hs : staleFor (stored.getD {}) now with
  | true =>
    have hst : (applyLWW stored r).record = stored.getD {} := by simp [applyLWW, hu, hs]
    rw [hst]
    refine ⟨(fun _ h => by cases h), fun _ q hq => ?_⟩
    obtain rfl := some.inj hq
    exact ⟨hbase.exclusive, hbase.dated, fun ha => (hbase.archived ha).imp id fun he => by simp [he]⟩
  | false =>
    have hrec : (applyLWW stored r).record.archived = (r.archived || (stored.getD {}).archived) ∧
        (applyLWW stored r).record.pinned = (r.pinned || (stored.getD {}).pinned) ∧
        (applyLWW stored r).record.archivedAt = (stored.getD {}).archivedAt := by
      simp [applyLWW, hu, hs, hat]
    obtain ⟨h1, h2, h3⟩ := hrec
    have hsome : ∀ x (q : SessionMeta τ), GoodAt x (some q) ↔ Good x q := fun x q =>
      ⟨fun hg => hg q rfl, fun hg q' hq => some.inj hq ▸ hg⟩
    rw [hsome, good_iff, h1, h2, h3, flags_merge _ _ _ _ _ _ _ (good_iff.mp hbase) he]
    simp

/-! ## Runs -/

/-- A request keeps a good map good exactly when it keeps archived and pinned apart. -/
theorem step_exclusive_iff {t : Tracked τ} (h : Exclusive t) (q : Request τ) :
    Exclusive (t.step patchExcepted q) ↔ q.Separate patchExcepted t := by
  rw [exclusive_step_iff]
  have hgood : ∀ k, GoodAt (t.undated k) (t.sessions.get k) := h
  obtain ⟨resolver, w⟩ := q
  cases w with
  | delta d =>
    simp only [Request.patchArchives, Bool.and_false, Bool.or_false, Request.run, Request.Separate]
    have hrun := get_run resolver t.sessions d
    constructor
    · intro hk
      have hkey := hk (d.key resolver)
      rw [hrun, if_pos rfl] at hkey
      exact (goodAt_onRecord (hgood _) d.change d.legacyKey d.now).mp hkey
    · intro hd k
      rw [hrun]
      split
      · next heq =>
        subst heq
        exact (goodAt_onRecord (hgood _) d.change d.legacyKey d.now).mpr hd
      · exact hgood k
  | archiveAll ps now =>
    simp only [Request.patchArchives, Bool.and_false, Bool.or_false, Request.run, Request.Separate, iff_true]
    exact good_addArchivedPaths resolver hgood ps now
  | patch v1 now =>
    simp only [Request.patchArchives, Request.run, Request.Separate]
    refine forall_congr' fun k => ?_
    rw [get_mergePatch, ← migrate_archived resolver now, ← migrate_pinned resolver now]
    cases hm : (migrateV1ToV2 resolver now v1).get k with
    | none => simpa using hgood k
    | some r => exact goodAt_applyLWW patchExcepted (hgood k) (t.undated_archived k) (migrate_migrated resolver now v1 hm)

/-- The file a run starts from: a v2 map, of which `byMigration` names the sessions an
    earlier migration archived, or a v1 form, migrated when it is read. -/
inductive Start (τ : Type)
  | v2 (sessions : Sessions τ) (byMigration : JsString → Bool)
  | v1 (resolver : JsString → Option JsString) (now : τ) (form : V1Preferences)

def Start.sessions : Start τ → Sessions τ
  | .v2 sessions _ => sessions
  | .v1 resolver now form => migrateV1ToV2 resolver now form

def Start.tracked (st : Start τ) : Tracked τ :=
  { sessions := st.sessions
    undated := fun k =>
      isArchived st.sessions k && match st with
        | .v2 _ byMigration => byMigration k
        | .v1 _ _ _ => true
    undated_archived := fun _ h => (Bool.and_eq_true_iff.mp h).1 }

/-- A v2 file has exclusive records, dated exactly while archived; a v1 form has no session
    in both arrays. -/
def Start.Separate : Start τ → Prop
  | .v2 sessions byMigration => ∀ k r, sessions.get k = some r → Good (byMigration k) r
  | .v1 resolver _ form => ∀ k, form.archives resolver k = true → form.pins resolver k = false

omit [LinearOrder τ] in
theorem good_migrated (h : Migrated now r) : Good true r ↔ (r.archived = true → r.pinned = false) := by
  rw [good_iff, h.1]
  simp

omit [LinearOrder τ] in
theorem start_exclusive_iff (st : Start τ) : Exclusive st.tracked ↔ st.Separate := by
  have hk : ∀ k r e, st.sessions.get k = some r → (Good (isArchived st.sessions k && e) r ↔ Good e r) := by
    intro k r e hr
    exact good_and_archived (by rw [isArchived, hr, any_some])
  cases st with
  | v2 sessions byMigration =>
    exact forall_congr' fun k => forall_congr' fun r => imp_congr_right fun hr => hk k r (byMigration k) hr
  | v1 resolver now form =>
    refine forall_congr' fun k => ?_
    rw [← migrate_archived resolver now, ← migrate_pinned resolver now]
    constructor
    · intro h
      cases hm : (migrateV1ToV2 resolver now form).get k with
      | none => exact fun _ => rfl
      | some r => exact (good_migrated (migrate_migrated resolver now form hm)).mp ((hk k r true hm).mp (h r hm))
    · intro h r hm
      rw [show (migrateV1ToV2 resolver now form).get k = some r from hm] at h
      exact (hk k r true hm).mpr ((good_migrated (migrate_migrated resolver now form hm)).mpr h)

/-- Along a run from any file: every map reached keeps archived and pinned apart, and dates
    exactly the archived records, if and only if the file did and every request does. -/
theorem exclusive_iff (st : Start τ) (qs : List (Request τ)) : (Exclusive st.tracked ∧
      Run.Along (Tracked.step patchExcepted) (fun t q => Exclusive (t.step patchExcepted q)) st.tracked qs) ↔
      st.Separate ∧ Run.Along (Tracked.step patchExcepted) (fun t q => q.Separate patchExcepted t) st.tracked qs := by
  rw [← start_exclusive_iff]
  refine and_congr_right fun h => ?_
  refine Run.along_iff_of_invariant (I := Exclusive) ?_ ?_ h
  · intro t q ht hq
    exact (step_exclusive_iff patchExcepted ht q).mpr hq
  · intro t q ht
    exact step_exclusive_iff patchExcepted ht q

/-- A session archived at 1 and pinned at 2 has both flags. -/
theorem a_pin_of_an_archived_session : let st : Start ℕ := .v2 (JsMap.empty.set (js "claude:s")
      { archived := true, archivedAt := some 1, updatedAt := some 1 }) fun _ => false
    let q : Request ℕ := ⟨fun _ => none, .delta ⟨.key (js "claude:s"), .pin, 2⟩⟩
    Exclusive st.tracked ∧ ¬ Exclusive (st.tracked.step false q) := by
  refine ⟨(start_exclusive_iff _).mpr ?_, ?_⟩
  · intro k r hr
    rw [JsMap.get_set] at hr
    split at hr
    · obtain rfl := some.inj hr
      exact ⟨by simp, by simp, by simp⟩
    · cases hr
  · intro h
    have hboth := h (js "claude:s")
      { archived := true, archivedAt := some 1, pinned := true, updatedAt := some 2, legacyKey := some (js "claude:s") }
      (by decide)
    exact hboth.exclusive ⟨rfl, rfl⟩

end PiWebUi.Preferences
