/-
  PiWebUi.Registry.Indexes — the indexes answer like a search through the entries.

  After a load the five indexes have the first entry with each key. Patches keep that, and
  so does an upsert that appends. An upsert that changes a path or a native id of an entry
  keeps it exactly if no later entry has the old or the new one, unless an earlier one has
  it too; a deletion exactly if no other entry that goes with it was the first with one of
  its keys (`answers_iff_keeps_first`). Where it fails, an upsert can find an entry that is no
  longer in the list and write outside it (`a_write_outside_the_list`).
-/

import PiWebUi.Registry.SessionRegistry
import PiWebUi.Lib.Run

namespace PiWebUi.Registry

open PiWebUi.Lib List

/-! ## What the objects' keys are -/

namespace RegistryEntry

theorem value_spread (e f : RegistryEntry) (k : JsString) : (spread e f).value k = (f.get k).elim (e.value k) id := by
  have h := JsMap.get_foldl_set (fun _ c => c) f e k
  simp only [value, spread]
  rw [h]
  cases f.get k <;> rfl

theorem value_set (e : RegistryEntry) (j k : JsString) (v : Option Json) :
    value (e.set j v) k = if k = j then v else e.value k := by
  simp only [value, JsMap.get_set]
  by_cases h : k = j <;> simp [h]

theorem value_assign {k : JsString} {properties : List (JsString × Option JsString)} (hk : k ∉ properties.map (·.1))
    (e : RegistryEntry) : value (RegistryEntry.assign e properties) k = e.value k := by
  induction properties generalizing e with
  | nil => rfl
  | cons p properties ih =>
    simp only [map_cons, mem_cons, not_or] at hk
    rw [RegistryEntry.assign, foldl_cons]
    refine (ih hk.2 _).trans ?_
    split
    · rw [value_set, if_neg hk.1]
    · rfl

end RegistryEntry

open RegistryEntry

namespace SessionRegistry

theorem value_sessionClassPreserved (existing incoming : RegistryEntry) {k : JsString} (hk : k ≠ js "sessionClass") :
    (sessionClassPreserved existing incoming).get k = none := by
  unfold sessionClassPreserved
  simp only
  split
  · rw [JsMap.get_set_ne _ _ hk, JsMap.get_empty]
  · rfl

/-- What an upsert leaves at a property it does not set itself. -/
theorem value_merged (now : JsString) (existing entry : RegistryEntry) {k : JsString}
    (hk : k ∉ [js "id", js "updatedAt", js "lastActivity", js "sessionClass"]) :
    (merged now existing entry).value k = (existing.spread entry).value k := by
  simp only [mem_cons, not_mem_nil, or_false, not_or] at hk
  obtain ⟨hid, hupdated, hlast, hclass⟩ := hk
  simp only [merged]
  rw [value_spread, value_sessionClassPreserved existing entry hclass, Option.elim_none, value_set, if_neg hlast, value_set,
    if_neg hupdated, value_set, if_neg hid]

theorem value_merged_id (now : JsString) (existing entry : RegistryEntry) :
    (merged now existing entry).value (js "id") = existing.value (js "id") := by
  simp only [merged]
  rw [value_spread, value_sessionClassPreserved existing entry (by decide), Option.elim_none, value_set, if_neg (by decide), value_set,
    if_neg (by decide), value_set, if_pos rfl]

variable {f : Field} {entry : RegistryEntry} {now uuid : JsString}

theorem indexKey_congr {e e' : RegistryEntry} (h : e.value f.name = e'.value f.name) : indexKey f e = indexKey f e' := by
  simp only [indexKey, h]

theorem indexKey_merged (now : JsString) (existing entry : RegistryEntry) (hf : f ≠ .id) :
    indexKey f (merged now existing entry) = indexKey f (existing.spread entry) := by
  refine indexKey_congr (value_merged now existing entry ?_)
  cases f with
  | id => exact absurd rfl hf
  | path | claudeSessionId | opencodeSessionId | commandCodeNativeSessionId => decide

theorem indexKey_merged_id (now : JsString) (existing entry : RegistryEntry) :
    indexKey .id (merged now existing entry) = indexKey .id existing :=
  indexKey_congr (value_merged_id now existing entry)

theorem indexKey_eq_some {e : RegistryEntry} {k : JsString} :
    indexKey f e = some k ↔ e.value f.name = some (.str k) ∧ (f = .id ∨ k ≠ []) := by
  unfold indexKey
  split
  · next j hj =>
    rw [hj]
    split
    · next h =>
      simp only [Option.some.injEq, Json.str.injEq]
      constructor
      · rintro rfl
        exact ⟨rfl, h⟩
      · exact fun hk => hk.1
    · next h =>
      simp only [Option.some.injEq, Json.str.injEq, reduceCtorEq, false_iff, not_and]
      rintro rfl
      exact h
  · next hnot =>
    simp only [reduceCtorEq, false_iff, not_and]
    intro hv
    exact absurd hv (hnot k)

/-! ## The invariant -/

variable {r : SessionRegistry}

/-- The indexes have the first entry with each key, and the list has each object once. -/
structure Synced (r : SessionRegistry) : Prop where
  indexed : ∀ f, FirstIndex.Indexes (r.keyOf f) (r.index f) r.entries
  nodup : r.entries.Nodup
  stored : ∀ ref ∈ r.entries, ref < r.heap.length
  inside : r.outside = []

/-- The search the indexes stand for. -/
def scan (r : SessionRegistry) (f : Field) (key : JsString) : Option ℕ :=
  r.entries.find? fun ref => (r.entryAt ref).value f.name = some (.str key)

/-- Each lookup has the first entry with the key; an empty path or native id is no key. -/
structure AnswersLikeScan (r : SessionRegistry) : Prop where
  scanned : ∀ f key, (f = .id ∨ key ≠ []) → r.lookup f key = r.scan f key
  unkeyed : ∀ f, f ≠ .id → r.lookup f [] = none
  inside : r.outside = []

theorem first_eq_scan {key : JsString} (h : f = .id ∨ key ≠ []) : FirstIndex.first (r.keyOf f) r.entries key = r.scan f key := by
  have hkey : (fun ref => decide (r.keyOf f ref = some key)) = fun ref => decide ((r.entryAt ref).value f.name = some (.str key)) := by
    funext ref
    simp [keyOf, indexKey_eq_some, h]
  rw [FirstIndex.first, scan, hkey]

theorem first_unkeyed (h : f ≠ .id) : FirstIndex.first (r.keyOf f) r.entries [] = none := by
  rw [FirstIndex.first_eq_none]
  intro ref _ hkey
  rcases (indexKey_eq_some.mp hkey).2 with hid | hne
  · exact h hid
  · exact hne rfl

theorem answersLikeScan_iff : AnswersLikeScan r ↔ (∀ f, FirstIndex.Indexes (r.keyOf f) (r.index f) r.entries) ∧ r.outside = [] := by
  constructor
  · intro h
    refine ⟨fun f key => ?_, h.inside⟩
    by_cases hk : f = .id ∨ key ≠ []
    · rw [first_eq_scan hk]
      exact h.scanned f key hk
    · simp only [not_or, not_not] at hk
      obtain ⟨hid, rfl⟩ := hk
      rw [first_unkeyed hid]
      exact h.unkeyed f hid
  · rintro ⟨h, hinside⟩
    constructor
    · intro f key hk
      rw [← first_eq_scan hk]
      exact h f key
    · intro f hf
      rw [← first_unkeyed hf]
      exact h f []
    · exact hinside

theorem Synced.answers (h : Synced r) : AnswersLikeScan r := answersLikeScan_iff.mpr ⟨h.indexed, h.inside⟩

/-! ## Loading -/

theorem foldl_addEntryToIndexes (l : List ℕ) (r : SessionRegistry) :
    l.foldl addEntryToIndexes r = { r with index := fun f => l.foldl (FirstIndex.add (r.keyOf f)) (r.index f) } := by
  induction l generalizing r with
  | nil => rfl
  | cons x l ih =>
    rw [foldl_cons, ih]
    rfl

theorem synced_rebuildIndexes (heap : List RegistryEntry) (n : ℕ) (h : n ≤ heap.length) :
    Synced (rebuildIndexes { heap := heap, entries := List.range n }) := by
  rw [rebuildIndexes, foldl_addEntryToIndexes]
  constructor
  · intro f
    exact FirstIndex.indexes_build _ _
  · exact nodup_range
  · intro ref href
    exact lt_of_lt_of_le (mem_range.mp href) h
  · rfl

theorem synced_load {stored : Stored} (h : load stored = some r) : Synced r := by
  cases stored with
  | missing =>
    cases h
    exact synced_rebuildIndexes [] 0 (Nat.le_refl 0)
  | unreadable => cases h
  | content raw =>
    simp only [load] at h
    split at h
    · split at h
      · obtain ⟨objects, -, rfl⟩ := Option.map_eq_some_iff.mp h
        exact synced_rebuildIndexes objects objects.length (Nat.le_refl _)
      · cases h
    · cases h

/-! ## Patches -/

theorem entryAt_assign_value (ref : ℕ) (properties : List (JsString × Option JsString))
    (hf : f.name ∉ properties.map (·.1)) (other : ℕ) :
    ((r.assign ref properties).entryAt other).value f.name = (r.entryAt other).value f.name := by
  simp only [assign, entryAt, getD_eq_getElem?_getD, getElem?_modify]
  by_cases h : ref = other
  · subst h
    cases hget : r.heap[ref]? with
    | none => simp
    | some e => simpa using value_assign hf e
  · simp [h]

theorem Synced.assign (h : Synced r) (ref : ℕ) (properties : List (JsString × Option JsString))
    (hf : ∀ f : Field, f.name ∉ properties.map (·.1)) : Synced (r.assign ref properties) := by
  constructor
  · intro f
    refine (h.indexed f).congr fun other _ => ?_
    exact indexKey_congr (entryAt_assign_value ref properties (hf f) other).symm
  · exact h.nodup
  · intro other hother
    rw [SessionRegistry.assign, length_modify]
    exact h.stored other hother
  · exact h.inside

theorem Synced.patchSessionMeta (h : Synced r) (now id : JsString) (patch : MetaPatch) : Synced (r.patchSessionMeta now id patch) := by
  unfold SessionRegistry.patchSessionMeta
  split
  · exact h
  · refine h.assign _ _ ?_
    intro f
    cases f <;> simp only [map_cons, map_nil] <;> decide

theorem Synced.updateStatus (h : Synced r) (now id status : JsString) : Synced (r.updateStatus now id status) := by
  unfold SessionRegistry.updateStatus
  split
  · exact h
  · refine h.assign _ _ ?_
    intro f
    cases f <;> simp only [map_cons, map_nil] <;> decide

/-! ## Deletions -/

/-- Whether a deletion leaves the indexes at the first entries: no other entry that goes was the
    first with one of its keys. -/
def DeletesFirst (r : SessionRegistry) (id : JsString) : Prop :=
  ∀ ref, r.get id = some ref → ∀ f k other, FirstIndex.first (r.keyOf f) r.entries k = some other → other ≠ ref →
    (r.entryAt other).value (js "id") ≠ some (.str id)

theorem delete_some {id : JsString} {ref : ℕ} (h : r.get id = some ref) : r.delete id = { r with
      entries := r.entries.filter fun e => (r.entryAt e).value (js "id") ≠ some (Json.str id)
      index := fun f => ((r.entries.filter fun e => (r.entryAt e).value (js "id") ≠ some (Json.str id)).filter fun candidate =>
          Field.all.any fun g => strictEq ((r.entryAt candidate).value g.name) ((r.entryAt ref).value g.name)).foldl
        (FirstIndex.add (r.keyOf f)) (FirstIndex.remove (r.keyOf f) (r.index f) ref) } := by
  simp only [delete, h, restoreIndexesAfterDelete, foldl_addEntryToIndexes, removeEntryFromIndexes]
  rfl

theorem delete_indexed_iff (h : Synced r) (id : JsString) :
    (∀ f, FirstIndex.Indexes ((r.delete id).keyOf f) ((r.delete id).index f) (r.delete id).entries) ↔ DeletesFirst r id := by
  cases hget : r.get id with
  | none =>
    have hsame : r.delete id = r := by simp [delete, hget]
    rw [hsame]
    constructor
    · intro _ ref href
      rw [hget] at href
      cases href
    · exact fun _ => h.indexed
  | some ref =>
    have hiff : ∀ f, FirstIndex.Indexes ((r.delete id).keyOf f) ((r.delete id).index f) (r.delete id).entries ↔
        ∀ k other, FirstIndex.first (r.keyOf f) r.entries k = some other → other ≠ ref →
          decide ((r.entryAt other).value (js "id") ≠ some (.str id)) = true := by
      intro f
      rw [delete_some hget]
      refine FirstIndex.indexes_delete_iff (h.indexed f) fun k z hx hz => ?_
      rw [any_eq_true]
      refine ⟨f, by cases f <;> decide, ?_⟩
      rw [(indexKey_eq_some.mp hx).1, (indexKey_eq_some.mp hz).1]
      simp [strictEq]
    constructor
    · intro hall ref' href' f k other hfirst hne
      obtain rfl := Option.some.inj (hget.symm.trans href')
      exact of_decide_eq_true ((hiff f).mp (hall f) k other hfirst hne)
    · intro hdel f
      exact (hiff f).mpr fun k other hfirst hne => decide_eq_true (hdel ref hget f k other hfirst hne)

theorem Synced.delete (h : Synced r) {id : JsString} (hdel : DeletesFirst r id) : Synced (r.delete id) := by
  have hindexed := (delete_indexed_iff h id).mpr hdel
  cases hget : r.get id with
  | none =>
    have hsame : r.delete id = r := by simp [SessionRegistry.delete, hget]
    rw [hsame]
    exact h
  | some ref =>
    refine ⟨hindexed, ?_, ?_, ?_⟩
    · rw [delete_some hget]
      exact h.nodup.filter _
    · rw [delete_some hget]
      intro other hother
      exact h.stored other (mem_filter.mp hother).1
    · rw [delete_some hget]
      exact h.inside

/-! ## Upserts -/

theorem resolve_mem (h : Synced r) {ref : ℕ} (hr : r.resolve entry = some ref) : ref ∈ r.entries := by
  obtain ⟨f, -, hf⟩ := exists_of_findSome?_eq_some hr
  split at hf
  · split at hf
    · cases hf
    · exact (h.indexed f).mem hf
  · cases hf

/-- A new object leaves the keys of the others. -/
theorem entryAt_old {heap : List RegistryEntry} {ref : ℕ} (h : ref < r.heap.length) (hheap : heap = r.heap) (e : RegistryEntry) :
    ({ r with heap := heap ++ [e] } : SessionRegistry).entryAt ref = r.entryAt ref := by
  subst hheap
  simp [entryAt, getD_eq_getElem?_getD, getElem?_append_left h]

theorem writeAt_of_mem {a b : List ℕ} {existing updated : ℕ} (hr : r.entries = a ++ existing :: b) (ha : existing ∉ a) :
    r.writeAt existing updated = { r with entries := a ++ updated :: b } := by
  have hfind : r.entries.findIdx? (· = existing) = some a.length := by
    rw [hr, findIdx?_append]
    have hnone : a.findIdx? (fun x => decide (x = existing)) = none := by
      rw [findIdx?_eq_none_iff]
      intro x hx
      exact decide_eq_false fun heq => ha (heq ▸ hx)
    simp [hnone, findIdx?_cons]
  have hset : r.entries.set a.length updated = a ++ updated :: b := by
    rw [hr, set_append_right _ _ (Nat.le_refl _), Nat.sub_self, set_cons_zero]
  simp only [writeAt, hfind, hset]

/-- The registry after an upsert of the entry `existing`. -/
theorem upsert_existing {uuid : JsString} {a b : List ℕ} {existing : ℕ}
    (hbound : (r.boundElsewhere entry).isSome = false) (hr : r.resolve entry = some existing)
    (hentries : r.entries = a ++ existing :: b) (ha : existing ∉ a) :
    let grown : SessionRegistry := { r with heap := r.heap ++ [merged now (r.entryAt existing) entry] }
    r.upsert now uuid entry = (some r.heap.length, { grown with
      entries := a ++ r.heap.length :: b
      index := fun f => FirstIndex.add (grown.keyOf f) (FirstIndex.remove (grown.keyOf f) (r.index f) existing) r.heap.length }) := by
  intro grown
  have hwrite : (grown.removeEntryFromIndexes existing).writeAt existing r.heap.length =
      { grown.removeEntryFromIndexes existing with entries := a ++ r.heap.length :: b } := writeAt_of_mem hentries ha
  simp only [upsert, hbound, hr, Bool.false_eq_true, if_false]
  rw [hwrite]
  rfl

/-- Whether an upsert leaves the indexes at the first entries: where it changes a path or native
    id, a later entry has the old or the new one only if an earlier one has it too. -/
def ReplacesFirst (r : SessionRegistry) (entry : RegistryEntry) : Prop :=
  (r.boundElsewhere entry).isSome ∨ ∀ existing a b, r.resolve entry = some existing → r.entries = a ++ existing :: b →
    ∀ f, f ≠ .id → r.keyOf f existing ≠ indexKey f ((r.entryAt existing).spread entry) →
      ∀ k, (r.keyOf f existing = some k ∨ indexKey f ((r.entryAt existing).spread entry) = some k) →
        FirstIndex.first (r.keyOf f) a k = none → FirstIndex.first (r.keyOf f) b k = none

theorem upsert_existing_indexed_iff (h : Synced r) {a b : List ℕ} {existing : ℕ}
    (hbound : (r.boundElsewhere entry).isSome = false) (hr : r.resolve entry = some existing)
    (hentries : r.entries = a ++ existing :: b) :
    (∀ f, FirstIndex.Indexes ((r.upsert now uuid entry).2.keyOf f) ((r.upsert now uuid entry).2.index f)
        (r.upsert now uuid entry).2.entries) ↔ ReplacesFirst r entry := by
  have hnodup := h.nodup
  rw [hentries, nodup_append, nodup_cons] at hnodup
  obtain ⟨hna, ⟨hxb, -⟩, hab⟩ := hnodup
  have hxa : existing ∉ a := fun hmem => hab existing hmem existing mem_cons_self rfl
  have hmem : ∀ ref ∈ a ++ existing :: b, ref < r.heap.length := fun ref href => h.stored ref (hentries ▸ href)
  have hub : r.heap.length ∉ b := fun hin =>
    Nat.lt_irrefl _ (hmem _ (mem_append_right a (mem_cons_of_mem existing hin)))
  rw [upsert_existing hbound hr hentries hxa]
  generalize hgrown : ({ r with heap := r.heap ++ [merged now (r.entryAt existing) entry] } : SessionRegistry) = grown
  have hold : ∀ f, ∀ ref ∈ a ++ existing :: b, grown.keyOf f ref = r.keyOf f ref := by
    intro f ref href
    rw [keyOf, ← hgrown, entryAt_old (hmem ref href) rfl, keyOf]
  have hnew : ∀ f, grown.keyOf f r.heap.length = indexKey f (merged now (r.entryAt existing) entry) := by
    intro f
    rw [← hgrown]
    simp [keyOf, entryAt]
  have hindexed : ∀ f, FirstIndex.Indexes (grown.keyOf f) (r.index f) (a ++ existing :: b) := by
    intro f
    refine (hentries ▸ h.indexed f).congr ?_
    intro ref href
    exact (hold f ref href).symm
  have hfirst : ∀ f k, FirstIndex.first (grown.keyOf f) a k = FirstIndex.first (r.keyOf f) a k ∧
      FirstIndex.first (grown.keyOf f) b k = FirstIndex.first (r.keyOf f) b k := by
    intro f k
    constructor
    · exact FirstIndex.first_congr (fun z hz => hold f z (mem_append_left _ hz)) k
    · exact FirstIndex.first_congr (fun z hz => hold f z (mem_append_right _ (mem_cons_of_mem _ hz))) k
  have hex : ∀ f, grown.keyOf f existing = r.keyOf f existing := fun f =>
    hold f existing (mem_append_right _ mem_cons_self)
  have hiff : ∀ f, FirstIndex.Indexes (grown.keyOf f)
      (FirstIndex.add (grown.keyOf f) (FirstIndex.remove (grown.keyOf f) (r.index f) existing) r.heap.length)
      (a ++ r.heap.length :: b) ↔
      (r.keyOf f existing ≠ indexKey f (merged now (r.entryAt existing) entry) →
        ∀ k, (r.keyOf f existing = some k ∨ indexKey f (merged now (r.entryAt existing) entry) = some k) →
          FirstIndex.first (r.keyOf f) a k = none → FirstIndex.first (r.keyOf f) b k = none) := by
    intro f
    rw [FirstIndex.indexes_replace_iff (hindexed f) hxa hub]
    simp only [hex, hnew, fun k => (hfirst f k).1, fun k => (hfirst f k).2]
  constructor
  · intro hall
    refine Or.inr fun existing' a' b' hr' hentries' f hf => ?_
    obtain rfl := Option.some.inj (hr.symm.trans hr')
    obtain ⟨rfl, -, rfl⟩ := (append_cons_inj_of_notMem hxa hxb).mp (hentries.symm.trans hentries')
    rw [← indexKey_merged now _ _ hf]
    exact (hiff f).mp (hall f)
  · intro hrep f
    refine (hiff f).mpr ?_
    rcases hrep with hsome | hrep
    · rw [hbound] at hsome
      cases hsome
    · by_cases hf : f = .id
      · -- The id stays, so nothing has to.
        subst hf
        rw [indexKey_merged_id]
        exact fun hne => absurd rfl hne
      · rw [indexKey_merged now _ _ hf]
        exact hrep existing a b hr hentries f hf

/-- An upsert of no entry appends one. -/
theorem upsert_new (hbound : (r.boundElsewhere entry).isSome = false) (hr : r.resolve entry = none) :
    let grown : SessionRegistry := { r with heap := r.heap ++ [created now uuid entry] }
    r.upsert now uuid entry = (some r.heap.length, { grown with
      entries := r.entries ++ [r.heap.length]
      index := fun f => FirstIndex.add (grown.keyOf f) (r.index f) r.heap.length }) := by
  intro grown
  simp only [upsert, hbound, hr, Bool.false_eq_true, if_false]
  rfl

theorem upsert_bound (hbound : (r.boundElsewhere entry).isSome = true) : r.upsert now uuid entry = (none, r) := by
  simp [upsert, hbound]

/-- The three things an upsert can do. -/
theorem upsert_cases (h : Synced r) (now uuid : JsString) (entry : RegistryEntry) :
    ((r.boundElsewhere entry).isSome = true ∧ r.upsert now uuid entry = (none, r)) ∨ (r.boundElsewhere entry).isSome = false ∧
      ((∃ existing a b, r.resolve entry = some existing ∧ r.entries = a ++ existing :: b ∧ existing ∉ a) ∨
        r.resolve entry = none) := by
  cases hbound : (r.boundElsewhere entry).isSome with
  | true => exact Or.inl ⟨rfl, upsert_bound hbound⟩
  | false =>
    refine Or.inr ⟨rfl, ?_⟩
    cases hr : r.resolve entry with
    | none => exact Or.inr rfl
    | some existing =>
      obtain ⟨a, b, hentries⟩ := append_of_mem (resolve_mem h hr)
      have hnodup := h.nodup
      rw [hentries, nodup_append] at hnodup
      exact Or.inl ⟨existing, a, b, rfl, hentries, fun hmem => hnodup.2.2 existing hmem existing mem_cons_self rfl⟩

theorem upsert_indexed_iff (h : Synced r) (now uuid : JsString) (entry : RegistryEntry) :
    (∀ f, FirstIndex.Indexes ((r.upsert now uuid entry).2.keyOf f) ((r.upsert now uuid entry).2.index f)
        (r.upsert now uuid entry).2.entries) ↔ ReplacesFirst r entry := by
  rcases upsert_cases h now uuid entry with ⟨hbound, heq⟩ | ⟨hbound, ⟨existing, a, b, hr, hentries, -⟩ | hr⟩
  · rw [heq]
    exact ⟨fun _ => Or.inl hbound, fun _ => h.indexed⟩
  · exact upsert_existing_indexed_iff h hbound hr hentries
  · rw [upsert_new hbound hr]
    constructor
    · intro _
      refine Or.inr fun existing a b hr' => ?_
      rw [hr] at hr'
      cases hr'
    · intro _ f
      refine FirstIndex.Indexes.append ((h.indexed f).congr fun ref href => ?_) _
      exact (congrArg (indexKey f) (entryAt_old (h.stored ref href) rfl _)).symm

theorem upsert_inside (h : Synced r) (now uuid : JsString) (entry : RegistryEntry) : (r.upsert now uuid entry).2.entries.Nodup ∧
      (∀ ref ∈ (r.upsert now uuid entry).2.entries, ref < (r.upsert now uuid entry).2.heap.length) ∧
      (r.upsert now uuid entry).2.outside = [] := by
  have hfresh : r.heap.length ∉ r.entries := fun hin => Nat.lt_irrefl _ (h.stored _ hin)
  rcases upsert_cases h now uuid entry with ⟨-, heq⟩ | ⟨hbound, ⟨existing, a, b, hr, hentries, ha⟩ | hr⟩
  · rw [heq]
    exact ⟨h.nodup, h.stored, h.inside⟩
  · rw [upsert_existing hbound hr hentries ha]
    have hnodup := h.nodup
    rw [hentries] at hnodup hfresh
    have hmem : ∀ ref ∈ a ++ r.heap.length :: b, ref = r.heap.length ∨ ref ∈ r.entries := by
      intro ref href
      rw [hentries]
      simp only [mem_append, mem_cons] at href ⊢
      tauto
    refine ⟨?_, ?_, h.inside⟩
    · simp only [mem_append, mem_cons, not_or] at hfresh
      rw [nodup_append, nodup_cons] at hnodup ⊢
      refine ⟨hnodup.1, ⟨hfresh.2.2, hnodup.2.1.2⟩, ?_⟩
      intro x hx y hy
      rcases mem_cons.mp hy with rfl | hy
      · exact fun heq => hfresh.1 (heq ▸ hx)
      · exact hnodup.2.2 x hx y (mem_cons_of_mem _ hy)
    · intro ref href
      rw [length_append, length_singleton]
      rcases hmem ref href with rfl | hin
      · exact Nat.lt_succ_self _
      · exact Nat.lt_succ_of_lt (h.stored ref hin)
  · rw [upsert_new hbound hr]
    refine ⟨?_, ?_, h.inside⟩
    · rw [nodup_append]
      refine ⟨h.nodup, nodup_singleton _, ?_⟩
      rintro x hx y hy rfl
      exact hfresh (mem_singleton.mp hy ▸ hx)
    · intro ref href
      rw [length_append, length_singleton]
      rcases mem_append.mp href with hin | hin
      · exact Nat.lt_succ_of_lt (h.stored ref hin)
      · rw [mem_singleton.mp hin]
        exact Nat.lt_succ_self _

theorem Synced.upsert (h : Synced r) (hrep : ReplacesFirst r entry) : Synced (r.upsert now uuid entry).2 := by
  obtain ⟨hnodup, hstored, hinside⟩ := upsert_inside h now uuid entry
  exact ⟨(upsert_indexed_iff h now uuid entry).mpr hrep, hnodup, hstored, hinside⟩


/-! ## Runs -/

/-- An upsert that does not refuse puts its entry in the place of one, or at the end, and changes no
    other object. -/
def OneEntry (r : SessionRegistry) : RegistryCall → Prop
  | .upsert now uuid entry =>
    r.upsert now uuid entry = (none, r) ∨
      ∃ ref, (r.upsert now uuid entry).1 = some ref ∧
        ((∃ i < r.entries.length, (r.upsert now uuid entry).2.entries = r.entries.set i ref) ∨
          (r.upsert now uuid entry).2.entries = r.entries ++ [ref]) ∧
        ∀ old < r.heap.length, (r.upsert now uuid entry).2.entryAt old = r.entryAt old
  | _ => True

theorem oneEntry (h : Synced r) (c : RegistryCall) : OneEntry r c := by
  cases c with
  | upsert now uuid entry =>
    rcases upsert_cases h now uuid entry with ⟨-, heq⟩ | ⟨hbound, ⟨existing, a, b, hr, hentries, ha⟩ | hr⟩
    · exact Or.inl heq
    · refine Or.inr ⟨r.heap.length, by rw [upsert_existing hbound hr hentries ha], Or.inl ⟨a.length, ?_, ?_⟩, ?_⟩
      · rw [hentries, length_append, length_cons]
        omega
      · rw [upsert_existing hbound hr hentries ha, hentries, set_append_right _ _ (Nat.le_refl _), Nat.sub_self,
          set_cons_zero]
      · intro old hold
        rw [upsert_existing hbound hr hentries ha]
        exact entryAt_old hold rfl _
    · refine Or.inr ⟨r.heap.length, by rw [upsert_new hbound hr], Or.inr (by rw [upsert_new hbound hr]), ?_⟩
      intro old hold
      rw [upsert_new hbound hr]
      exact entryAt_old hold rfl _
  | patchSessionMeta _ _ _ | updateStatus _ _ _ | delete _ => trivial

/-- Whether the call leaves the indexes at the first entries. -/
def KeepsFirst (r : SessionRegistry) : RegistryCall → Prop
  | .upsert _ _ entry => ReplacesFirst r entry
  | .delete id => DeletesFirst r id
  | _ => True

theorem Synced.step (h : Synced r) {c : RegistryCall} (hc : KeepsFirst r c) : Synced (r.step c) := by
  cases c with
  | upsert now uuid entry => exact h.upsert hc
  | patchSessionMeta now id patch => exact h.patchSessionMeta now id patch
  | updateStatus now id status => exact h.updateStatus now id status
  | delete id => exact h.delete hc

theorem answers_step_iff (h : Synced r) (c : RegistryCall) : (AnswersLikeScan (r.step c) ∧ OneEntry r c) ↔ KeepsFirst r c := by
  constructor
  · rintro ⟨hans, -⟩
    have hindexed := (answersLikeScan_iff.mp hans).1
    cases c with
    | upsert now uuid entry => exact (upsert_indexed_iff h now uuid entry).mp hindexed
    | delete id => exact (delete_indexed_iff h id).mp hindexed
    | patchSessionMeta _ _ _ | updateStatus _ _ _ => trivial
  · intro hc
    exact ⟨(h.step hc).answers, oneEntry h c⟩

/-- After a load every lookup has the first entry, and it goes on like that, each upsert writing one
    entry of the list, exactly if each call leaves the indexes at the first entries. -/
theorem answers_iff_keeps_first (stored : Stored) (r : SessionRegistry) (hload : load stored = some r) (calls : List RegistryCall) :
    AnswersLikeScan r ∧
      (Run.Along step (fun r c => AnswersLikeScan (r.step c) ∧ OneEntry r c) r calls ↔ Run.Along step KeepsFirst r calls) := by
  have hsynced := synced_load hload
  refine ⟨hsynced.answers, ?_⟩
  have hstep : ∀ s c, Synced s → KeepsFirst s c → Synced (s.step c) := fun _ _ h hc => h.step hc
  have hiff : ∀ s c, Synced s → ((AnswersLikeScan (s.step c) ∧ OneEntry s c) ↔ KeepsFirst s c) :=
    fun _ c h => answers_step_iff h c
  exact Run.along_iff_of_invariant hstep hiff hsynced

/-- Two entries with one id, as a file may have them. -/
def twoOfAnId : Stored :=
  .content (js "\x7b\"version\":1,\"entries\":[\x7b\"id\":\"a\",\"path\":\"/x\"\x7d,\x7b\"id\":\"a\",\"path\":\"/y\"\x7d]\x7d")

/-- A Claude session at the path, at a time. -/
def upsertPath (path : String) : RegistryCall :=
  .upsert (js "2026-09-08T00:00:00.000Z") (js "4bdc1c3c-3a2e-4a55-9f0c-5f6a1a3c7f10")
    (RegistryEntry.ofMembers [(js "sdkType", .str (js "claude")), (js "cwd", .str (js "/w")), (js "path", .str (js path))])

theorem a_second_upsert : let r := rebuildIndexes {}
    AnswersLikeScan r ∧
      (Run.Along step (fun r c => AnswersLikeScan (r.step c) ∧ OneEntry r c) r [upsertPath "/x", upsertPath "/x"] ↔
        Run.Along step KeepsFirst r [upsertPath "/x", upsertPath "/x"]) :=
  answers_iff_keeps_first .missing _ rfl _

/-- The deletion leaves the second entry in the index, where an upsert finds it. -/
theorem a_write_outside_the_list : ∃ r, load twoOfAnId = some r ∧
      ¬ Run.Along step (fun r c => AnswersLikeScan (r.step c) ∧ OneEntry r c) r [.delete (js "a"), upsertPath "/y"] ∧
      ([RegistryCall.delete (js "a"), upsertPath "/y"].foldl step r).outside ≠ [] := by
  have hany : (load twoOfAnId).any (fun r => ([RegistryCall.delete (js "a"), upsertPath "/y"].foldl step r).outside ≠ []) = true := by
    decide +kernel
  obtain ⟨r, hr, houtside⟩ := (Option.any_eq_true _ _).mp hany
  refine ⟨r, hr, ?_, of_decide_eq_true houtside⟩
  intro h
  exact of_decide_eq_true houtside h.2.1.1.inside

end SessionRegistry

end PiWebUi.Registry
