/-
  PiWebUi.Notifications.OptInsKept — what the migration of the opt-ins keeps, and when
  memory and file agree.

  A migration removes the old keys before it writes the new ones, so a start that ends in
  between leaves a file without them. What a later migration then finds is the newest
  record of each session exactly if each start that was cut short has left one of its
  newest records, or has written it under its canonical id already (`Kept`). A write has
  the opt-ins as they were when it was asked for. A call that fails puts its own key back
  and not the later writes' contents, so memory and file agree if no write fails while
  another waits, and none is taken for landed that is not (`Careful`).
-/

import PiWebUi.Lib.Run
import PiWebUi.Notifications.OptInStore

namespace PiWebUi.Notifications.OptIns

open Lib OptInStore List

/-! ## What is claimed -/

def canonicalId (r : OptInRecord) : JsString := canonicalOptInId r.runtime r.sessionId r.sessionPath

/-- Each session of the records has one record, one of its own that none is newer than. -/
structure Migrated (records : List OptInRecord) (optIns : Records) : Prop where
  newest : ∀ r ∈ records, ∃ x, optIns.get (canonicalId r) = some x ∧ isNewer x r = true
  own : ∀ id x, optIns.get id = some x → ∃ r ∈ records, canonicalId r = id ∧ x = { r with sessionId := id }

def OptInCall.key : OptInCall → JsString
  | setOptIn record => record.sessionId
  | removeOptIn sessionId => sessionId

/-- The calls up to the last whose write replaced the file. -/
def landed : List OptInCall → List WriteOutcome → List OptInCall
  | c :: calls, outcome :: outcomes =>
    let rest := if outcome.resolved then landed calls outcomes else []
    if outcome.written || rest ≠ [] then c :: rest else []
  | _, _ => []

/-- Of each session a record that none is newer than is in the file under its old key, or
    the session's record has been written under its canonical id. -/
def Kept (fits : Records → Bool) (file : Records) (outcomes : List WriteOutcome) : Prop :=
  let optIns := (readOptIns fits file).values
  let calls := landed (migration optIns) outcomes
  calls ≠ [] → fits (leaves fits file outcomes) = true ∧
    ∀ r ∈ optIns, ∃ q ∈ optIns, canonicalId q = canonicalId r ∧ isNewer q r = true ∧
      (q.sessionId ∉ calls.map (·.key) ∨ ∃ x, .setOptIn x ∈ calls ∧ x.sessionId = canonicalId r)

/-- A write lands and resolves, or fails without effect while no other waits; what is
    written can be read again. -/
def Careful (fits : Records → Bool) (s : OptInStore) : OptInEvent → Prop
  | .call (.setOptIn record) => record.sessionId ≠ [] ∧ fits (byId (s.optIns.set record.sessionId record).values) = true
  | .call (.removeOptIn sessionId) => fits (byId (s.optIns.delete sessionId).values) = true
  | .settle outcome =>
    outcome.written = true ∧ outcome.resolved = true ∨
      outcome.written = false ∧ outcome.resolved = false ∧ s.writes.length ≤ 1

/-! ## The identity -/

/-- A uuid has a first digit. -/
theorem piSessionIdFromPath_ne {path id : JsString} (h : piSessionIdFromPath path = some id) : id ≠ [] := by
  obtain ⟨groups, hgroups, rfl⟩ := Option.map_eq_some_iff.mp h
  obtain ⟨i, -, hi⟩ := exists_of_findSome?_eq_some hgroups
  obtain ⟨y, hy, rfl⟩ := Option.map_eq_some_iff.mp hi
  have hends := mem_of_mem_head? hy
  obtain ⟨_, hgroup, hrest⟩ := mem_flatMap.mp hends
  obtain ⟨z, hz, rfl⟩ := mem_map.mp hgroup
  have hone : y.groups 1 = (RegExp.Place.atIndex path i).upTo z := by
    rw [RegExp.groups_of_mem_ends _ (by decide) _ y hrest]
    exact Function.update_self 1 _ z.groups
  obtain ⟨v, hv, hzv⟩ := mem_flatMap.mp hz
  obtain ⟨w, hw, hvw⟩ := mem_flatMap.mp hv
  have hfrom := (RegExp.reaches_of_mem_ends _ w v hvw).trans (RegExp.reaches_of_mem_ends _ v z hzv)
  obtain ⟨m, hm, -⟩ := hfrom
  simp only [hex, RegExp.Pattern.ends] at hw
  cases hafter : (RegExp.Place.atIndex path i).after with
  | nil =>
    rw [hafter] at hw
    cases hw
  | cons u units =>
    rw [hafter] at hw
    obtain ⟨-, rfl⟩ := mem_ite_nil_right.mp hw |>.imp_right mem_singleton.mp
    have hunits : units = m ++ z.after := by
      rw [← hm, RegExp.Place.skip, hafter]
      rfl
    have hlength : (u :: units).length - z.after.length = m.length + 1 := by
      rw [hunits, length_cons, length_append]
      omega
    rw [hone, RegExp.Place.upTo, hafter, hlength, take_succ_cons]
    exact cons_ne_nil _ _

theorem canonicalId_ne {r : OptInRecord} (h : r.sessionId ≠ []) : canonicalId r ≠ [] := by
  simp only [canonicalId, canonicalOptInId]
  by_cases hpi : r.runtime = .pi
  · rw [if_pos hpi]
    cases hid : piSessionIdFromPath r.sessionPath with
    | none => exact h
    | some id => exact piSessionIdFromPath_ne hid
  · rw [if_neg hpi]
    exact h

/-- The record under its canonical id. -/
def rekey (r : OptInRecord) : OptInRecord := { r with sessionId := canonicalId r }

theorem canonicalOptInId_again (runtime : NotificationOptInRuntime) (id path : JsString) :
    canonicalOptInId runtime (canonicalOptInId runtime id path) path = canonicalOptInId runtime id path := by
  simp only [canonicalOptInId]
  by_cases hpi : runtime = .pi
  · simp only [if_pos hpi]
    cases piSessionIdFromPath path with
    | none | some id => rfl
  · simp only [if_neg hpi]

theorem canonicalId_rekey (r : OptInRecord) : canonicalId (rekey r) = canonicalId r :=
  canonicalOptInId_again r.runtime r.sessionId r.sessionPath

theorem canonicalId_of_rekey {q r : OptInRecord} (h : rekey q = rekey r) : canonicalId q = canonicalId r := by
  rw [← canonicalId_rekey q, h, canonicalId_rekey]

theorem isNewer_refl (r : OptInRecord) : isNewer r r = true := by
  simp only [isNewer, atLeast, decide_eq_true_eq]
  exact le_rfl

theorem isNewer_trans {a b c : OptInRecord} (h : isNewer a b = true) (h' : isNewer b c = true) : isNewer a c = true := by
  simp only [isNewer, atLeast, decide_eq_true_eq] at *
  exact le_trans h' h

theorem isNewer_total {a b : OptInRecord} (h : ¬ isNewer a b = true) : isNewer b a = true := by
  simp only [isNewer, atLeast, decide_eq_true_eq] at *
  exact le_of_lt (lt_of_not_ge h)

theorem isNewer_rekey {q r : OptInRecord} (h : rekey q = rekey r) : isNewer q r = true := by
  have hat : q.optedInAt = r.optedInAt :=
    show (rekey q).optedInAt = (rekey r).optedInAt from congrArg OptInRecord.optedInAt h
  simp only [isNewer, hat, atLeast, decide_eq_true_eq]
  exact le_rfl

/-! ## Records under their ids -/

/-- Each record is under its own id, and it has one. -/
def Keyed (m : Records) : Prop := ∀ id r, m.get id = some r → r.sessionId = id ∧ id ≠ []

variable {m n : Records} {records : List OptInRecord} {r : OptInRecord} {id : JsString}

theorem mem_values_iff : r ∈ m.values ↔ ∃ id, m.get id = some r := by
  rw [JsMap.values, mem_map]
  constructor
  · rintro ⟨e, he, rfl⟩
    exact ⟨e.1, JsMap.get_of_mem he⟩
  · rintro ⟨id, hid⟩
    exact ⟨(id, r), JsMap.get_eq_some.mp hid, rfl⟩

theorem Keyed.mem_values (h : Keyed m) : r ∈ m.values ↔ m.get r.sessionId = some r := by
  rw [mem_values_iff]
  constructor
  · rintro ⟨id, hid⟩
    rw [(h id r hid).1]
    exact hid
  · intro hr
    exact ⟨_, hr⟩

theorem Keyed.ids (h : Keyed m) : m.values.map (·.sessionId) = m.keys := by
  rw [JsMap.values, JsMap.keys, List.map_map]
  apply map_congr_left
  intro e he
  exact (h e.1 e.2 (JsMap.get_of_mem he)).1

theorem Keyed.set (h : Keyed m) (hr : r.sessionId ≠ []) : Keyed (m.set r.sessionId r) := by
  intro id x hx
  obtain ⟨hid, rfl⟩ | ⟨-, hx⟩ := JsMap.get_set_eq_some.mp hx
  · exact ⟨hid.symm, hid ▸ hr⟩
  · exact h id x hx

theorem Keyed.delete (h : Keyed m) (key : JsString) : Keyed (m.delete key) :=
  fun id x hx => h id x (JsMap.get_delete_eq_some.mp hx).2

theorem Keyed.congr (h : Keyed m) (hsame : ∀ id, n.get id = m.get id) : Keyed n := by
  intro id x hx
  rw [hsame] at hx
  exact h id x hx

theorem mem_values_congr (hm : Keyed m) (hsame : ∀ id, n.get id = m.get id) : r ∈ n.values ↔ r ∈ m.values := by
  rw [(hm.congr hsame).mem_values, hm.mem_values, hsame]

theorem get_byId_from (records : List OptInRecord) : ∀ m : Records,
    (records.foldl (fun m r => m.set r.sessionId r) m).get id = some r → (r ∈ records ∧ r.sessionId = id) ∨ m.get id = some r := by
  induction records with
  | nil =>
    intro m h
    exact .inr h
  | cons x records ih =>
    intro m h
    rcases ih _ h with ⟨hin, hid⟩ | hm
    · exact .inl ⟨mem_cons_of_mem x hin, hid⟩
    · obtain ⟨hx, rfl⟩ | ⟨-, hm⟩ := JsMap.get_set_eq_some.mp hm
      · exact .inl ⟨mem_cons_self, hx.symm⟩
      · exact .inr hm

theorem get_byId_of_mem (records : List OptInRecord) : ∀ m : Records, (records.map (·.sessionId)).Nodup →
    (∀ x ∈ records, (records.foldl (fun m r => m.set r.sessionId r) m).get x.sessionId = some x) ∧
      ∀ id, id ∉ records.map (·.sessionId) → (records.foldl (fun m r => m.set r.sessionId r) m).get id = m.get id := by
  induction records with
  | nil => intro m _; exact ⟨(fun _ h => by cases h), fun _ _ => rfl⟩
  | cons y records ih =>
    intro m hnodup
    rw [map_cons, nodup_cons] at hnodup
    obtain ⟨hmem, hother⟩ := ih (m.set y.sessionId y) hnodup.2
    constructor
    · intro x hx
      rcases mem_cons.mp hx with rfl | hx
      · rw [foldl_cons, hother _ hnodup.1, JsMap.get_set, if_pos rfl]
      · exact hmem x hx
    · intro id hid
      rw [map_cons, mem_cons, not_or] at hid
      rw [foldl_cons, hother id hid.2, JsMap.get_set, if_neg hid.1]

/-- The records of a keyed map, filed by their ids, are that map. -/
theorem Keyed.get_byId (h : Keyed m) (id : JsString) : (byId m.values).get id = m.get id := by
  have hnodup : (m.values.map (·.sessionId)).Nodup := by
    rw [h.ids]
    exact m.nodup_keys
  obtain ⟨hmem, hother⟩ := get_byId_of_mem m.values .empty hnodup
  cases hr : m.get id with
  | none =>
    have hout : id ∉ m.values.map (·.sessionId) := by
      rw [h.ids]
      exact JsMap.get_eq_none.mp hr
    rw [byId, hother id hout]
    rfl
  | some r =>
    have hin : r ∈ m.values := mem_values_iff.mpr ⟨id, hr⟩
    rw [← (h id r hr).1]
    exact hmem r hin

theorem keyed_empty : Keyed .empty := (fun _ _ h => by cases h)

theorem keyed_readOptIns (fits : Records → Bool) (file : Records) : Keyed (readOptIns fits file) := by
  rw [readOptIns]
  by_cases hfits : fits file = true
  · rw [if_pos hfits]
    intro id r hr
    rcases get_byId_from _ _ hr with ⟨hin, hid⟩ | hnone
    · have hne := (mem_filter.mp hin).2
      rw [hid] at hne
      exact ⟨hid, by simpa using hne⟩
    · cases hnone
  · rw [if_neg hfits]
    exact keyed_empty

/-- What is written is read again. -/
theorem Keyed.get_readOptIns {fits : Records → Bool} (h : Keyed m) (hfits : fits (byId m.values) = true) (id : JsString) :
    (readOptIns fits (byId m.values)).get id = m.get id := by
  have hbyId : Keyed (byId m.values) := h.congr h.get_byId
  have hall : (byId m.values).values.filter (·.sessionId ≠ []) = (byId m.values).values := by
    apply filter_eq_self.mpr
    intro r hr
    obtain ⟨id, hid⟩ := mem_values_iff.mp hr
    obtain ⟨hsame, hne⟩ := hbyId id r hid
    rw [hsame]
    simpa using hne
  rw [readOptIns, if_pos hfits, hall, hbyId.get_byId, h.get_byId]

/-! ## The canonical records -/

/-- What the loop has collected of the records it has seen. -/
structure Collected (seen : List OptInRecord) (t : Canonical) : Prop where
  own : ∀ id x, t.canonical.get id = some x → ∃ r ∈ seen, canonicalId r = id ∧ x = rekey r
  newest : ∀ r ∈ seen, ∃ x, t.canonical.get (canonicalId r) = some x ∧ isNewer x r = true
  normalized : t.normalized = 0 ↔ ∀ r ∈ seen, canonicalId r = r.sessionId
  deduped : (seen.map canonicalId).Nodup → t.deduped = 0

/-- The record in the canonical map is the last one or what was there. -/
theorem get_canonicalize (t : Canonical) (record : OptInRecord) :
    ∃ kept, (∀ id, (canonicalize t record).canonical.get id = if id = canonicalId record then some kept else t.canonical.get id) ∧
      (kept = rekey record ∨ t.canonical.get (canonicalId record) = some kept) ∧ isNewer kept record = true ∧
      ∀ existing, t.canonical.get (canonicalId record) = some existing → isNewer kept existing = true := by
  have hincoming : (if canonicalId record = record.sessionId then record else rekey record) = rekey record := by
    by_cases hsame : canonicalId record = record.sessionId
    · rw [if_pos hsame, rekey, hsame]
    · rw [if_neg hsame]
  have hnewer : isNewer (rekey record) record = true := isNewer_refl record
  simp only [canonicalize, ← canonicalId.eq_def, ← rekey.eq_def, hincoming]
  cases hexisting : t.canonical.get (canonicalId record) with
  | none =>
    refine ⟨rekey record, ?_, .inl rfl, hnewer, ?_⟩
    · intro id
      exact JsMap.get_set _ _ _ _
    · intro existing h
      cases h
  | some existing =>
    by_cases hlater : isNewer (rekey record) existing = true
    · simp only [if_pos hlater]
      refine ⟨rekey record, ?_, .inl rfl, hnewer, ?_⟩
      · intro id
        exact JsMap.get_set _ _ _ _
      · intro e he
        cases he
        exact hlater
    · simp only [if_neg hlater]
      refine ⟨existing, ?_, .inr rfl, isNewer_trans (isNewer_total hlater) hnewer, ?_⟩
      · intro id
        exact JsMap.get_set _ _ _ _
      · intro e he
        cases he
        exact isNewer_refl existing

theorem normalized_canonicalize (t : Canonical) (record : OptInRecord) :
    (canonicalize t record).normalized = 0 ↔ t.normalized = 0 ∧ canonicalId record = record.sessionId := by
  have hcount : (canonicalize t record).normalized =
      if canonicalId record ≠ record.sessionId then t.normalized + 1 else t.normalized := by
    simp only [canonicalize, ← canonicalId.eq_def]
    cases t.canonical.get (canonicalId record) with
    | none | some existing => rfl
  rw [hcount]
  by_cases hsame : canonicalId record = record.sessionId <;> simp [hsame]

theorem deduped_canonicalize (t : Canonical) {record : OptInRecord} (h : t.canonical.get (canonicalId record) = none) :
    (canonicalize t record).deduped = t.deduped := by
  simp only [canonicalize, ← canonicalId.eq_def, h]

theorem Collected.step {seen : List OptInRecord} {t : Canonical} (h : Collected seen t) (record : OptInRecord) :
    Collected (seen ++ [record]) (canonicalize t record) := by
  obtain ⟨kept, hget, hkept, hnewer, hold⟩ := get_canonicalize t record
  refine ⟨?_, ?_, ?_, ?_⟩
  · intro id x hx
    rw [hget] at hx
    by_cases hid : id = canonicalId record
    · rw [if_pos hid] at hx
      cases hx
      rcases hkept with rfl | hkept
      · exact ⟨record, mem_append_right _ mem_cons_self, hid.symm, rfl⟩
      · obtain ⟨r, hr, hcanonical, hx⟩ := h.own _ _ hkept
        exact ⟨r, mem_append_left _ hr, hcanonical.trans hid.symm, hx⟩
    · rw [if_neg hid] at hx
      obtain ⟨r, hr, hrest⟩ := h.own id x hx
      exact ⟨r, mem_append_left _ hr, hrest⟩
  · intro r hr
    rw [hget]
    rcases mem_append.mp hr with hr | hr
    · obtain ⟨x, hx, hxr⟩ := h.newest r hr
      by_cases hid : canonicalId r = canonicalId record
      · rw [if_pos hid]
        rw [hid] at hx
        exact ⟨kept, rfl, isNewer_trans (hold x hx) hxr⟩
      · rw [if_neg hid]
        exact ⟨x, hx, hxr⟩
    · rw [mem_singleton.mp hr, if_pos rfl]
      exact ⟨kept, rfl, hnewer⟩
  · rw [normalized_canonicalize, h.normalized]
    simp only [forall_mem_append, forall_mem_singleton]
  · intro hnodup
    rw [map_append, map_singleton, nodup_append] at hnodup
    have hnone : t.canonical.get (canonicalId record) = none := by
      cases hx : t.canonical.get (canonicalId record) with
      | none => rfl
      | some x =>
        obtain ⟨r, hr, hcanonical, -⟩ := h.own _ _ hx
        exact absurd hcanonical (hnodup.2.2 _ (mem_map.mpr ⟨r, hr, rfl⟩) _ mem_cons_self)
    rw [deduped_canonicalize t hnone]
    exact h.deduped hnodup.1

theorem collected_records (records : List OptInRecord) {seen : List OptInRecord} {t : Canonical} (h : Collected seen t) :
    Collected (seen ++ records) (records.foldl canonicalize t) := by
  induction records generalizing seen t with
  | nil =>
    rw [append_nil]
    exact h
  | cons record records ih =>
    have hnext := ih (h.step record)
    rw [append_assoc] at hnext
    exact hnext

theorem collected (records : List OptInRecord) : Collected records (records.foldl canonicalize {}) := by
  have hnone : Collected [] {} := ⟨(fun _ _ h => by cases h), (fun _ h => by cases h), by simp, fun _ => rfl⟩
  exact collected_records records hnone

theorem Collected.keyed {seen : List OptInRecord} {t : Canonical} (h : Collected seen t) (hne : ∀ r ∈ seen, r.sessionId ≠ []) :
    Keyed t.canonical := by
  intro id x hx
  obtain ⟨r, hr, hcanonical, rfl⟩ := h.own id x hx
  refine ⟨hcanonical, ?_⟩
  rw [← hcanonical]
  exact canonicalId_ne (hne r hr)

/-! ## The calls -/

/-- What a call leaves under its key. -/
def OptInCall.value : OptInCall → Option OptInRecord
  | setOptIn record => some record
  | removeOptIn _ => none

def applied (m : Records) : OptInCall → Records
  | .setOptIn record => m.set record.sessionId record
  | .removeOptIn sessionId => m.delete sessionId

theorem get_applied (m : Records) (c : OptInCall) (id : JsString) :
    (applied m c).get id = if id = c.key then c.value else m.get id := by
  cases c with
  | setOptIn record => exact JsMap.get_set m id record.sessionId record
  | removeOptIn sessionId => exact JsMap.get_delete m id sessionId

/-- Every call that sets a record sets one that has an id. -/
def Named (calls : List OptInCall) : Prop := ∀ x, OptInCall.setOptIn x ∈ calls → x.sessionId ≠ []

theorem Keyed.calls (calls : List OptInCall) (h : Keyed m) (hnamed : Named calls) : Keyed (calls.foldl applied m) := by
  induction calls generalizing m with
  | nil => exact h
  | cons c calls ih =>
    apply ih _ fun x hx => hnamed x (mem_cons_of_mem c hx)
    cases c with
    | setOptIn record => exact h.set (hnamed record mem_cons_self)
    | removeOptIn sessionId => exact h.delete sessionId

theorem get_calls_other (calls : List OptInCall) (m : Records) (hid : id ∉ calls.map (·.key)) :
    (calls.foldl applied m).get id = m.get id := by
  induction calls generalizing m with
  | nil => rfl
  | cons c calls ih =>
    rw [map_cons, mem_cons, not_or] at hid
    rw [foldl_cons, ih _ hid.2, get_applied, if_neg hid.1]

theorem get_calls (calls : List OptInCall) (m : Records) (hnodup : (calls.map (·.key)).Nodup) {c : OptInCall} (hc : c ∈ calls) :
    (calls.foldl applied m).get c.key = c.value := by
  induction calls generalizing m with
  | nil => cases hc
  | cons d calls ih =>
    rw [map_cons, nodup_cons] at hnodup
    rw [foldl_cons]
    rcases mem_cons.mp hc with rfl | hc
    · rw [get_calls_other calls _ hnodup.1, get_applied, if_pos rfl]
    · exact ih _ hnodup.2 hc

theorem landed_sub (calls : List OptInCall) (outcomes : List WriteOutcome) : landed calls outcomes <+: calls := by
  induction calls generalizing outcomes with
  | nil => exact nil_prefix
  | cons c calls ih =>
    cases outcomes with
    | nil => exact nil_prefix
    | cons outcome outcomes =>
      simp only [landed]
      generalize hrest : (if outcome.resolved = true then landed calls outcomes else []) = rest
      have hprefix : rest <+: calls := by
        rw [← hrest]
        by_cases hresolved : outcome.resolved = true
        · rw [if_pos hresolved]
          exact ih outcomes
        · rw [if_neg hresolved]
          exact nil_prefix
      by_cases hsome : (outcome.written || decide (rest ≠ [])) = true
      · rw [if_pos hsome]
        exact cons_prefix_cons.mpr ⟨rfl, hprefix⟩
      · rw [if_neg hsome]
        exact nil_prefix

theorem call_spec (s : OptInStore) (c : OptInCall) : (s.call c).optIns = applied s.optIns c ∧ (s.call c).file = s.file ∧
      ∃ sets, (s.call c).writes = s.writes ++ [⟨c.key, s.optIns.get c.key, sets, byId (applied s.optIns c).values⟩] := by
  cases c with
  | setOptIn record => exact ⟨rfl, rfl, true, rfl⟩
  | removeOptIn sessionId => exact ⟨rfl, rfl, false, rfl⟩

/-- A call whose write is the only one. -/
theorem settle_call (s : OptInStore) (c : OptInCall) (outcome : WriteOutcome) (hidle : s.writes = []) :
    ((s.call c).settle outcome).writes = [] ∧
      ((s.call c).settle outcome).file = (if outcome.written then byId (applied s.optIns c).values else s.file) ∧
      (outcome.resolved = true → ((s.call c).settle outcome).optIns = applied s.optIns c) := by
  obtain ⟨hoptIns, hfile, sets, hwrites⟩ := call_spec s c
  rw [hidle, nil_append] at hwrites
  simp only [settle, hwrites, hfile]
  refine ⟨trivial, trivial, ?_⟩
  intro hresolved
  rw [if_pos hresolved, hoptIns]

theorem runCalls_file (calls : List OptInCall) (outcomes : List WriteOutcome) {s : OptInStore} (hidle : s.writes = []) :
    (s.runCalls calls outcomes).1.file = if landed calls outcomes = [] then s.file
      else byId ((landed calls outcomes).foldl applied s.optIns).values := by
  induction calls generalizing s outcomes with
  | nil => rfl
  | cons c calls ih =>
    cases outcomes with
    | nil => rfl
    | cons outcome outcomes =>
      obtain ⟨hwrites, hfile, hoptIns⟩ := settle_call s c outcome hidle
      simp only [runCalls, landed]
      by_cases hresolved : outcome.resolved = true
      · simp only [if_pos hresolved]
        rw [ih outcomes hwrites, hoptIns hresolved, hfile]
        by_cases hrest : landed calls outcomes = []
        · cases hwritten : outcome.written with
          | true | false => simp [hrest]
        · simp [hrest]
      · simp only [if_neg hresolved]
        rw [hfile]
        cases hwritten : outcome.written with
        | true | false => simp

theorem runCalls_landing (calls : List OptInCall) {s : OptInStore} (hidle : s.writes = []) :
    (s.runCalls calls (List.replicate calls.length ⟨true, true⟩)).2 = true ∧
      (s.runCalls calls (List.replicate calls.length ⟨true, true⟩)).1.optIns = calls.foldl applied s.optIns ∧
      landed calls (List.replicate calls.length ⟨true, true⟩) = calls := by
  induction calls generalizing s with
  | nil => exact ⟨rfl, rfl, rfl⟩
  | cons c calls ih =>
    obtain ⟨hwrites, -, hoptIns⟩ := settle_call s c ⟨true, true⟩ hidle
    obtain ⟨hdone, hmemory, hlanded⟩ := ih hwrites
    rw [hoptIns rfl] at hmemory
    simp only [length_cons, replicate_succ, runCalls, landed, if_true, Bool.true_or]
    exact ⟨hdone, hmemory, congrArg _ hlanded⟩

/-! ## A migration -/

theorem mem_migration {c : OptInCall} (hc : c ∈ migration records) :
    (∃ r ∈ records, (records.foldl canonicalize {}).canonical.get r.sessionId = none ∧ c = .removeOptIn r.sessionId) ∨
      ∃ x ∈ (records.foldl canonicalize {}).canonical.values, c = .setOptIn x := by
  simp only [migration] at hc
  generalize records.foldl canonicalize {} = t at *
  by_cases hnone : (t.normalized = 0 && t.deduped = 0) = true
  · rw [if_pos (by simpa using hnone)] at hc
    cases hc
  · rw [if_neg (by simpa using hnone)] at hc
    rcases mem_append.mp hc with hc | hc
    · obtain ⟨r, hr, rfl⟩ := mem_map.mp hc
      obtain ⟨hr, hnot⟩ := mem_filter.mp hr
      refine .inl ⟨r, hr, ?_, rfl⟩
      rw [Bool.not_eq_true', ← Bool.not_eq_true, JsMap.has_iff_get] at hnot
      simpa using hnot
    · obtain ⟨x, hx, rfl⟩ := mem_map.mp hc
      exact .inr ⟨x, hx, rfl⟩

section

variable (hm : Keyed m)
include hm

theorem named_ids : ∀ r ∈ m.values, r.sessionId ≠ [] := by
  intro r hr
  obtain ⟨id, hid⟩ := mem_values_iff.mp hr
  rw [(hm id r hid).1]
  exact (hm id r hid).2

theorem keyed_canonical : Keyed (m.values.foldl canonicalize {}).canonical :=
  (collected m.values).keyed (named_ids hm)

theorem named_migration : Named (migration m.values) := by
  intro x hx
  rcases mem_migration hx with ⟨r, -, -, h⟩ | ⟨y, hy, h⟩
  · cases h
  · cases h
    exact named_ids (keyed_canonical hm) x hy

/-- No key is called for twice. -/
theorem nodup_migration : ((migration m.values).map (·.key)).Nodup := by
  have hkeyed := keyed_canonical hm
  simp only [migration]
  generalize hall : m.values.foldl canonicalize {} = t at *
  by_cases hnone : t.normalized = 0 && t.deduped = 0
  · rw [if_pos hnone]
    exact nodup_nil
  · rw [if_neg hnone, map_append, nodup_append, List.map_map, List.map_map]
    refine ⟨?_, ?_, ?_⟩
    · have hnodup : (m.values.map (·.sessionId)).Nodup := by
        rw [hm.ids]
        exact m.nodup_keys
      exact hnodup.sublist (filter_sublist.map _)
    · have hnodup : (t.canonical.values.map (·.sessionId)).Nodup := by
        rw [hkeyed.ids]
        exact t.canonical.nodup_keys
      exact hnodup
    · intro id hid id' hid' hsame
      subst hsame
      obtain ⟨r, hr, rfl⟩ := mem_map.mp hid
      obtain ⟨x, hx, hkey⟩ := mem_map.mp hid'
      have hnot := (mem_filter.mp hr).2
      rw [Bool.not_eq_true', ← Bool.not_eq_true, JsMap.has_iff_get] at hnot
      apply hnot
      have hget := hkeyed.mem_values.mp hx
      rw [show x.sessionId = r.sessionId from hkey] at hget
      rw [hget]
      rfl

theorem migrated_self (hcanonical : ∀ r ∈ m.values, canonicalId r = r.sessionId) : Migrated m.values m where
  newest r hr := by
    rw [hcanonical r hr]
    exact ⟨r, hm.mem_values.mp hr, isNewer_refl r⟩
  own id x hx := by
    have hin := mem_values_iff.mpr ⟨id, hx⟩
    have hid := (hm id x hx).1
    refine ⟨x, hin, ?_, ?_⟩
    · rw [hcanonical x hin, hid]
    · rw [← hid]

/-- All the calls together. -/
theorem migrated_calls : Migrated m.values ((migration m.values).foldl applied m) := by
  have hcollected := collected m.values
  have hkeyed := keyed_canonical hm
  have hnodup := nodup_migration hm
  have hmem := @mem_migration m.values
  simp only [migration] at hnodup hmem ⊢
  generalize m.values.foldl canonicalize {} = t at *
  by_cases hnone : t.normalized = 0 && t.deduped = 0
  · rw [if_pos hnone]
    simp only [Bool.and_eq_true, decide_eq_true_eq] at hnone
    exact migrated_self hm (hcollected.normalized.mp hnone.1)
  · rw [if_neg hnone] at hnodup hmem ⊢
    generalize hcalls : (m.values.filter fun record => !t.canonical.has record.sessionId).map
      (fun record => OptInCall.removeOptIn record.sessionId) ++ t.canonical.values.map OptInCall.setOptIn = calls at *
    have hget : ∀ id, (calls.foldl applied m).get id = t.canonical.get id := by
      intro id
      cases hx : t.canonical.get id with
      | some x =>
        have hin : OptInCall.setOptIn x ∈ calls := by
          rw [← hcalls]
          exact mem_append_right _ (mem_map.mpr ⟨x, mem_values_iff.mpr ⟨id, hx⟩, rfl⟩)
        rw [← (hkeyed id x hx).1]
        exact get_calls calls m hnodup hin
      | none =>
        cases hr : m.get id with
        | some r =>
          have hid := (hm id r hr).1
          have hin : OptInCall.removeOptIn id ∈ calls := by
            rw [← hcalls]
            refine mem_append_left _ (mem_map.mpr ⟨r, ?_, by rw [hid]⟩)
            refine mem_filter.mpr ⟨mem_values_iff.mpr ⟨id, hr⟩, ?_⟩
            rw [Bool.not_eq_true', ← Bool.not_eq_true, JsMap.has_iff_get, hid, hx]
            simp
          exact get_calls calls m hnodup hin
        | none =>
          rw [get_calls_other calls m, hr]
          intro hid
          obtain ⟨c, hc, rfl⟩ := mem_map.mp hid
          rcases hmem hc with ⟨r, hin, -, rfl⟩ | ⟨x, hin, rfl⟩
          · rw [OptInCall.key, hm.mem_values.mp hin] at hr
            cases hr
          · rw [OptInCall.key, hkeyed.mem_values.mp hin] at hx
            cases hx
    refine ⟨?_, ?_⟩
    · intro r hr
      rw [hget]
      exact hcollected.newest r hr
    · intro id x hx
      rw [hget] at hx
      obtain ⟨r, hr, hcanonical, rfl⟩ := hcollected.own id x hx
      exact ⟨r, hr, hcanonical, by rw [rekey, hcanonical]⟩

/-- What is canonical needs no call. -/
theorem migration_eq_nil (hcanonical : ∀ r ∈ m.values, canonicalId r = r.sessionId) : migration m.values = [] := by
  have hcollected := collected m.values
  have hnodup : (m.values.map canonicalId).Nodup := by
    rw [map_congr_left hcanonical, hm.ids]
    exact m.nodup_keys
  simp only [migration]
  rw [if_pos]
  simp only [hcollected.normalized.mpr hcanonical, hcollected.deduped hnodup, decide_true, Bool.and_self]

end

theorem Migrated.canonical (h : Migrated records m) : ∀ r ∈ m.values, canonicalId r = r.sessionId := by
  intro x hx
  obtain ⟨id, hid⟩ := mem_values_iff.mp hx
  obtain ⟨r, -, hcanonical, rfl⟩ := h.own id x hid
  subst hcanonical
  exact canonicalId_rekey r

/-! ## The starts -/

variable {fits : Records → Bool} {file : Records}

/-- The opt-ins after the calls that landed. -/
def after (fits : Records → Bool) (file : Records) (outcomes : List WriteOutcome) : Records :=
  (landed (migration (readOptIns fits file).values) outcomes).foldl applied (readOptIns fits file)

theorem leaves_eq (fits : Records → Bool) (file : Records) (outcomes : List WriteOutcome) :
    leaves fits file outcomes = if landed (migration (readOptIns fits file).values) outcomes = [] then file
      else byId (after fits file outcomes).values :=
  runCalls_file _ outcomes rfl

theorem keyed_after (fits : Records → Bool) (file : Records) (outcomes : List WriteOutcome) : Keyed (after fits file outcomes) := by
  have hread := keyed_readOptIns fits file
  apply hread.calls
  intro x hx
  exact named_migration hread x ((landed_sub _ outcomes).subset hx)

/-- The next start reads what has landed, if it fits. -/
theorem readOptIns_leaves {outcomes : List WriteOutcome} (h : landed (migration (readOptIns fits file).values) outcomes = [] ∨
    fits (leaves fits file outcomes) = true) (id : JsString) :
    (readOptIns fits (leaves fits file outcomes)).get id = (after fits file outcomes).get id := by
  rw [leaves_eq] at h ⊢
  by_cases hnone : landed (migration (readOptIns fits file).values) outcomes = []
  · rw [if_pos hnone, after, hnone]
    rfl
  · rw [if_neg hnone] at h ⊢
    exact (keyed_after fits file outcomes).get_readOptIns (h.resolve_left hnone) id

theorem readOptIns_unfit (h : fits file = false) : readOptIns fits file = .empty := by
  rw [readOptIns, h]
  rfl

/-- Every session has a record at least as new. -/
def Covers (m n : Records) : Prop := ∀ r ∈ m.values, ∃ q ∈ n.values, canonicalId q = canonicalId r ∧ isNewer q r = true

/-- No record is new, but for its key. -/
def Within (m n : Records) : Prop := ∀ q ∈ n.values, ∃ r ∈ m.values, rekey q = rekey r

theorem covers_refl (m : Records) : Covers m m := fun r hr => ⟨r, hr, rfl, isNewer_refl r⟩

theorem within_refl (m : Records) : Within m m := fun r hr => ⟨r, hr, rfl⟩

theorem Within.trans {k : Records} (h : Within m n) (h' : Within n k) : Within m k := by
  intro q hq
  obtain ⟨r, hr, hqr⟩ := h' q hq
  obtain ⟨r', hr', hrr'⟩ := h r hr
  exact ⟨r', hr', hqr.trans hrr'⟩

/-- What covers the first covers what is between, and is covered by way of it. -/
theorem covers_iff_between {k : Records} (h : Within m n) (h' : Within n k) : Covers m k ↔ Covers m n ∧ Covers n k := by
  constructor
  · intro hcovers
    constructor
    · intro r hr
      obtain ⟨q, hq, hcanonical, hnewer⟩ := hcovers r hr
      obtain ⟨q', hq', hsame⟩ := h' q hq
      exact ⟨q', hq', (canonicalId_of_rekey hsame).symm.trans hcanonical, isNewer_trans (isNewer_rekey hsame.symm) hnewer⟩
    · intro r hr
      obtain ⟨r', hr', hsame⟩ := h r hr
      obtain ⟨q, hq, hcanonical, hnewer⟩ := hcovers r' hr'
      exact ⟨q, hq, hcanonical.trans (canonicalId_of_rekey hsame).symm, isNewer_trans hnewer (isNewer_rekey hsame.symm)⟩
  · rintro ⟨hfirst, hsecond⟩ r hr
    obtain ⟨q, hq, hcanonical, hnewer⟩ := hfirst r hr
    obtain ⟨q', hq', hcanonical', hnewer'⟩ := hsecond q hq
    exact ⟨q', hq', hcanonical'.trans hcanonical, isNewer_trans hnewer' hnewer⟩

/-- The records the migration sets are the newest of their sessions. -/
theorem setOptIn_newest (hm : Keyed m) {x : OptInRecord} (hx : OptInCall.setOptIn x ∈ migration m.values) :
    (∃ r ∈ m.values, x = rekey r) ∧ ∀ r ∈ m.values, canonicalId r = x.sessionId → isNewer x r = true := by
  have hcollected := collected m.values
  have hkeyed := keyed_canonical hm
  rcases mem_migration hx with ⟨r, -, -, h⟩ | ⟨y, hy, h⟩
  · cases h
  · cases h
    have hget := hkeyed.mem_values.mp hy
    constructor
    · obtain ⟨r, hr, -, hsame⟩ := hcollected.own _ _ hget
      exact ⟨r, hr, hsame⟩
    · intro r hr hcanonical
      obtain ⟨z, hz, hnewer⟩ := hcollected.newest r hr
      rw [hcanonical, hget] at hz
      cases hz
      exact hnewer

theorem nodup_landed (hm : Keyed m) (outcomes : List WriteOutcome) : ((landed (migration m.values) outcomes).map (·.key)).Nodup :=
  (nodup_migration hm).sublist ((landed_sub _ outcomes).sublist.map _)

/-- A record that is left was there and no call was for its key, or it has been set. -/
theorem mem_after {outcomes : List WriteOutcome} {q : OptInRecord} : q ∈ (after fits file outcomes).values ↔
    (q ∈ (readOptIns fits file).values ∧ q.sessionId ∉ (landed (migration (readOptIns fits file).values) outcomes).map (·.key)) ∨
      OptInCall.setOptIn q ∈ landed (migration (readOptIns fits file).values) outcomes := by
  have hread := keyed_readOptIns fits file
  have hnodup := nodup_landed hread outcomes
  rw [(keyed_after fits file outcomes).mem_values, after]
  generalize landed (migration (readOptIns fits file).values) outcomes = calls at hnodup
  constructor
  · intro hget
    by_cases hkey : q.sessionId ∈ calls.map (·.key)
    · obtain ⟨c, hc, hckey⟩ := mem_map.mp hkey
      rw [← hckey, get_calls calls _ hnodup hc] at hget
      cases c with
      | setOptIn record =>
        cases hget
        exact .inr hc
      | removeOptIn sessionId => cases hget
    · rw [get_calls_other calls _ hkey] at hget
      exact .inl ⟨hread.mem_values.mpr hget, hkey⟩
  · rintro (⟨hin, hkey⟩ | hset)
    · rw [get_calls_other calls _ hkey]
      exact hread.mem_values.mp hin
    · exact get_calls calls _ hnodup hset

theorem within_leaves (fits : Records → Bool) (file : Records) (outcomes : List WriteOutcome) :
    Within (readOptIns fits file) (readOptIns fits (leaves fits file outcomes)) := by
  intro q hq
  cases hfits : fits (leaves fits file outcomes) with
  | false =>
    rw [readOptIns_unfit hfits] at hq
    cases hq
  | true =>
    rw [mem_values_congr (keyed_after fits file outcomes) (readOptIns_leaves (.inr hfits))] at hq
    rcases mem_after.mp hq with ⟨hin, -⟩ | hset
    · exact ⟨q, hin, rfl⟩
    · obtain ⟨⟨r, hr, rfl⟩, -⟩ := setOptIn_newest (keyed_readOptIns fits file) ((landed_sub _ outcomes).subset hset)
      refine ⟨r, hr, ?_⟩
      rw [rekey, canonicalId_rekey]
      rfl

/-- What was left under its old key, or set, is what the next start has of a session. -/
theorem kept_iff_covers (fits : Records → Bool) (file : Records) (outcomes : List WriteOutcome) :
    Kept fits file outcomes ↔ Covers (readOptIns fits file) (readOptIns fits (leaves fits file outcomes)) := by
  have hread := keyed_readOptIns fits file
  by_cases hnone : landed (migration (readOptIns fits file).values) outcomes = []
  · rw [leaves_eq, if_pos hnone]
    exact iff_of_true (fun h => absurd hnone h) (covers_refl _)
  · cases hfits : fits (leaves fits file outcomes) with
    | false =>
      have hsome : ∃ r, r ∈ (readOptIns fits file).values := by
        apply exists_mem_of_ne_nil
        intro hempty
        rw [hempty] at hnone
        exact hnone (prefix_nil.mp (landed_sub _ outcomes))
      obtain ⟨r, hr⟩ := hsome
      constructor
      · intro hkept
        have hread := (hkept hnone).1
        rw [hfits] at hread
        cases hread
      · intro hcovers
        obtain ⟨q, hq, -⟩ := hcovers r hr
        rw [readOptIns_unfit hfits] at hq
        cases hq
    | true =>
      have hmem : ∀ q, q ∈ (readOptIns fits (leaves fits file outcomes)).values ↔ q ∈ (after fits file outcomes).values :=
        fun q => mem_values_congr (keyed_after fits file outcomes) (readOptIns_leaves (.inr hfits))
      constructor
      · intro hkept r hr
        obtain ⟨q, hq, hcanonical, hnewer, hleft | ⟨x, hx, hid⟩⟩ := (hkept hnone).2 r hr
        · exact ⟨q, (hmem q).mpr (mem_after.mpr (.inl ⟨hq, hleft⟩)), hcanonical, hnewer⟩
        · obtain ⟨⟨r', -, hrekey⟩, hnewest⟩ := setOptIn_newest hread ((landed_sub _ outcomes).subset hx)
          refine ⟨x, (hmem x).mpr (mem_after.mpr (.inr hx)), ?_, hnewest r hr hid.symm⟩
          rw [← hid, hrekey, canonicalId_rekey]
          rfl
      · intro hcovers _
        refine ⟨hfits, ?_⟩
        intro r hr
        obtain ⟨q, hq, hcanonical, hnewer⟩ := hcovers r hr
        rcases mem_after.mp ((hmem q).mp hq) with ⟨hin, hkey⟩ | hset
        · exact ⟨q, hin, hcanonical, hnewer, .inl hkey⟩
        · obtain ⟨⟨r', -, hrekey⟩, -⟩ := setOptIn_newest hread ((landed_sub _ outcomes).subset hset)
          refine ⟨r, hr, rfl, isNewer_refl r, .inr ⟨q, hset, ?_⟩⟩
          rw [← hcanonical, hrekey, canonicalId_rekey]
          rfl

theorem within_starts (fits : Records → Bool) (file : Records) (starts : List (List WriteOutcome)) :
    Within (readOptIns fits file) (readOptIns fits (starts.foldl (leaves fits) file)) := by
  induction starts generalizing file with
  | nil => exact within_refl _
  | cons outcomes starts ih => exact (within_leaves fits file outcomes).trans (ih (leaves fits file outcomes))

theorem kept_along_iff (fits : Records → Bool) (file : Records) (starts : List (List WriteOutcome)) :
    Run.Along (leaves fits) (Kept fits) file starts ↔
      Covers (readOptIns fits file) (readOptIns fits (starts.foldl (leaves fits) file)) := by
  induction starts generalizing file with
  | nil => exact iff_of_true trivial (covers_refl _)
  | cons outcomes starts ih =>
    rw [foldl_cons, covers_iff_between (within_leaves fits file outcomes) (within_starts fits _ starts),
      ← kept_iff_covers, ← ih]
    rfl

/-! ## The start that goes through -/

theorem migrated_optIns (fits : Records → Bool) (file : Records) :
    (migrated fits file).optIns = (migration (readOptIns fits file).values).foldl applied (readOptIns fits file) :=
  (runCalls_landing (migration (readOptIns fits file).values) (s := init fits file) rfl).2.1

theorem migrated_spec (fits : Records → Bool) (file : Records) :
    Migrated (readOptIns fits file).values (migrated fits file).optIns := by
  rw [migrated_optIns]
  exact migrated_calls (keyed_readOptIns fits file)

theorem keyed_migrated (fits : Records → Bool) (file : Records) : Keyed (migrated fits file).optIns := by
  rw [migrated_optIns]
  exact (keyed_readOptIns fits file).calls _ (named_migration (keyed_readOptIns fits file))

/-- The records of an earlier file are migrated with what has been left of them, if that
    covers them. -/
theorem migrated_iff_covers (h : Within m (readOptIns fits file)) :
    Migrated m.values (migrated fits file).optIns ↔ Covers m (readOptIns fits file) := by
  have hspec := migrated_spec fits file
  constructor
  · intro hmigrated r hr
    obtain ⟨x, hx, hnewer⟩ := hmigrated.newest r hr
    obtain ⟨q, hq, hcanonical, rfl⟩ := hspec.own _ x hx
    exact ⟨q, hq, hcanonical, hnewer⟩
  · intro hcovers
    refine ⟨?_, ?_⟩
    · intro r hr
      obtain ⟨q, hq, hcanonical, hnewer⟩ := hcovers r hr
      obtain ⟨x, hx, hnewest⟩ := hspec.newest q hq
      rw [hcanonical] at hx
      exact ⟨x, hx, isNewer_trans hnewest hnewer⟩
    · intro id x hx
      obtain ⟨q, hq, hcanonical, rfl⟩ := hspec.own id x hx
      obtain ⟨r, hr, hsame⟩ := h q hq
      have hcanonical' : canonicalId r = id := (canonicalId_of_rekey hsame).symm.trans hcanonical
      refine ⟨r, hr, hcanonical', ?_⟩
      have hrekeyed : rekey q = { q with sessionId := id } := by rw [rekey, hcanonical]
      rw [← hrekeyed, hsame, rekey, hcanonical']

/-- A second migration makes no call. -/
theorem migration_migrated (fits : Records → Bool) (file : Records) : migration (migrated fits file).optIns.values = [] :=
  migration_eq_nil (keyed_migrated fits file) (migrated_spec fits file).canonical

theorem leaves_of_canonical (h : migration (readOptIns fits file).values = []) (outcomes : List WriteOutcome) :
    leaves fits file outcomes = file := by
  rw [leaves_eq, h]
  rfl

theorem leaves_migrated (fits : Records → Bool) (file : Records) (outcomes : List WriteOutcome) :
    leaves fits (migrated fits file).file outcomes = (migrated fits file).file := by
  have hlanded := (runCalls_landing (migration (readOptIns fits file).values) (s := init fits file) rfl).2.2
  have hfile := leaves_eq fits file (List.replicate (migration (readOptIns fits file).values).length ⟨true, true⟩)
  rw [hlanded, after, hlanded, ← migrated_optIns] at hfile
  change (migrated fits file).file = _ at hfile
  apply leaves_of_canonical
  by_cases hnone : migration (readOptIns fits file).values = []
  · rw [hfile, if_pos hnone, hnone]
  · rw [if_neg hnone] at hfile
    rw [hfile]
    cases hfits : fits (byId (migrated fits file).optIns.values) with
    | false =>
      rw [readOptIns_unfit hfits]
      rfl
    | true =>
      have hkeyed := keyed_migrated fits file
      have hsame := hkeyed.get_readOptIns hfits
      apply migration_eq_nil (hkeyed.congr hsame)
      intro r hr
      rw [mem_values_congr hkeyed hsame] at hr
      exact (migrated_spec fits file).canonical r hr

/-! ## Memory and file -/

/-- Each write has what the calls before it have made of the content, and its own; the
    last has what is in memory. -/
def Chained (fits : Records → Bool) (optIns : Records) : Records → List OptInWrite → Prop
  | content, [] => ∀ id, optIns.get id = content.get id
  | content, w :: writes =>
    Keyed w.snapshot ∧ (∀ id, (readOptIns fits w.snapshot).get id = w.snapshot.get id) ∧ w.previous = content.get w.key ∧
      (∀ id, id ≠ w.key → w.snapshot.get id = content.get id) ∧ (w.sets = false → w.snapshot.get w.key = none) ∧
      Chained fits optIns w.snapshot writes

variable {optIns content : Records} {writes : List OptInWrite} {s : OptInStore}

theorem Chained.congr {content' : Records} (h : Chained fits optIns content writes)
    (hsame : ∀ id, content'.get id = content.get id) : Chained fits optIns content' writes := by
  cases writes with
  | nil =>
    intro id
    rw [hsame]
    exact h id
  | cons w writes =>
    obtain ⟨hkeyed, hread, hprevious, hother, hgone, hrest⟩ := h
    refine ⟨hkeyed, hread, ?_, ?_, hgone, hrest⟩
    · rw [hsame]
      exact hprevious
    · intro id hid
      rw [hsame]
      exact hother id hid

theorem Chained.keyed (h : Chained fits optIns content writes) (hcontent : Keyed content) : Keyed optIns := by
  induction writes generalizing content with
  | nil => exact hcontent.congr h
  | cons w writes ih =>
    obtain ⟨hkeyed, -, -, -, -, hrest⟩ := h
    exact ih hrest hkeyed

/-- A call's write goes to the end. -/
theorem Chained.call (h : Chained fits optIns content writes) (c : OptInCall) {w : OptInWrite} (hkey : w.key = c.key)
    (hprevious : w.previous = optIns.get c.key) (hsnapshot : ∀ id, w.snapshot.get id = (applied optIns c).get id)
    (hkeyed : Keyed w.snapshot) (hread : ∀ id, (readOptIns fits w.snapshot).get id = w.snapshot.get id)
    (hsets : w.sets = false → c.value = none) : Chained fits (applied optIns c) content (writes ++ [w]) := by
  induction writes generalizing content with
  | nil =>
    refine ⟨hkeyed, hread, ?_, ?_, ?_, ?_⟩
    · rw [hprevious, hkey]
      exact h c.key
    · intro id hid
      rw [hkey] at hid
      rw [hsnapshot, get_applied, if_neg hid]
      exact h id
    · intro hremoves
      rw [hkey, hsnapshot, get_applied, if_pos rfl]
      exact hsets hremoves
    · intro id
      exact (hsnapshot id).symm
  | cons v writes ih =>
    obtain ⟨hkeyed', hread', hprevious', hother, hgone, hrest⟩ := h
    exact ⟨hkeyed', hread', hprevious', hother, hgone, ih hrest⟩

/-- The only write's caller puts back what the content has. -/
theorem get_rollback {w : OptInWrite} (h : Chained fits optIns content [w]) (id : JsString) :
    (rollback optIns w).get id = content.get id := by
  obtain ⟨-, -, hprevious, hother, hgone, hlast⟩ := h
  simp only [rollback]
  cases hcontent : w.previous with
  | some previous =>
    simp only [JsMap.get_set]
    by_cases hid : id = w.key
    · rw [if_pos hid, hid, ← hprevious, hcontent]
    · rw [if_neg hid, hlast, hother id hid]
  | none =>
    rw [hcontent] at hprevious
    by_cases hsets : w.sets = true
    · simp only [if_pos hsets, JsMap.get_delete]
      by_cases hid : id = w.key
      · rw [if_pos hid, hid, ← hprevious]
      · rw [if_neg hid, hlast, hother id hid]
    · simp only [if_neg hsets]
      by_cases hid : id = w.key
      · rw [hid, ← hprevious, hlast, hgone (by simpa using hsets)]
      · rw [hlast, hother id hid]

theorem chained_call (h : Chained fits s.optIns (readOptIns fits s.file) s.writes) (c : OptInCall)
    (hcareful : Careful fits s (.call c)) : Chained fits (s.call c).optIns (readOptIns fits (s.call c).file) (s.call c).writes := by
  have hkeyed := h.keyed (keyed_readOptIns fits s.file)
  have happlied : Keyed (applied s.optIns c) ∧ fits (byId (applied s.optIns c).values) = true := by
    cases c with
    | setOptIn record => exact ⟨hkeyed.set hcareful.1, hcareful.2⟩
    | removeOptIn sessionId => exact ⟨hkeyed.delete sessionId, hcareful⟩
  obtain ⟨happlied, hfits⟩ := happlied
  have hsnapshot := happlied.get_byId
  have hread : ∀ id, (readOptIns fits (byId (applied s.optIns c).values)).get id = (byId (applied s.optIns c).values).get id := by
    intro id
    rw [happlied.get_readOptIns hfits, hsnapshot]
  cases c with
  | setOptIn record =>
    exact h.call (.setOptIn record) (w := ⟨_, _, _, _⟩) rfl rfl hsnapshot (happlied.congr hsnapshot) hread nofun
  | removeOptIn sessionId =>
    exact h.call (.removeOptIn sessionId) (w := ⟨_, _, _, _⟩) rfl rfl hsnapshot (happlied.congr hsnapshot) hread fun _ => rfl

theorem chained_settle (h : Chained fits s.optIns (readOptIns fits s.file) s.writes) (outcome : WriteOutcome)
    (hcareful : Careful fits s (.settle outcome)) :
    Chained fits (s.settle outcome).optIns (readOptIns fits (s.settle outcome).file) (s.settle outcome).writes := by
  simp only [settle]
  cases hwrites : s.writes with
  | nil =>
    rw [hwrites] at h
    simp only [hwrites]
    exact h
  | cons w writes =>
    rw [hwrites] at h
    rcases hcareful with ⟨hwritten, hresolved⟩ | ⟨hwritten, hresolved, hlength⟩
    · simp only [hwritten, hresolved, if_true]
      obtain ⟨-, hread, -, -, -, hrest⟩ := h
      exact hrest.congr hread
    · rw [hwrites] at hlength
      have hlast : writes = [] := eq_nil_of_length_eq_zero (by simpa using hlength)
      subst hlast
      simp only [hwritten, hresolved, Bool.false_eq_true, if_false]
      intro id
      exact get_rollback h id

/-- The migration keeps every session's newest record exactly if each start that is cut
    short has left it, or written it, and a second one does nothing; and where calls fail
    alone and without effect, memory is what the file has whenever no write is left. -/
theorem opt_ins_kept_iff (fits : Records → Bool) (file : Records) :
    (∀ starts, Migrated (readOptIns fits file).values (migrated fits (starts.foldl (leaves fits) file)).optIns ↔
      Run.Along (leaves fits) (Kept fits) file starts) ∧
    ((∀ outcomes, (migrated fits file).migrateOptIns outcomes = (migrated fits file, true)) ∧
      ∀ outcomes, leaves fits (migrated fits file).file outcomes = (migrated fits file).file) ∧
    ∀ es, Run.Along OptInStore.step (Careful fits) (init fits file) es → ∀ fs, fs <+: es →
      (fs.foldl OptInStore.step (init fits file)).writes = [] → ∀ id,
        (fs.foldl OptInStore.step (init fits file)).optIns.get id =
          (init fits (fs.foldl OptInStore.step (init fits file)).file).optIns.get id := by
  refine ⟨?_, ⟨?_, leaves_migrated fits file⟩, ?_⟩
  · intro starts
    rw [migrated_iff_covers (within_starts fits file starts), kept_along_iff]
  · intro outcomes
    rw [migrateOptIns, migration_migrated]
    rfl
  · rintro es h fs ⟨rest, rfl⟩ hidle id
    have halong := (Run.along_append.mp h).1
    have hinit : Chained fits (init fits file).optIns (readOptIns fits (init fits file).file) (init fits file).writes :=
      fun _ => rfl
    have hstep : ∀ s e, Chained fits s.optIns (readOptIns fits s.file) s.writes → Careful fits s e →
        Chained fits (s.step e).optIns (readOptIns fits (s.step e).file) (s.step e).writes := by
      intro s e hs hcareful
      cases e with
      | call c => exact chained_call hs c hcareful
      | settle outcome => exact chained_settle hs outcome hcareful
    have hrun := Run.invariant (I := fun s : OptInStore => Chained fits s.optIns (readOptIns fits s.file) s.writes) hstep hinit
      halong
    rw [hidle] at hrun
    exact hrun id

/-- A Pi session under its file's name. -/
def legacyOptIn : OptInRecord where
  sessionId := js "2026-07-02_0f8a1b2c-3d4e-5f60-7182-93a4b5c6d7e8"
  runtime := .pi
  sessionPath := js "/s/2026-07-02_0f8a1b2c-3d4e-5f60-7182-93a4b5c6d7e8.jsonl"
  optedInAt := some (js "2026-07-02T17:16:54.733Z")

def claudeOptIn (id : String) : OptInRecord where
  sessionId := js id
  runtime := .claude
  sessionPath := js id
  optedInAt := some (js "2026-07-02T17:20:00.000Z")

/-- A start dies after the removal, and a write fails while a second waits that lands. -/
theorem opt_in_lost :
    ¬ Migrated [legacyOptIn] (migrated (fun _ => true) (leaves (fun _ => true) (byId [legacyOptIn]) [⟨true, true⟩])).optIns ∧
    ∃ s, [OptInEvent.call (.setOptIn (claudeOptIn "a")), .call (.setOptIn (claudeOptIn "b")), .settle ⟨false, false⟩,
        .settle ⟨true, true⟩].foldl OptInStore.step (init (fun _ => true) .empty) = s ∧
      s.writes = [] ∧ s.optIns.get (js "a") = none ∧ (init (fun _ => true) s.file).optIns.get (js "a") = some (claudeOptIn "a") := by
  refine ⟨?_, _, rfl, by decide +kernel, by decide +kernel, by decide +kernel⟩
  intro h
  obtain ⟨x, hx, -⟩ := h.newest legacyOptIn mem_cons_self
  have hnone : (migrated (fun _ => true) (leaves (fun _ => true) (byId [legacyOptIn]) [⟨true, true⟩])).optIns.get
      (canonicalId legacyOptIn) = none := by decide +kernel
  rw [hnone] at hx
  cases hx

end PiWebUi.Notifications.OptIns
