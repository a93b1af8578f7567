/-
  PiWebUi.Preferences.Convergence — what the deltas of several devices leave of a session.

  A delta is applied or refused by the record it arrives at, whatever field the newer
  write had touched: a rename that arrives first refuses an older pin, and the pin that
  was answered is gone (`a_rename_refuses_an_older_pin`). So the values do depend on the
  order. What holds in every order is that each field ends as the applied delta with the
  largest instant among those that assign it (`fields_follow_the_applied`): the deltas
  applied decide, and those are the ones that nothing newer on the session preceded.
-/

import PiWebUi.Preferences.SessionMeta
import PiWebUi.Lib.LastWriter
import PiWebUi.Lib.Run

namespace PiWebUi.Preferences

open PiWebUi.Lib List Option

variable {τ : Type} [LinearOrder τ]

/-! ## Fields -/

def Field.Val : Field → Type
  | .archived | .pinned => Bool
  | .displayName => Option JsString

instance (f : Field) : DecidableEq f.Val :=
  match f with
  | .archived | .pinned => inferInstanceAs (DecidableEq Bool)
  | .displayName => inferInstanceAs (DecidableEq (Option JsString))

/-- The value of a field; a session without a record is neither archived nor pinned nor named. -/
def valueOf (stored : Option (SessionMeta τ)) : (f : Field) → f.Val
  | .archived => (stored.getD {}).archived
  | .pinned => (stored.getD {}).pinned
  | .displayName => (stored.getD {}).displayName

/-- The value a change gives a field; archiving assigns two. -/
def Change.assigns : Change → (f : Field) → Option f.Val
  | .archive, .archived => some true
  | .archive, .pinned => some false
  | .unarchive, .archived => some false
  | .pin, .pinned => some true
  | .unpin, .pinned => some false
  | .rename name, .displayName => some (trimmedName name)
  | _, _ => none

/-- The instant of the last write, below every instant where there is none. -/
def newest (stored : Option (SessionMeta τ)) : WithBot τ :=
  match stored.bind (·.updatedAt) with
  | none => ⊥
  | some u => u

def Delta.applies (stored : Option (SessionMeta τ)) (d : Delta τ) : Bool := d.change.applies stored d.now

theorem not_stale_iff {r : SessionMeta τ} {now : τ} : staleFor r now = false ↔ newest (some r) ≤ now := by
  rw [staleFor, newest, bind_some]
  cases r.updatedAt with
  | none => exact ⟨fun _ => bot_le, fun _ => rfl⟩
  | some u =>
    rw [any_some, decide_eq_false_iff_not, not_lt]
    exact WithBot.coe_le_coe.symm

variable {stored : Option (SessionMeta τ)} {ds : List (Delta τ)} {key : JsString}

theorem applies_iff {d : Delta τ} : d.applies stored = true ↔ (stored.isSome ∨ d.change.sets = true) ∧ newest stored ≤ d.now := by
  cases stored with
  | none =>
    simp only [Delta.applies, Change.applies, isSome_none, Bool.false_eq_true, false_or]
    exact ⟨fun h => ⟨h, bot_le⟩, And.left⟩
  | some r =>
    simp only [Delta.applies, Change.applies, Bool.not_eq_true', isSome_some, true_or, true_and]
    exact not_stale_iff

theorem record_stamped : LastWriter.Stamped Delta.onRecord Delta.applies newest (Delta.now (τ := τ)) where
  refuses s d h := by
    rw [Delta.onRecord, Change.onRecord, if_neg]
    exact Bool.eq_false_iff.mp h
  not_older s d h := (applies_iff.mp h).2
  stamps s d h := by
    rw [Delta.onRecord, Change.onRecord, if_pos]
    · rfl
    · exact h

theorem record_assigns (f : Field) :
    LastWriter.Assigns Delta.onRecord Delta.applies (valueOf (τ := τ) · f) (·.change.assigns f) := by
  intro s d h
  have hs : d.onRecord s =
      some { d.change.effect (s.getD {}) d.now with updatedAt := some d.now, legacyKey := some d.legacyKey } := by
    rw [Delta.onRecord, Change.onRecord, if_pos]
    exact h
  simp only [hs]
  cases d.change <;> cases f <;> rfl

/-! ## A sequence of deltas -/

variable (resolver : JsString → Option JsString)

/-- The map after the deltas reached the server in this order. -/
def arrive (sessions : Sessions τ) (ds : List (Delta τ)) : Sessions τ := ds.foldl (Delta.run resolver) sessions

/-- The deltas of `ds` that were applied where they arrived. -/
def applied (stored : Option (SessionMeta τ)) (ds : List (Delta τ)) : List (Delta τ) :=
  LastWriter.applied Delta.onRecord Delta.applies stored ds

theorem get_arrive (hk : ∀ d ∈ ds, d.key resolver = key) (sessions : Sessions τ) :
    (arrive resolver sessions ds).get key = ds.foldl Delta.onRecord (sessions.get key) := by
  induction ds generalizing sessions with
  | nil => rfl
  | cons d ds ih =>
    have hd : d.key resolver = key := hk d (mem_cons_self ..)
    rw [arrive, foldl_cons, ← arrive, ih fun e he => hk e (mem_cons_of_mem d he), foldl_cons]
    rw [get_run, hd, if_pos rfl]

/-- What decides at an arrival: nothing newer was written on the session before, whatever the field. -/
theorem applies_after_iff {sessions : Sessions τ} (hk : ∀ d ∈ ds, d.key resolver = key) (d : Delta τ) :
    d.applies ((arrive resolver sessions ds).get key) = true ↔
      (((arrive resolver sessions ds).get key).isSome ∨ d.change.sets = true) ∧
        newest (sessions.get key) ≤ d.now ∧ ∀ e ∈ applied (sessions.get key) ds, e.now ≤ d.now := by
  rw [applies_iff, get_arrive resolver hk]
  exact and_congr_right fun _ => LastWriter.newest_foldl_le_iff record_stamped ..

theorem isSome_foldl (h : stored.isSome) (ds : List (Delta τ)) : (ds.foldl Delta.onRecord stored).isSome :=
  Run.invariant_all (I := fun stored : Option (SessionMeta τ) => stored.isSome = true) (fun _ d hs => isSome_onRecord hs d) h ds

/-- The newest delta of all is applied wherever it arrives, on a session that has a record. -/
theorem newest_is_applied {d : Delta τ} (hd : d ∈ ds)
    (hrec : stored.isSome) (hstart : newest stored ≤ d.now) (hmax : ∀ e ∈ ds, e.now ≤ d.now) : d ∈ applied stored ds := by
  obtain ⟨pre, post, rfl⟩ := append_of_mem hd
  rw [applied, LastWriter.applied_append]
  apply mem_append_right
  have happ : d.applies (pre.foldl Delta.onRecord stored) = true := by
    rw [applies_iff]
    refine ⟨.inl (isSome_foldl hrec pre), ?_⟩
    rw [LastWriter.newest_foldl_le_iff record_stamped]
    refine ⟨hstart, fun e he => hmax e ?_⟩
    exact mem_append_left _ (LastWriter.mem_of_mem_applied he)
  rw [LastWriter.applied, if_pos happ]
  exact mem_append_left _ (mem_singleton_self d)

/-- Each field has the value of the newest applied delta that assigns it, or its first value. -/
theorem field_after {sessions : Sessions τ}
    (hk : ∀ d ∈ ds, d.key resolver = key) (hdistinct : ∀ d ∈ ds, ∀ e ∈ ds, d.now = e.now → d = e) (f : Field) :
    (∀ d ∈ applied (sessions.get key) ds, ∀ v, d.change.assigns f = some v →
      (∀ e ∈ applied (sessions.get key) ds, (e.change.assigns f).isSome → e.now ≤ d.now) →
        valueOf ((arrive resolver sessions ds).get key) f = v) ∧
    ((∀ d ∈ applied (sessions.get key) ds, d.change.assigns f = none) →
      valueOf ((arrive resolver sessions ds).get key) f = valueOf (sessions.get key) f) := by
  rw [get_arrive resolver hk]
  constructor
  · intro d hd v hv hmax
    exact LastWriter.field_of_latest record_stamped (record_assigns f) hdistinct hd hv hmax
  · intro hnone
    exact LastWriter.field_of_none record_stamped.refuses (record_assigns f) hnone

theorem refused_unchanged {sessions : Sessions τ} {d : Delta τ}
    (hk : d.key resolver = key) (h : d.applies ((arrive resolver sessions ds).get key) = false) :
    (arrive resolver sessions (ds ++ [d])).get key = (arrive resolver sessions ds).get key := by
  have hfold : arrive resolver sessions (ds ++ [d]) = d.run resolver (arrive resolver sessions ds) := by
    rw [arrive, foldl_append]
    rfl
  rw [hfold, get_run, if_pos hk.symm, hk]
  exact record_stamped.refuses _ d h

/-- Deltas on one session, in any order and with deliveries repeated. -/
structure OnSession (key : JsString) (ds : List (Delta τ)) : Prop where
  key : ∀ d ∈ ds, d.key resolver = key
  distinct : ∀ d ∈ ds, ∀ e ∈ ds, d.now = e.now → d = e

/-- What a session ends with is decided by the deltas that were applied: each field by the
    newest of them that assigns it. A delta is refused only by something newer on the same
    session, or because it clears where there is no record, and the newest of all never is. -/
theorem fields_follow_the_applied (sessions : Sessions τ) (key : JsString) (ds : List (Delta τ)) (h : OnSession resolver key ds) :
    (∀ f, (∀ d ∈ applied (sessions.get key) ds, ∀ v, d.change.assigns f = some v →
        (∀ e ∈ applied (sessions.get key) ds, (e.change.assigns f).isSome → e.now ≤ d.now) →
          valueOf ((arrive resolver sessions ds).get key) f = v) ∧
      ((∀ d ∈ applied (sessions.get key) ds, d.change.assigns f = none) →
        valueOf ((arrive resolver sessions ds).get key) f = valueOf (sessions.get key) f)) ∧
    (∀ es, OnSession resolver key es → (∀ d, d ∈ applied (sessions.get key) es ↔ d ∈ applied (sessions.get key) ds) →
      ∀ f, valueOf ((arrive resolver sessions es).get key) f = valueOf ((arrive resolver sessions ds).get key) f) ∧
    (∀ pre d post, ds = pre ++ d :: post → (d.applies ((arrive resolver sessions pre).get key) = true ↔
        (((arrive resolver sessions pre).get key).isSome ∨ d.change.sets = true) ∧
          newest (sessions.get key) ≤ d.now ∧ ∀ e ∈ applied (sessions.get key) pre, e.now ≤ d.now) ∧
      (d.applies ((arrive resolver sessions pre).get key) = false →
        (arrive resolver sessions (pre ++ [d])).get key = (arrive resolver sessions pre).get key)) ∧
    (∀ d ∈ ds, (sessions.get key).isSome → newest (sessions.get key) ≤ d.now → (∀ e ∈ ds, e.now ≤ d.now) →
      d ∈ applied (sessions.get key) ds) := by
  refine ⟨field_after resolver h.key h.distinct, ?_, ?_, fun d hd => newest_is_applied hd⟩
  · intro es hes hsame f
    rw [get_arrive resolver h.key, get_arrive resolver hes.key]
    exact LastWriter.field_eq_of_same_applied record_stamped (record_assigns f) hes.distinct h.distinct hsame
  · rintro pre d post rfl
    refine ⟨applies_after_iff resolver (fun e he => h.key e (mem_append_left _ he)) d, ?_⟩
    exact refused_unchanged resolver (h.key d (mem_append_right _ (mem_cons_self ..)))

/-! A pin at 1, a rename at 2 and an archive at 3, on a session last written at 0. -/

def aSession : JsString := js "claude:s"

def aPin : Delta ℕ := ⟨.key aSession, .pin, 1⟩

def aRename : Delta ℕ := ⟨.key aSession, .rename (some (js "n")), 2⟩

def anArchive : Delta ℕ := ⟨.key aSession, .archive, 3⟩

def theSession : Sessions ℕ := JsMap.empty.set aSession { updatedAt := some 0 }

theorem named_and_archived :
    valueOf ((arrive (fun _ => none) theSession [aRename, aPin, anArchive, aRename]).get aSession) .displayName = some (js "n") :=
  ((fields_follow_the_applied (fun _ => none) theSession aSession [aRename, aPin, anArchive, aRename]
    ⟨by decide, by decide⟩).1 .displayName).1 aRename (by decide) (some (js "n")) (by decide) (by decide)

/-- The rename that arrives first refuses the older pin, of another field. -/
theorem a_rename_refuses_an_older_pin :
    OnSession (fun _ => none) aSession [aPin, aRename] ∧ OnSession (fun _ => none) aSession [aRename, aPin] ∧
      ((arrive (fun _ => none) theSession [aPin, aRename]).get aSession).map (·.pinned) = some true ∧
      ((arrive (fun _ => none) theSession [aRename, aPin]).get aSession).map (·.pinned) = some false :=
  ⟨⟨by decide, by decide⟩, ⟨by decide, by decide⟩, by decide, by decide⟩

end PiWebUi.Preferences
