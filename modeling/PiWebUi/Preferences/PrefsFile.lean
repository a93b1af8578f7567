/-
  PiWebUi.Preferences.PrefsFile — the preferences file under its readers and writers
  (`readPreferences`, `writePreferences`, `withPrefsLock` of server/src/routes/preferences.ts).

  Actors. A writer (a delta or a patch) holds the mutex from before its read until it has
  answered: it reads, changes what it read in memory, writes the temporary file and
  renames it over the preferences file. A reader (`GET /`) takes no lock. Both go through
  `readPreferences`: a v1 form is migrated, backed up, written to the same temporary file
  and renamed by whoever read it. What cannot be read, parsed or validated, and a
  migration that cannot be written, count as an empty map. Every await is a step, and each
  file operation may fail; a failed write may leave anything in the temporary file.
-/

import PiWebUi.Preferences.Exclusive

namespace PiWebUi.Preferences.PrefsFile

open PiWebUi.Lib PiWebUi.Preferences List

variable {τ : Type} [LinearOrder τ]

/-- What a read can find. `bad` is content that is not JSON or fails its schema, with the
    records it has nevertheless. -/
inductive Content (τ : Type)
  | absent
  | bad (raw : Sessions τ)
  | v1 (form : V1Preferences)
  | v2 (sessions : Sessions τ)
  deriving DecidableEq

def Content.isAbsent : Content τ → Bool
  | .absent => true
  | _ => false

/-- The records of the content, as they stand or as a migration builds them. -/
def Content.Yields : Content τ → Sessions τ → Prop
  | .absent, x => x = JsMap.empty
  | .bad raw, x => x = raw
  | .v1 form, x => ∃ resolver now, x = migrateV1ToV2 resolver now form
  | .v2 y, x => x = y

/-- A request of the file: `GET /`, or a write under the mutex. -/
inductive Kind (τ : Type)
  | reader
  | writer (q : Request τ)

inductive Stage (τ : Type)
  | idle
  | reading
  /-- `copyFile` to the backup, `writeFile` and `rename` of a migration. -/
  | copying (form : V1Preferences) (v2 : Sessions τ)
  | migrating (form : V1Preferences) (v2 : Sessions τ)
  | moving (form : V1Preferences) (v2 : Sessions τ)
  /-- The map `read()` answered; `standIn` where it is empty for want of the content. -/
  | loaded (prefs : Sessions τ) (standIn : Bool)
  /-- `writeFile` and `rename` of the changed map. -/
  | storing (prefs : Sessions τ) (standIn : Bool)
  | closing (prefs : Sessions τ) (standIn : Bool)
  | settled (ok : Bool)
  deriving DecidableEq

/-- A `writeFile` of the temporary file; a failed one may leave `left` there. -/
inductive Written (τ : Type)
  | ok
  | failed
  | torn (left : Content τ)

inductive Event (τ : Type)
  | start (i : ℕ)
  | read (i : ℕ) (ok : Bool) (resolver : JsString → Option JsString) (now : τ)
  | copy (i : ℕ) (ok : Bool)
  | change (i : ℕ)
  | writeTmp (i : ℕ) (w : Written τ)
  | rename (i : ℕ) (ok : Bool)

/-- `renamed` has the writers whose own rename succeeded, in order. -/
structure St (τ : Type) where
  file : Content τ
  tmp : Content τ
  lock : Option ℕ
  stage : ℕ → Stage τ
  renamed : List ℕ

/-- `JSON.stringify`, as it reads back: an instant that is not finite becomes `null`, which
    no schema takes. -/
def stringify (finite : τ → Bool) (s : Sessions τ) : Content τ :=
  if s.values.all fun r => r.archivedAt.all finite && r.updatedAt.all finite then .v2 s else .bad s

def St.goto (s : St τ) (i : ℕ) (st : Stage τ) : St τ := { s with stage := Function.update s.stage i st }

/-- A request whose answer is out; a writer gives the mutex back. -/
def St.settle (s : St τ) (i : ℕ) (ok : Bool) : St τ :=
  { s.goto i (.settled ok) with lock := if s.lock = some i then none else s.lock }

/-- `readPreferences` answers: a reader is done with it, a writer goes on. -/
def Kind.onLoad (prefs : Sessions τ) (standIn : Bool) : Kind τ → Stage τ
  | .reader => .settled true
  | .writer _ => .loaded prefs standIn

section

variable (finite : τ → Bool) (kind : ℕ → Kind τ)

def St.load (s : St τ) (i : ℕ) (prefs : Sessions τ) (standIn : Bool) : St τ :=
  s.goto i ((kind i).onLoad prefs standIn)

def readFile (s : St τ) (i : ℕ) (ok : Bool) (resolver : JsString → Option JsString) (now : τ) : St τ :=
  if ok then
    match s.file with
    | .absent => s.load kind i JsMap.empty false
    | .bad _ => s.load kind i JsMap.empty true
    | .v2 prefs => s.load kind i prefs false
    | .v1 form => s.goto i (.copying form (migrateV1ToV2 resolver now form))
  else s.load kind i JsMap.empty true

def writeTmpFile (s : St τ) (i : ℕ) (w : Written τ) : St τ :=
  match s.stage i, w with
  | .migrating form v2, .ok => { s.goto i (.moving form v2) with tmp := stringify finite v2 }
  | .migrating _ _, .failed => s.load kind i JsMap.empty true
  | .migrating _ _, .torn left => { s.load kind i JsMap.empty true with tmp := left }
  | .storing prefs standIn, .ok => { s.goto i (.closing prefs standIn) with tmp := stringify finite prefs }
  | .storing _ _, .failed => s.settle i false
  | .storing _ _, .torn left => { s.settle i false with tmp := left }
  | _, _ => s

/-- A rename also fails where another request has renamed the temporary file away. -/
def renameTmp (s : St τ) (i : ℕ) (ok : Bool) : St τ :=
  match s.stage i with
  | .moving _ v2 =>
    if ok && !s.tmp.isAbsent then { s.load kind i v2 false with file := s.tmp, tmp := .absent }
    else s.load kind i JsMap.empty true
  | .closing _ _ =>
    if ok && !s.tmp.isAbsent then
      { s.settle i true with file := s.tmp, tmp := .absent, renamed := s.renamed ++ [i] }
    else s.settle i false
  | _ => s

def step (s : St τ) : Event τ → St τ
  | .start i =>
    match s.stage i, kind i with
    | .idle, .reader => s.goto i .reading
    | .idle, .writer _ => if s.lock = none then { s.goto i .reading with lock := some i } else s
    | _, _ => s
  | .read i ok resolver now =>
    match s.stage i with
    | .reading => readFile kind s i ok resolver now
    | _ => s
  | .copy i _ =>
    match s.stage i with
    | .copying form v2 => s.goto i (.migrating form v2)
    | _ => s
  | .change i =>
    match s.stage i, kind i with
    | .loaded prefs standIn, .writer q => s.goto i (.storing (q.run prefs) standIn)
    | _, _ => s
  | .writeTmp i w => writeTmpFile finite kind s i w
  | .rename i ok => renameTmp kind s i ok

def init (file tmp : Content τ) : St τ := ⟨file, tmp, none, fun _ => .idle, []⟩

/-- A rename that succeeds puts down what its request wrote. A reader's migration comes
    before any delta is stored, and a map that stands in for content that was not read is
    stored only over a file without records. -/
def Event.Clean (s : St τ) : Event τ → Prop
  | .rename i true =>
    match s.stage i with
    | .moving _ v2 => s.tmp = stringify finite v2 ∧ ((∀ q, kind i ≠ .writer q) → s.renamed = [])
    | .closing prefs standIn => s.tmp = stringify finite prefs ∧ (standIn = true → s.file.Yields JsMap.empty)
    | _ => True
  | _ => True

end

/-! ## The invariant -/

section

variable {finite : τ → Bool} {kind : ℕ → Kind τ} {first : Content τ}

variable {x : Sessions τ} {i : ℕ} {s : St τ}

omit [LinearOrder τ] in
theorem yields_stringify {y : Sessions τ} : (stringify finite y).Yields x ↔ x = y := by
  rw [stringify]
  split <;> exact Iff.rfl

omit [LinearOrder τ] in
theorem stringify_ne_v1 {y : Sessions τ} {form : V1Preferences} : stringify finite y ≠ .v1 form := by
  rw [stringify]
  split <;> simp

/-- The records a writer may build on: those in the file, or, before anything was stored,
    those of the first content. -/
def Base (first file : Content τ) (renamed : List ℕ) (x : Sessions τ) : Prop :=
  file.Yields x ∨ renamed = [] ∧ first.Yields x

def Stage.active : Stage τ → Bool
  | .idle | .settled _ => false
  | _ => true

/-- What a request has in hand. A form was read before anything was stored, and a writer
    lets nothing be stored since. -/
def Stage.Sound (first file : Content τ) (renamed : List ℕ) (kind : Kind τ) : Stage τ → Prop
  | .copying _ v2 | .migrating _ v2 | .moving _ v2 => first.Yields v2 ∧ ((∃ q, kind = .writer q) → renamed = [])
  | .loaded prefs standIn =>
    (∃ q, kind = .writer q) ∧ if standIn then prefs = JsMap.empty else Base first file renamed prefs
  | .storing prefs standIn | .closing prefs standIn =>
    ∃ q x, kind = .writer q ∧ prefs = q.run x ∧ if standIn then x = JsMap.empty else Base first file renamed x
  | _ => True

/-- The map after the requests of `renamed`, in order. -/
def replay (kind : ℕ → Kind τ) (x : Sessions τ) (renamed : List ℕ) : Sessions τ :=
  renamed.foldl (fun x i => match kind i with
    | .writer q => q.run x
    | .reader => x) x

/-- The file is the first content, or its records under the renamed requests. -/
def Accounted (finite : τ → Bool) (kind : ℕ → Kind τ) (first file : Content τ) (renamed : List ℕ) : Prop :=
  file = first ∧ renamed = [] ∨ ∃ x, first.Yields x ∧ file = stringify finite (replay kind x renamed)

structure Inv (finite : τ → Bool) (kind : ℕ → Kind τ) (first : Content τ) (s : St τ) : Prop where
  holder : ∀ i q, kind i = .writer q → (s.stage i).active = true → s.lock = some i
  sound : ∀ i, (s.stage i).Sound first s.file s.renamed (kind i)
  accounted : Accounted finite kind first s.file s.renamed
  answered : ∀ i q, kind i = .writer q → s.stage i = .settled true → i ∈ s.renamed
  once : s.renamed.Nodup
  closed : ∀ i ∈ s.renamed, s.stage i = .settled true

theorem replay_append {renamed : List ℕ} {q : Request τ} (h : kind i = .writer q) :
    replay kind x (renamed ++ [i]) = q.run (replay kind x renamed) := by
  rw [replay, foldl_append, foldl_cons, foldl_nil, h]
  rfl

/-- Before anything is stored the file has the records of the first content. -/
theorem first_yields {file : Content τ} (h : Accounted finite kind first file []) (hx : file.Yields x) : first.Yields x := by
  rcases h with ⟨rfl, -⟩ | ⟨y, hy, rfl⟩
  · exact hx
  · rw [yields_stringify.mp hx]
    exact hy

/-- A v1 form in the file is the first content, and nothing was stored. -/
theorem form_is_first {file : Content τ} {renamed : List ℕ} (h : Accounted finite kind first file renamed)
    {form : V1Preferences} (hf : file = .v1 form) : first = .v1 form ∧ renamed = [] := by
  rcases h with ⟨rfl, hr⟩ | ⟨y, -, hy⟩
  · exact ⟨hf, hr⟩
  · exact absurd (hy.symm.trans hf) stringify_ne_v1

/-- A request moves on, the file as it was. -/
theorem inv_goto {s' : St τ} (h : Inv finite kind first s) {st : Stage τ}
    (hstage : s'.stage = Function.update s.stage i st) (hfile : s'.file = s.file) (hrenamed : s'.renamed = s.renamed)
    (hopen : ∀ ok, s.stage i ≠ .settled ok) (hsound : st.Sound first s.file s.renamed (kind i))
    (hlock : ∀ q, kind i = .writer q → st.active = true → s'.lock = some i)
    (hothers : ∀ j, j ≠ i → s.lock = some j → s'.lock = some j)
    (hanswer : ∀ q, kind i = .writer q → st ≠ .settled true) : Inv finite kind first s' := by
  have hat : s'.stage i = st := by rw [hstage, Function.update_self]
  have hne : ∀ j, j ≠ i → s'.stage j = s.stage j := fun j hj => by rw [hstage, Function.update_of_ne hj]
  refine ⟨?_, ?_, ?_, ?_, ?_, ?_⟩
  · intro j q hk ha
    by_cases hj : j = i
    · subst hj
      exact hlock q hk (hat ▸ ha)
    · exact hothers j hj (h.holder j q hk (hne j hj ▸ ha))
  · intro j
    rw [hfile, hrenamed]
    by_cases hj : j = i
    · rw [hj, hat]
      exact hsound
    · rw [hne j hj]
      exact h.sound j
  · rw [hfile, hrenamed]
    exact h.accounted
  · intro j q hk hs
    rw [hrenamed]
    by_cases hj : j = i
    · subst hj
      exact absurd (hat.symm.trans hs) (hanswer q hk)
    · exact h.answered j q hk (hne j hj ▸ hs)
  · rw [hrenamed]
    exact h.once
  · intro j hj
    rw [hrenamed] at hj
    have hji : j ≠ i := by
      rintro rfl
      exact hopen true (h.closed j hj)
    rw [hne j hji]
    exact h.closed j hj

section

variable (h : Inv finite kind first s)
include h

theorem inv_load (hact : (s.stage i).active = true) (prefs : Sessions τ) (standIn : Bool) (hbase : (∃ q, kind i = .writer q) →
      if standIn then prefs = JsMap.empty else Base first s.file s.renamed prefs) (tmp : Content τ) :
    Inv finite kind first { s.load kind i prefs standIn with tmp } := by
  have hopen : ∀ ok, s.stage i ≠ .settled ok := by
    intro ok hs
    rw [hs] at hact
    cases hact
  refine inv_goto h rfl rfl rfl hopen ?_ ?_ (fun _ _ hj => hj) ?_
  · cases hk : kind i with
    | reader => trivial
    | writer q => exact ⟨⟨q, rfl⟩, hbase ⟨q, hk⟩⟩
  · intro q hk _
    exact h.holder i q hk hact
  · intro q hk
    simp [Kind.onLoad, hk]

theorem inv_read (hi : s.stage i = .reading) (ok : Bool)
    (resolver : JsString → Option JsString) (now : τ) : Inv finite kind first (readFile kind s i ok resolver now) := by
  have hact : (s.stage i).active = true := by rw [hi]; rfl
  have hstand : Inv finite kind first (s.load kind i JsMap.empty true) := inv_load h hact JsMap.empty true (fun _ => rfl) s.tmp
  rw [readFile]
  split
  · split
    · next hf => exact inv_load h hact JsMap.empty false (fun _ => .inl (by rw [hf]; rfl)) s.tmp
    · exact hstand
    · next prefs hf => exact inv_load h hact prefs false (fun _ => .inl (by rw [hf]; rfl)) s.tmp
    · next form hf =>
      obtain ⟨hfirst, hnone⟩ := form_is_first h.accounted hf
      refine inv_goto h rfl rfl rfl (by simp [hi]) ?_ ?_ (fun _ _ hj => hj) (by simp)
      · refine ⟨?_, fun _ => hnone⟩
        rw [hfirst]
        exact ⟨resolver, now, rfl⟩
      · intro q hk _
        exact h.holder i q hk hact
  · exact hstand

theorem inv_settle (hact : (s.stage i).active = true) (tmp : Content τ) : Inv finite kind first { s.settle i false with tmp } := by
  refine inv_goto h rfl rfl rfl ?_ trivial nofun ?_ (by simp)
  · intro ok hs
    rw [hs] at hact
    cases hact
  · intro j hj hlock
    have hne : s.lock ≠ some i := by
      rw [hlock]
      exact fun heq => hj (Option.some.inj heq)
    show (if s.lock = some i then none else s.lock) = some j
    rw [if_neg hne, hlock]

theorem inv_writeTmp (i : ℕ) (w : Written τ) : Inv finite kind first (writeTmpFile finite kind s i w) := by
  have hsound := h.sound i
  unfold writeTmpFile
  split
  · next form v2 hi =>
    rw [hi] at hsound
    exact inv_goto h rfl rfl rfl (by simp [hi]) hsound (fun q hk _ => h.holder i q hk (by rw [hi]; rfl))
      (fun _ _ hj => hj) (by simp)
  · next hi => exact inv_load h (by rw [hi]; rfl) JsMap.empty true (fun _ => rfl) s.tmp
  · next left hi => exact inv_load h (by rw [hi]; rfl) JsMap.empty true (fun _ => rfl) left
  · next prefs standIn hi =>
    rw [hi] at hsound
    exact inv_goto h rfl rfl rfl (by simp [hi]) hsound (fun q hk _ => h.holder i q hk (by rw [hi]; rfl))
      (fun _ _ hj => hj) (by simp)
  · next hi => exact inv_settle h (by rw [hi]; rfl) s.tmp
  · next left hi => exact inv_settle h (by rw [hi]; rfl) left
  · exact h

end

/-! ## Renames -/

section

variable (h : Inv finite kind first s)
include h

/-- A migration of the first content, before anything is stored. -/
theorem inv_migrated (hnone : s.renamed = []) {v2 : Sessions τ}
    (hv : first.Yields v2) (tmp : Content τ) : Inv finite kind first { s with file := stringify finite v2, tmp } := by
  have hacc := h.accounted
  rw [hnone] at hacc
  have hbase : ∀ x, Base first s.file s.renamed x → Base first (stringify finite v2) s.renamed x := by
    rintro x (hx | hx)
    · exact .inr ⟨hnone, first_yields hacc hx⟩
    · exact .inr hx
  have hif : ∀ (standIn : Bool) x, (if standIn then x = JsMap.empty else Base first s.file s.renamed x) →
      if standIn then x = JsMap.empty else Base first (stringify finite v2) s.renamed x := by
    intro standIn x hx
    cases standIn with
    | true => exact hx
    | false => exact hbase x hx
  refine ⟨h.holder, ?_, ?_, h.answered, h.once, h.closed⟩
  · intro i
    have hsound := h.sound i
    show (s.stage i).Sound first (stringify finite v2) s.renamed (kind i)
    cases hi : s.stage i with
    | loaded prefs standIn =>
      rw [hi] at hsound
      exact ⟨hsound.1, hif standIn prefs hsound.2⟩
    | storing prefs standIn | closing prefs standIn =>
      rw [hi] at hsound
      obtain ⟨q, x, hk, hp, hx⟩ := hsound
      exact ⟨q, x, hk, hp, hif standIn x hx⟩
    | _ =>
      rw [hi] at hsound
      exact hsound
  · refine .inr ⟨v2, hv, ?_⟩
    show stringify finite v2 = stringify finite (replay kind v2 s.renamed)
    rw [hnone]
    rfl

/-- A writer stores what it built on the records in the file. -/
theorem inv_stored {q : Request τ} (hk : kind i = .writer q)
    (hact : (s.stage i).active = true) (hx : Base first s.file s.renamed x) : Inv finite kind first
      { s.settle i true with file := stringify finite (q.run x), tmp := .absent, renamed := s.renamed ++ [i] } := by
  have hlock := h.holder i q hk hact
  have hidle : ∀ j, j ≠ i → ∀ r, kind j = .writer r → (s.stage j).active = false := by
    intro j hj r hr
    by_contra ha
    have hother := h.holder j r hr (by simpa using ha)
    rw [hlock] at hother
    exact hj (Option.some.inj hother).symm
  have hat : (s.settle i true).stage i = .settled true := Function.update_self ..
  have hne : ∀ j, j ≠ i → (s.settle i true).stage j = s.stage j := fun j hj => Function.update_of_ne hj ..
  have hi : i ∉ s.renamed := by
    intro hm
    rw [h.closed i hm] at hact
    cases hact
  refine ⟨?_, ?_, ?_, ?_, ?_, ?_⟩
  · intro j r hr ha
    by_cases hj : j = i
    · subst hj
      have ha' : ((s.settle j true).stage j).active = true := ha
      rw [hat] at ha'
      cases ha'
    · have ha' : ((s.settle i true).stage j).active = true := ha
      rw [hne j hj, hidle j hj r hr] at ha'
      cases ha'
  · intro j
    show ((s.settle i true).stage j).Sound first (stringify finite (q.run x)) (s.renamed ++ [i]) (kind j)
    by_cases hj : j = i
    · rw [hj, hat]
      trivial
    · rw [hne j hj]
      have hsound := h.sound j
      -- only readers are at work beside the writer that holds the mutex
      cases hkj : kind j with
      | writer r =>
        have hin := hidle j hj r hkj
        cases hs : s.stage j <;> rw [hs] at hin <;> trivial
      | reader =>
        rw [hkj] at hsound
        cases hs : s.stage j with
        | copying form v2 | migrating form v2 | moving form v2 => rw [hs] at hsound; exact ⟨hsound.1, fun ⟨r, hr⟩ => (by cases hr)⟩
        | loaded prefs standIn =>
          rw [hs] at hsound
          obtain ⟨⟨r, hr⟩, -⟩ := hsound
          cases hr
        | storing prefs standIn | closing prefs standIn =>
          rw [hs] at hsound
          obtain ⟨r, -, hr, -⟩ := hsound
          cases hr
        | _ => trivial
  · refine .inr ?_
    show ∃ y, first.Yields y ∧ stringify finite (q.run x) = stringify finite (replay kind y (s.renamed ++ [i]))
    have hone : s.renamed = [] → first.Yields x →
        ∃ y, first.Yields y ∧ stringify finite (q.run x) = stringify finite (replay kind y (s.renamed ++ [i])) := by
      intro hr hf
      refine ⟨x, hf, ?_⟩
      rw [replay_append hk, hr]
      rfl
    rcases hx with hx | ⟨hr, hf⟩
    · rcases h.accounted with ⟨hf, hr⟩ | ⟨y, hy, hf⟩
      · exact hone hr (hf ▸ hx)
      · refine ⟨y, hy, ?_⟩
        rw [hf] at hx
        rw [replay_append hk, yields_stringify.mp hx]
    · exact hone hr hf
  · intro j r hr hs
    by_cases hj : j = i
    · exact mem_append_right _ (mem_singleton.mpr hj)
    · have hs' : (s.settle i true).stage j = .settled true := hs
      rw [hne j hj] at hs'
      exact mem_append_left _ (h.answered j r hr hs')
  · show (s.renamed ++ [i]).Nodup
    rw [nodup_append]
    refine ⟨h.once, nodup_singleton i, ?_⟩
    rintro a ha b hb rfl
    exact hi (mem_singleton.mp hb ▸ ha)
  · intro j hj
    show (s.settle i true).stage j = .settled true
    by_cases hji : j = i
    · rw [hji, hat]
    · rw [hne j hji]
      refine h.closed j ((mem_append.mp hj).resolve_right fun hm => hji (mem_singleton.mp hm))

theorem inv_rename {ok : Bool} (hc : (Event.rename i ok).Clean finite kind s) : Inv finite kind first (renameTmp kind s i ok) := by
  have hsound := h.sound i
  unfold renameTmp
  split
  · next form v2 hi =>
    rw [hi] at hsound
    have hact : (s.stage i).active = true := by rw [hi]; rfl
    split
    · next hok =>
      obtain rfl : ok = true := (Bool.and_eq_true_iff.mp hok).1
      simp only [Event.Clean, hi] at hc
      obtain ⟨htmp, hreader⟩ := hc
      have hnone : s.renamed = [] := by
        by_cases hw : ∃ q, kind i = .writer q
        · exact hsound.2 hw
        · exact hreader fun q hq => hw ⟨q, hq⟩
      rw [htmp]
      refine inv_load (inv_migrated h hnone hsound.1 .absent) hact v2 false (fun _ => .inl ?_) .absent
      exact yields_stringify.mpr rfl
    · exact inv_load h hact JsMap.empty true (fun _ => rfl) s.tmp
  · next prefs standIn hi =>
    rw [hi] at hsound
    have hact : (s.stage i).active = true := by rw [hi]; rfl
    split
    · next hok =>
      obtain rfl : ok = true := (Bool.and_eq_true_iff.mp hok).1
      simp only [Event.Clean, hi] at hc
      obtain ⟨q, x, hk, rfl, hx⟩ := hsound
      rw [hc.1]
      refine inv_stored h hk hact ?_
      cases standIn with
      | true =>
        rw [show x = JsMap.empty from hx]
        exact .inl (hc.2 rfl)
      | false => exact hx
    · exact inv_settle h hact s.tmp
  · exact h

theorem inv_step {e : Event τ} (hc : e.Clean finite kind s) : Inv finite kind first (step finite kind s e) := by
  cases e with
  | start i =>
    simp only [step]
    split
    · next hi hk =>
      refine inv_goto h rfl rfl rfl (by simp [hi]) trivial ?_ (fun _ _ hj => hj) (by simp)
      intro q hq
      rw [hk] at hq
      cases hq
    · next hi hk =>
      split
      · next hl =>
        refine inv_goto h rfl rfl rfl (by simp [hi]) trivial (fun _ _ _ => rfl) ?_ (by simp)
        intro j _ hj
        rw [hl] at hj
        cases hj
      · exact h
    · exact h
  | read i ok resolver now =>
    simp only [step]
    split
    · next hi => exact inv_read h hi ok resolver now
    · exact h
  | copy i ok =>
    have hsound := h.sound i
    simp only [step]
    split
    · next form v2 hi =>
      rw [hi] at hsound
      exact inv_goto h rfl rfl rfl (by simp [hi]) hsound (fun q hk _ => h.holder i q hk (by rw [hi]; rfl))
        (fun _ _ hj => hj) (by simp)
    · exact h
  | change i =>
    have hsound := h.sound i
    simp only [step]
    split
    · next prefs standIn q hi hk =>
      rw [hi] at hsound
      refine inv_goto h rfl rfl rfl (by simp [hi]) ?_ (fun q hq _ => h.holder i q hq (by rw [hi]; rfl))
        (fun _ _ hj => hj) (by simp)
      exact ⟨q, prefs, hk, rfl, hsound.2⟩
    · exact h
  | writeTmp i w => exact inv_writeTmp h i w
  | rename i ok => exact inv_rename h hc

end

end

/-! ## Runs -/

variable (finite : τ → Bool) (kind : ℕ → Kind τ) (first tmp : Content τ)

theorem inv_init : Inv finite kind first (init first tmp) where
  holder := nofun
  sound := fun _ => trivial
  accounted := .inl ⟨rfl, rfl⟩
  answered := nofun
  once := nodup_nil
  closed := nofun

/-- No request drops a record. -/
theorem run_keeps (q : Request τ) {s : Sessions τ} {k : JsString} (h : (s.get k).isSome) : ((q.run s).get k).isSome := by
  obtain ⟨resolver, w⟩ := q
  cases w with
  | delta d =>
    rw [Request.run, get_run]
    split
    · next hk =>
      rw [← hk]
      exact isSome_onRecord h d
    · exact h
  | archiveAll ps now =>
    simp only [Request.run, addArchivedPaths]
    refine Run.invariant_all (I := fun s : Sessions τ => (s.get k).isSome = true) ?_
      (Run.invariant_all (I := fun s : Sessions τ => (s.get k).isSome = true) ?_ h _) _
    · intro s key hs
      rw [get_autoUnpin]
      split
      · next hk => simpa [hk] using hs
      · exact hs
    · intro s p hs
      rw [get_setField]
      split
      · rfl
      · exact hs
  | patch v1 now =>
    rw [Request.run, get_mergePatch]
    cases (migrateV1ToV2 resolver now v1).get k with
    | none => exact h
    | some r => rfl

theorem replay_keeps (renamed : List ℕ) {x : Sessions τ} {k : JsString} (h : (x.get k).isSome) :
    ((replay kind x renamed).get k).isSome := by
  refine Run.invariant_all (I := fun x : Sessions τ => (x.get k).isSome = true) ?_ h _
  intro x i hx
  cases kind i with
  | reader => exact hx
  | writer q => exact run_keeps q hx

/-- Along every run of clean renames: the file is its first content or that content's
    records, all of them, under the stored requests, each once and in order, and a request
    that was answered is one of these. -/
theorem answered_is_stored (es : List (Event τ))
    (h : Run.Along (step finite kind) (fun s e => e.Clean finite kind s) (init first tmp) es) :
    let s := es.foldl (step finite kind) (init first tmp)
    Accounted finite kind first s.file s.renamed ∧
      (∀ x k, first.Yields x → (x.get k).isSome → ((replay kind x s.renamed).get k).isSome) ∧
      s.renamed.Nodup ∧ ∀ i q, kind i = .writer q → s.stage i = .settled true → i ∈ s.renamed := by
  have hinv : Inv finite kind first (es.foldl (step finite kind) (init first tmp)) :=
    Run.invariant (I := Inv finite kind first) (fun _ _ hs hc => inv_step hs hc) (inv_init finite kind first tmp) h
  exact ⟨hinv.accounted, fun _ _ _ hx => replay_keeps kind _ hx, hinv.once, hinv.answered⟩

/-! One writer, which pins a session at 9, and one reader. -/

def aKey : JsString := js "claude:s"

def aKind : ℕ → Kind ℕ
  | 0 => .writer ⟨fun _ => none, .delta ⟨.key aKey, .pin, 9⟩⟩
  | _ => .reader

def aForm : V1Preferences := { archivedSessionPaths := [js "t"] }

def migratingPin : List (Event ℕ) :=
  [.start 0, .read 0 true (fun _ => none) 5, .copy 0 false, .writeTmp 0 .ok, .rename 0 true, .change 0, .writeTmp 0 .ok,
    .rename 0 true]

theorem a_pin_of_a_v1_file : (0 : ℕ) ∈ (migratingPin.foldl (step (fun _ => true) aKind) (init (.v1 aForm) .absent)).renamed := by
  refine (answered_is_stored (fun _ => true) aKind (.v1 aForm) .absent migratingPin ?_).2.2.2 0 _ rfl (by decide)
  exact ⟨trivial, trivial, trivial, trivial, ⟨rfl, fun _ => rfl⟩, trivial, trivial, ⟨rfl, nofun⟩, trivial⟩

def lateReader : List (Event ℕ) :=
  [.start 1, .read 1 true (fun _ => none) 4, .copy 1 true] ++ migratingPin ++ [.writeTmp 1 .ok, .rename 1 true]

def pinOverInvalid : List (Event ℕ) :=
  [.start 0, .read 0 true (fun _ => none) 5, .change 0, .writeTmp 0 .ok, .rename 0 true]

def invalidFile : Content ℕ := .bad (JsMap.empty.set (js "pi:x") { archived := true })

/-- A reader that read the v1 form renames its migration after the pin was answered; and a
    pin that found an invalid file stores a map without its record. -/
theorem a_pin_is_lost_and_a_record_dropped :
    ((lateReader.foldl (step (fun _ => true) aKind) (init (.v1 aForm) .absent)).stage 0 = .settled true ∧
      ∃ m, (lateReader.foldl (step (fun _ => true) aKind) (init (.v1 aForm) .absent)).file = .v2 m ∧ m.get aKey = none) ∧
    (pinOverInvalid.foldl (step (fun _ => true) aKind) (init invalidFile .absent)).stage 0 = .settled true ∧
      ∃ m, (pinOverInvalid.foldl (step (fun _ => true) aKind) (init invalidFile .absent)).file = .v2 m ∧
        m.get (js "pi:x") = none :=
  ⟨⟨by decide, migrateV1ToV2 (fun _ => none) 4 aForm, by decide, by decide⟩, by decide,
    JsMap.empty.set aKey { pinned := true, updatedAt := some 9, legacyKey := some aKey }, by decide, by decide⟩

end PiWebUi.Preferences.PrefsFile
