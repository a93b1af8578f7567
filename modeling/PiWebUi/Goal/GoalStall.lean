/-
  PiWebUi.Goal.GoalStall — the monitor of stalled goals (`createGoalStallMonitor`,
  goal-stall.ts).

  `observe` tracks the keys whose goal runs and when each was last active. A sweep takes
  the tracked keys in turn; for one that is past the threshold it asks `resolve`, and
  decides on the answer after the wait, when `observe`, `forget` and other sweeps may have
  moved the entry. The keys of a sweep are visited one by one, with other calls between
  any two of them: `resolve` and `publish` call out of the module.
-/

import PiWebUi.NormalizedEvent
import PiWebUi.Lib.JsMap
import PiWebUi.Lib.Run

namespace PiWebUi.Goal.GoalStall

open Lib List Option

abbrev Key := JsString

structure Tracked where
  lastActivityAt : ℕ
  stalledEmitted : Bool
  deriving DecidableEq

/-- The projection by its fields. -/
structure GoalStallResolution where
  busy : Bool
  projection : Option (List (JsString × Json))

/-- How a call of `resolve` ends. -/
inductive Answer where
  | thrown
  | resolved (r : Option GoalStallResolution)

/-- The keys a sweep has yet to visit, and the one it awaits the answer about. -/
structure Sweep where
  keys : List Key
  awaiting : Option Key

structure Monitor where
  now : ℕ
  tracked : JsMap Key Tracked
  sweeps : List Sweep
  published : List (Key × NormalizedEvent)

def running : Option Json := some (.str (js "running"))

/-! ## `observe`, `forget` -/

def isGoalEvent (eventType : JsString) : Bool := eventType = js "goal_state" || eventType = js "goal_end"

/-- The monitor's own stall event is not activity. -/
def isOwn (eventType : JsString) (data : Option Json) : Bool :=
  isGoalEvent eventType && member data (js "stalled") = some (.bool true)

def saysRunning (eventType : JsString) (data : Option Json) : Bool :=
  eventType = js "goal_state" && member data (js "status") = running

def touch (key : Key) (m : Monitor) : Monitor :=
  match m.tracked.get key with
  | some entry => { m with tracked := m.tracked.set key { entry with lastActivityAt := m.now, stalledEmitted := false } }
  | none => m

def observe (key : Key) (eventType : JsString) (data : Option Json) (m : Monitor) : Monitor :=
  if isGoalEvent eventType then
    if isOwn eventType data then m
    else if saysRunning eventType data then { m with tracked := m.tracked.set key ⟨m.now, false⟩ }
    else { m with tracked := m.tracked.delete key }
  else touch key m

def forget (key : Key) (m : Monitor) : Monitor := { m with tracked := m.tracked.delete key }

/-! ## `sweepOnce` -/

section Sweep

variable (thresholdMs : ℚ)

def sweepOnce (m : Monitor) : Monitor := { m with sweeps := m.sweeps ++ [⟨m.tracked.keys, none⟩] }

def idleMs (m : Monitor) (entry : Tracked) : ℚ := m.now - entry.lastActivityAt

/-- The gate before the re-read. -/
def needsResolve (m : Monitor) (key : Key) : Bool :=
  match m.tracked.get key with
  | none => false
  | some before => before.stalledEmitted || !decide (idleMs m before < thresholdMs)

/-- Sweep `i` takes its next key. -/
def visit (i : ℕ) (m : Monitor) : Monitor :=
  match m.sweeps[i]? with
  | some ⟨key :: keys, none⟩ =>
    { m with sweeps := m.sweeps.set i ⟨keys, if needsResolve thresholdMs m key then some key else none⟩ }
  | _ => m

/-- What the sweep does about an answer. -/
inductive Verdict where
  | skip
  | drop
  | active
  | stalled (projection : List (JsString × Json)) (idle : ℚ)
  deriving DecidableEq

def verdict (m : Monitor) (key : Key) : Answer → Verdict
  | .thrown => .skip
  | .resolved none => .drop
  | .resolved (some resolved) =>
    match resolved.projection with
    | none => .drop
    | some projection =>
      if (Json.obj projection).get (js "status") = running then
        match m.tracked.get key with
        | none => .skip
        | some current =>
          if resolved.busy then .active
          else if current.stalledEmitted || decide (idleMs m current < thresholdMs) then .skip
          else .stalled projection (idleMs m current)
      else .drop

def stalledEvent (now : ℕ) (projection : List (JsString × Json)) (idle : ℚ) : NormalizedEvent where
  type := js "goal_state"
  timestamp := .fin now
  data := some (.obj (Json.setField (Json.setField projection (js "stalled") (.bool true)) (js "stalledForMs")
    (.num (.fin idle))))

def emitStalled (key : Key) (projection : List (JsString × Json)) (idle : ℚ) (m : Monitor) : Monitor :=
  match m.tracked.get key with
  | some current =>
    { m with
      tracked := m.tracked.set key { current with stalledEmitted := true }
      published := m.published ++ [(key, stalledEvent m.now projection idle)] }
  | none => m

def act (key : Key) (m : Monitor) : Verdict → Monitor
  | .skip => m
  | .drop => { m with tracked := m.tracked.delete key }
  | .active => touch key m
  | .stalled projection idle => emitStalled key projection idle m

/-- The key sweep `i` awaits. -/
def awaited (m : Monitor) (i : ℕ) : Option Key := m.sweeps[i]?.bind (·.awaiting)

/-- The answer sweep `i` awaits arrives. -/
def answer (i : ℕ) (a : Answer) (m : Monitor) : Monitor :=
  match awaited m i with
  | some key => act key { m with sweeps := m.sweeps.modify i fun s => { s with awaiting := none } } (verdict thresholdMs m key a)
  | none => m

inductive Op where
  | observe (key : Key) (eventType : JsString) (data : Option Json)
  | forget (key : Key)
  | sweepOnce
  | visit (i : ℕ)
  | answer (i : ℕ) (a : Answer)
  | wait (ms : ℕ)

def step (m : Monitor) : Op → Monitor
  | .observe key eventType data => observe key eventType data m
  | .forget key => forget key m
  | .sweepOnce => sweepOnce m
  | .visit i => visit thresholdMs i m
  | .answer i a => answer thresholdMs i a m
  | .wait ms => { m with now := m.now + ms }

end Sweep

def createGoalStallMonitor (now : ℕ) : Monitor := ⟨now, .empty, [], []⟩

/-! ## Watched runs -/

inductive Kind where
  | activity
  | stall
  deriving DecidableEq

/-- An activity the monitor saw, or a stall it published. -/
structure Entry where
  kind : Kind
  key : Key
  time : ℕ

structure Watched where
  monitor : Monitor
  log : List Entry
  /-- The key's last goal event said `running`, and the key was not forgotten after it. -/
  told : Key → Bool

section Watch

variable (thresholdMs : ℚ)

def notedBy (now : ℕ) (key : Key) : Verdict → List Entry
  | .active => [⟨.activity, key, now⟩]
  | .stalled _ _ => [⟨.stall, key, now⟩]
  | _ => []

def noted (m : Monitor) : Op → List Entry
  | .observe key eventType data => if isOwn eventType data then [] else [⟨.activity, key, m.now⟩]
  | .answer i a =>
    match awaited m i with
    | some key => notedBy m.now key (verdict thresholdMs m key a)
    | none => []
  | _ => []

def tells : Op → Option (Key × Bool)
  | .observe key eventType data =>
    if isGoalEvent eventType && !isOwn eventType data then some (key, saysRunning eventType data) else none
  | .forget key => some (key, false)
  | _ => none

def toldAfter (told : Key → Bool) (op : Op) : Key → Bool :=
  match tells op with
  | some (key, b) => Function.update told key b
  | none => told

def watch (w : Watched) (op : Op) : Watched where
  monitor := step thresholdMs w.monitor op
  log := w.log ++ noted thresholdMs w.monitor op
  told := toldAfter w.told op

def started (now : ℕ) : Watched := ⟨createGoalStallMonitor now, [], fun _ => false⟩

end Watch

def about (key : Key) (log : List Entry) : List Entry := log.filter (·.key = key)

/-- No activity of the key in the `thresholdMs` before a stall of it. -/
def Quiet (thresholdMs : ℚ) (a b : Entry) : Prop := a.kind = .activity → b.kind = .stall → (a.time : ℚ) + thresholdMs ≤ b.time

def stalls (log : List Entry) : List Entry := log.filter (·.kind = .stall)

/-- Not both of them stalls. -/
def Apart (a b : Entry) : Prop := ¬ (a.kind = .stall ∧ b.kind = .stall)

/-- The stalls of a key: each after a quiet time, no two without an activity between. -/
structure Honest (thresholdMs : ℚ) (log : List Entry) : Prop where
  quiet : ∀ key, (about key log).Pairwise (Quiet thresholdMs)
  once : ∀ key, (about key log).IsChain Apart

/-- Every key told to run is tracked. -/
def Covers (w : Watched) : Prop := ∀ key, w.told key = true → w.monitor.tracked.has key = true

/-- The answer says that the session or its goal is gone. -/
def saysOver : Answer → Bool
  | .thrown => false
  | .resolved none => true
  | .resolved (some resolved) =>
    match resolved.projection with
    | none => true
    | some projection => (Json.obj projection).get (js "status") ≠ running

/-- No answer says so of a key whose last goal event said `running`. -/
def Timely (w : Watched) : Op → Prop
  | .answer i a => ∀ key, awaited w.monitor i = some key → saysOver a = true → w.told key = false
  | _ => True

/-! ## The log is honest -/

/-- A tracked entry as the log has it. -/
structure Logged (log : List Entry) (key : Key) (entry : Tracked) : Prop where
  latest : ∀ x ∈ about key log, x.kind = .activity → x.time ≤ entry.lastActivityAt
  armed : entry.stalledEmitted = false → ∀ x ∈ (about key log).getLast?, x.kind = .activity

/-- The stalls of the log are the events published. -/
def Reported (w : Watched) : Prop :=
  w.monitor.published.map (fun p => (p.1, p.2.timestamp)) = (stalls w.log).map fun x => (x.key, JsNumber.fin x.time)

structure Inv (thresholdMs : ℚ) (w : Watched) : Prop where
  reported : Reported w
  entries : ∀ key entry, w.monitor.tracked.get key = some entry → Logged w.log key entry
  past : ∀ x ∈ w.log, x.time ≤ w.monitor.now
  honest : Honest thresholdMs w.log

theorem about_append (key : Key) (log more : List Entry) : about key (log ++ more) = about key log ++ about key more :=
  filter_append ..

theorem about_self (kind : Kind) (key : Key) (now : ℕ) : about key [⟨kind, key, now⟩] = [⟨kind, key, now⟩] := by
  simp [about]

variable {key : Key} {m : Monitor} {w : Watched}

theorem about_other {kind : Kind} {other : Key} {now : ℕ} (h : other ≠ key) : about key [⟨kind, other, now⟩] = [] := by
  simp [about, h]

theorem Logged.other {log : List Entry} {other : Key} {entry : Tracked} (h : Logged log key entry) (hne : other ≠ key)
    (kind : Kind) (now : ℕ) : Logged (log ++ [⟨kind, other, now⟩]) key entry := by
  have hsame : about key (log ++ [⟨kind, other, now⟩]) = about key log := by
    rw [about_append, about_other hne, append_nil]
  exact ⟨by rw [hsame]; exact h.latest, by rw [hsame]; exact h.armed⟩

variable {thresholdMs : ℚ}

theorem Honest.activity {log : List Entry} (h : Honest thresholdMs log) (key : Key) (now : ℕ) :
    Honest thresholdMs (log ++ [⟨.activity, key, now⟩]) := by
  constructor
  · intro k
    rw [about_append]
    by_cases hk : key = k
    · subst hk
      rw [about_self, pairwise_append]
      refine ⟨h.quiet key, pairwise_singleton _ _, fun a _ b hb _ hstall => ?_⟩
      rw [mem_singleton] at hb
      rw [hb] at hstall
      cases hstall
    · rw [about_other hk, append_nil]
      exact h.quiet k
  · intro k
    rw [about_append]
    by_cases hk : key = k
    · subst hk
      rw [about_self, isChain_append]
      refine ⟨h.once key, isChain_singleton _, fun a _ b hb hboth => ?_⟩
      simp only [head?_cons, mem_def, some.injEq] at hb
      rw [← hb] at hboth
      cases hboth.2
    · rw [about_other hk, append_nil]
      exact h.once k

theorem Honest.stall {log : List Entry} (h : Honest thresholdMs log) {entry : Tracked} (hl : Logged log key entry)
    (harmed : entry.stalledEmitted = false) {now : ℕ} (hidle : ¬ (now - entry.lastActivityAt : ℚ) < thresholdMs) :
    Honest thresholdMs (log ++ [⟨.stall, key, now⟩]) := by
  constructor
  · intro k
    rw [about_append]
    by_cases hk : key = k
    · subst hk
      rw [about_self, pairwise_append]
      refine ⟨h.quiet key, pairwise_singleton _ _, fun a ha b hb hact _ => ?_⟩
      rw [mem_singleton] at hb
      subst hb
      have hlast : (a.time : ℚ) ≤ entry.lastActivityAt := by exact_mod_cast hl.latest a ha hact
      show (a.time : ℚ) + thresholdMs ≤ now
      linarith
    · rw [about_other hk, append_nil]
      exact h.quiet k
  · intro k
    rw [about_append]
    by_cases hk : key = k
    · subst hk
      rw [about_self, isChain_append]
      refine ⟨h.once key, isChain_singleton _, fun a ha b _ hboth => ?_⟩
      have hactivity := hl.armed harmed a ha
      rw [hboth.1] at hactivity
      cases hactivity
    · rw [about_other hk, append_nil]
      exact h.once k

section

variable (h : Inv thresholdMs w) (told : Key → Bool)
include h told

/-- Nothing is logged, and the entries left are as they were. -/
theorem Inv.fewer (hnow : w.monitor.now ≤ m.now) (hpublished : m.published = w.monitor.published)
    (htracked : ∀ key entry, m.tracked.get key = some entry → w.monitor.tracked.get key = some entry) :
    Inv thresholdMs ⟨m, w.log ++ [], told⟩ := by
  rw [append_nil]
  have hreported : Reported ⟨m, w.log, told⟩ := by
    rw [Reported, hpublished]
    exact h.reported
  exact ⟨hreported, fun key entry hget => h.entries key entry (htracked key entry hget), fun x hx => (h.past x hx).trans hnow, h.honest⟩

/-- The key was active: its entry, if it has one, starts again. -/
theorem Inv.active (hnow : m.now = w.monitor.now) (hpublished : m.published = w.monitor.published)
    (htracked : ∀ k entry, m.tracked.get k = some entry →
      k = key ∧ entry = ⟨w.monitor.now, false⟩ ∨ k ≠ key ∧ w.monitor.tracked.get k = some entry) :
    Inv thresholdMs ⟨m, w.log ++ [⟨.activity, key, w.monitor.now⟩], told⟩ := by
  have hpast : ∀ x ∈ w.log ++ [⟨.activity, key, w.monitor.now⟩], x.time ≤ w.monitor.now := by
    intro x hx
    rcases mem_append.mp hx with hx | hx
    · exact h.past x hx
    · rw [mem_singleton.mp hx]
  have hreported : Reported ⟨m, w.log ++ [⟨.activity, key, w.monitor.now⟩], told⟩ := by
    rw [Reported, hpublished, stalls, filter_append]
    simpa [Reported, stalls] using h.reported
  refine ⟨hreported, fun k entry hget => ?_, by rw [hnow]; exact hpast, h.honest.activity key w.monitor.now⟩
  rcases htracked k entry hget with ⟨rfl, rfl⟩ | ⟨hk, hget⟩
  · refine ⟨fun x hx _ => hpast x (mem_of_mem_filter hx), fun _ x hx => ?_⟩
    rw [about_append, about_self, getLast?_append, getLast?_singleton, some_or, mem_some_iff] at hx
    rw [← hx]
  · exact (h.entries k entry hget).other (Ne.symm hk) .activity w.monitor.now

theorem Inv.touch (key : Key) (hnow : m.now = w.monitor.now) (hpublished : m.published = w.monitor.published)
    (hsame : m.tracked = w.monitor.tracked) : Inv thresholdMs ⟨touch key m, w.log ++ [⟨.activity, key, w.monitor.now⟩], told⟩ := by
  unfold GoalStall.touch
  rw [hsame, hnow]
  cases hget : w.monitor.tracked.get key with
  | none =>
    dsimp only
    refine h.active told hnow hpublished fun k entry hk => .inr ⟨?_, hsame ▸ hk⟩
    rintro rfl
    rw [hsame, hget] at hk
    cases hk
  | some entry =>
    dsimp only
    exact h.active told rfl hpublished fun _ _ => JsMap.get_set_eq_some.mp

end

theorem Inv.stalled (h : Inv thresholdMs w) (told : Key → Bool) {current : Tracked}
    (hget : w.monitor.tracked.get key = some current) (harmed : current.stalledEmitted = false)
    (hidle : ¬ idleMs w.monitor current < thresholdMs) (hnow : m.now = w.monitor.now)
    {projection : List (JsString × Json)} {idle : ℚ}
    (hpublished : m.published = w.monitor.published ++ [(key, stalledEvent w.monitor.now projection idle)])
    (htracked : m.tracked = w.monitor.tracked.set key { current with stalledEmitted := true }) :
    Inv thresholdMs ⟨m, w.log ++ [⟨.stall, key, w.monitor.now⟩], told⟩ := by
  have hlogged := h.entries key current hget
  have hreported : Reported ⟨m, w.log ++ [⟨.stall, key, w.monitor.now⟩], told⟩ := by
    have hbefore := h.reported
    unfold Reported stalls at hbefore ⊢
    rw [hpublished, map_append, filter_append, map_append, hbefore]
    rfl
  refine ⟨hreported, fun k entry hk => ?_, fun x hx => ?_, h.honest.stall hlogged harmed hidle⟩
  · have hk' : (w.monitor.tracked.set key { current with stalledEmitted := true }).get k = some entry := htracked ▸ hk
    obtain ⟨rfl, rfl⟩ | ⟨hkey, hk'⟩ := JsMap.get_set_eq_some.mp hk'
    · refine ⟨fun x hx hact => ?_, nofun⟩
      rw [about_append, about_self] at hx
      rcases mem_append.mp hx with hx | hx
      · exact hlogged.latest x hx hact
      · rw [mem_singleton.mp hx] at hact
        cases hact
    · exact (h.entries k entry hk').other (Ne.symm hkey) .stall w.monitor.now
  · rw [hnow]
    rcases mem_append.mp hx with hx | hx
    · exact h.past x hx
    · rw [mem_singleton.mp hx]

theorem inv_observe (h : Inv thresholdMs w) (key : Key) (eventType : JsString) (data : Option Json) :
    Inv thresholdMs (watch thresholdMs w (.observe key eventType data)) := by
  show Inv thresholdMs ⟨observe key eventType data w.monitor,
    w.log ++ if isOwn eventType data then [] else [⟨.activity, key, w.monitor.now⟩], _⟩
  unfold observe
  by_cases hown : isOwn eventType data = true
  · have hgoal : isGoalEvent eventType = true := (Bool.and_eq_true_iff.mp hown).1
    rw [if_pos hgoal, if_pos hown, if_pos hown]
    exact h.fewer _ (le_refl _) rfl fun _ _ hget => hget
  rw [if_neg hown, if_neg hown]
  by_cases hgoal : isGoalEvent eventType = true
  · rw [if_pos hgoal]
    by_cases hrun : saysRunning eventType data = true
    · rw [if_pos hrun]
      exact h.active _ rfl rfl fun _ _ => JsMap.get_set_eq_some.mp
    · rw [if_neg hrun]
      exact h.active _ rfl rfl fun _ _ hk => .inr (JsMap.get_delete_eq_some.mp hk)
  · rw [if_neg hgoal]
    exact h.touch _ key rfl rfl rfl

/-- A verdict of a stall comes from an entry that is armed and idle. -/
theorem verdict_stalled {a : Answer} {projection : List (JsString × Json)} {idle : ℚ}
    (h : verdict thresholdMs m key a = .stalled projection idle) :
    ∃ current, m.tracked.get key = some current ∧ current.stalledEmitted = false ∧ ¬ idleMs m current < thresholdMs := by
  cases a with
  | thrown => cases h
  | resolved r =>
    cases r with
    | none => cases h
    | some resolved =>
      simp only [verdict] at h
      split at h
      · cases h
      split at h
      · split at h
        · cases h
        next current hget =>
        split at h
        · cases h
        split at h
        · cases h
        next hcond =>
        rw [Bool.or_eq_true, not_or, decide_eq_true_eq, Bool.not_eq_true] at hcond
        exact ⟨current, hget, hcond.1, hcond.2⟩
      · cases h

theorem inv_answer (h : Inv thresholdMs w) (i : ℕ) (a : Answer) : Inv thresholdMs (watch thresholdMs w (.answer i a)) := by
  show Inv thresholdMs ⟨answer thresholdMs i a w.monitor, w.log ++ noted thresholdMs w.monitor (.answer i a), w.told⟩
  simp only [answer, noted]
  cases hawait : awaited w.monitor i with
  | none => exact h.fewer _ (le_refl _) rfl fun _ _ hget => hget
  | some key =>
    dsimp only
    cases hv : verdict thresholdMs w.monitor key a with
    | skip => exact h.fewer _ (le_refl _) rfl fun _ _ hget => hget
    | drop => exact h.fewer _ (le_refl _) rfl fun _ _ hget => (JsMap.get_delete_eq_some.mp hget).2
    | active => exact h.touch _ key rfl rfl rfl
    | stalled projection idle =>
      obtain ⟨current, hget, harmed, hidle⟩ := verdict_stalled hv
      simp only [act, emitStalled, hget, notedBy]
      exact h.stalled _ hget harmed hidle rfl rfl rfl

theorem inv_step (w : Watched) (op : Op) (h : Inv thresholdMs w) : Inv thresholdMs (watch thresholdMs w op) := by
  cases op with
  | observe key eventType data => exact inv_observe h key eventType data
  | forget key => exact h.fewer _ (le_refl _) rfl fun _ _ hget => (JsMap.get_delete_eq_some.mp hget).2
  | sweepOnce => exact h.fewer _ (le_refl _) rfl fun _ _ hget => hget
  | visit i =>
    have hsame : (visit thresholdMs i w.monitor).now = w.monitor.now ∧
        (visit thresholdMs i w.monitor).published = w.monitor.published ∧
        (visit thresholdMs i w.monitor).tracked = w.monitor.tracked := by
      unfold visit
      split <;> exact ⟨rfl, rfl, rfl⟩
    exact h.fewer _ hsame.1.ge hsame.2.1 fun key entry hget => hsame.2.2 ▸ hget
  | answer i a => exact inv_answer h i a
  | wait ms => exact h.fewer _ (Nat.le_add_right _ _) rfl fun _ _ hget => hget

theorem inv_started (now : ℕ) : Inv thresholdMs (started now) := by
  refine ⟨rfl, nofun, nofun, ?_⟩
  exact ⟨fun _ => List.Pairwise.nil, fun _ => isChain_nil⟩

/-! ## What stays tracked -/

theorem has_touch (key k : Key) (m : Monitor) : (touch key m).tracked.has k = m.tracked.has k := by
  unfold touch
  cases hget : m.tracked.get key with
  | none => rfl
  | some entry =>
    rw [Bool.eq_iff_iff, JsMap.has_set]
    constructor
    · rintro (rfl | hk)
      · rw [JsMap.has_iff_get, hget]
        rfl
      · exact hk
    · exact .inr

/-- An operation that judges nothing tracks what it tells to run. -/
theorem covers_observe (h : Covers w) (key : Key) (eventType : JsString) (data : Option Json) :
    Covers (watch thresholdMs w (.observe key eventType data)) := by
  intro k
  show toldAfter w.told (.observe key eventType data) k = true → (observe key eventType data w.monitor).tracked.has k = true
  simp only [toldAfter, tells, observe]
  by_cases hgoal : isGoalEvent eventType = true
  · rw [if_pos hgoal, hgoal, Bool.true_and]
    by_cases hown : isOwn eventType data = true
    · rw [if_pos hown, hown, if_neg (by decide)]
      exact h k
    rw [if_neg hown, Bool.eq_false_iff.mpr hown, if_pos (by decide)]
    by_cases hkey : k = key
    · subst hkey
      dsimp only
      rw [Function.update_self]
      intro hrun
      rw [if_pos hrun]
      exact (JsMap.has_set _ _ _ _).mpr (.inl rfl)
    · dsimp only
      rw [Function.update_of_ne hkey]
      intro htold
      split
      · exact (JsMap.has_set _ _ _ _).mpr (.inr (h k htold))
      · exact (JsMap.has_delete _ _ _).mpr ⟨hkey, h k htold⟩
  · rw [if_neg hgoal, Bool.eq_false_iff.mpr hgoal, Bool.false_and, if_neg (by decide), has_touch]
    exact h k

theorem verdict_drop {a : Answer} : verdict thresholdMs m key a = .drop ↔ saysOver a = true := by
  cases a with
  | thrown => exact iff_of_false nofun nofun
  | resolved r =>
    cases r with
    | none => exact iff_of_true rfl rfl
    | some resolved =>
      simp only [verdict, saysOver]
      cases resolved.projection with
      | none => exact iff_of_true rfl rfl
      | some projection =>
        dsimp only
        by_cases hrun : (Json.obj projection).get (js "status") = running
        · rw [if_pos hrun]
          refine iff_of_false (fun h => ?_) (by simp [hrun])
          cases hget : m.tracked.get key with
          | none =>
            rw [hget] at h
            cases h
          | some current =>
            rw [hget] at h
            dsimp only at h
            split at h
            · cases h
            split at h <;> cases h
        · rw [if_neg hrun]
          exact iff_of_true rfl (by simp [hrun])

theorem covers_answer (h : Covers w) (i : ℕ) (a : Answer) :
    Covers (watch thresholdMs w (.answer i a)) ↔ Timely w (.answer i a) := by
  have hout : Covers (watch thresholdMs w (.answer i a)) ↔
      ∀ k, w.told k = true → (answer thresholdMs i a w.monitor).tracked.has k = true := Iff.rfl
  rw [hout]
  simp only [answer, Timely]
  cases hawait : awaited w.monitor i with
  | none => exact iff_of_true h (fun _ h => by cases h)
  | some key =>
    have hspared : verdict thresholdMs w.monitor key a ≠ .drop →
        ∀ k, some key = some k → saysOver a = true → w.told k = false :=
      fun hv _ _ hover => absurd (verdict_drop.mpr hover) hv
    dsimp only
    cases hv : verdict thresholdMs w.monitor key a with
    | skip => exact iff_of_true h (hspared (by simp [hv]))
    | active => exact iff_of_true (fun k htold => (has_touch key k _).trans (h k htold)) (hspared (by simp [hv]))
    | drop =>
      constructor
      · rintro hcovers k ⟨⟩ _
        rw [← Bool.not_eq_true]
        intro htold
        exact ((JsMap.has_delete _ _ _).mp (hcovers key htold)).1 rfl
      · intro htimely k htold
        refine (JsMap.has_delete _ _ _).mpr ⟨?_, h k htold⟩
        rintro rfl
        rw [htimely k rfl (verdict_drop.mp hv)] at htold
        cases htold
    | stalled projection idle =>
      obtain ⟨current, hget, -⟩ := verdict_stalled hv
      simp only [act, emitStalled, hget]
      exact iff_of_true (fun k htold => (JsMap.has_set _ _ _ _).mpr (.inr (h k htold))) (hspared (by simp [hv]))

/-- Step lemma: from a state that covers every told key, a step does so again exactly when
    it is timely. -/
theorem covers_step (h : Covers w) (op : Op) : Covers (watch thresholdMs w op) ↔ Timely w op := by
  cases op with
  | answer i a => exact covers_answer h i a
  | observe key eventType data => exact iff_of_true (covers_observe h key eventType data) trivial
  | forget key =>
    refine iff_of_true (fun k htold => ?_) trivial
    have htold' : Function.update w.told key false k = true := htold
    by_cases hk : k = key
    · rw [hk, Function.update_self] at htold'
      cases htold'
    · rw [Function.update_of_ne hk] at htold'
      exact (JsMap.has_delete _ _ _).mpr ⟨hk, h k htold'⟩
  | sweepOnce | wait ms => exact iff_of_true h trivial
  | visit i =>
    refine iff_of_true (fun k htold => ?_) trivial
    have hsame : (visit thresholdMs i w.monitor).tracked = w.monitor.tracked := by
      unfold visit
      split <;> rfl
    show (visit thresholdMs i w.monitor).tracked.has k = true
    rw [hsame]
    exact h k htold

theorem covers_started (now : ℕ) : Covers (started now) := nofun

/-- Every run's stalls are honest, and published as such; every told key is tracked throughout exactly when no
    answer comes late. -/
theorem stalls_monitored (thresholdMs : ℚ) (now : ℕ) (ops : List Op) : let w := ops.foldl (watch thresholdMs) (started now)
    Reported w ∧ Honest thresholdMs w.log ∧
      ((∀ done, done <+: ops → Covers (done.foldl (watch thresholdMs) (started now))) ↔
        Run.Along (watch thresholdMs) Timely (started now) ops) := by
  intro w
  have hinv : Inv thresholdMs w := Run.invariant_all inv_step (inv_started now) ops
  refine ⟨hinv.reported, hinv.honest, ?_⟩
  rw [← Run.along_after_iff (covers_started now)]
  exact Run.along_iff_of_invariant (I := Covers) (fun w op h htimely => (covers_step h op).mpr htimely)
    (fun w op h => covers_step h op) (covers_started now)

/-! ## A goal that started meanwhile -/

def goalState (status : JsString) : Option Json := some (.obj [(js "status", .str status)])

/-- A goal goes quiet, a sweep asks about it, and it ends before the answer. -/
def endedInFlight : List Op :=
  [.observe (js "s") (js "goal_state") (goalState (js "running")), .wait 600000, .sweepOnce, .visit 0,
    .observe (js "s") (js "goal_end") (goalState (js "achieved"))]

/-- The next goal of the session starts, and then the answer comes: the goal has ended. -/
def restarted : List Op :=
  [.observe (js "s") (js "goal_state") (goalState (js "running")),
    .answer 0 (.resolved (some ⟨false, some [(js "status", .str (js "achieved"))]⟩))]

/-- The answer was true when the goal had ended, but it drops the goal that runs. -/
theorem restarted_goal_is_dropped : (endedInFlight.foldl (watch 600000) (started 0)).told (js "s") = false ∧
      ¬ Covers ((endedInFlight ++ restarted).foldl (watch 600000) (started 0)) := by
  refine ⟨by decide +kernel, fun h => ?_⟩
  have hdropped : ((endedInFlight ++ restarted).foldl (watch 600000) (started 0)).monitor.tracked.has (js "s") = false := by
    decide +kernel
  rw [h (js "s") (by decide +kernel)] at hdropped
  cases hdropped

end PiWebUi.Goal.GoalStall
