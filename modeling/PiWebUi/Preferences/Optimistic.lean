/-
  PiWebUi.Preferences.Optimistic — the client's record of a session while its changes are
  under way (client/src/store/sessionStore.ts).

  An action writes the client's record at once, sends a delta and keeps the record it
  found as a snapshot. The server applies the deltas in the order they reach it, a retry
  perhaps more than once; the client learns that a delta succeeded, or gives it up and
  writes its snapshot back, whole. So a failed change takes with it what was made after
  it: `a_rollback_takes_the_name` pins, renames, and loses the name the server keeps.
-/

import PiWebUi.Preferences.Convergence
import PiWebUi.Lib.Run

namespace PiWebUi.Preferences.Optimistic

open PiWebUi.Lib PiWebUi.Preferences List

variable {τ : Type} [LinearOrder τ]

/-! ## The client -/

/-- `capped`: the pins of the session's runtime are used up. -/
inductive Action
  | archiveSession
  | unarchiveSession
  | pinSession (capped : Bool)
  | unpinSession
  | setSessionDisplayName (displayName : JsString)
  | removeSessionDisplayName
  deriving DecidableEq

/-- The delta an action sends; pinning what is pinned and unpinning what is not send none. -/
def Action.delta (p : Option (SessionMeta τ)) : Action → Option Change
  | .archiveSession => some .archive
  | .unarchiveSession => some .unarchive
  | .pinSession capped => if (p.getD {}).pinned || capped then none else some .pin
  | .unpinSession => if (p.getD {}).pinned then some .unpin else none
  | .setSessionDisplayName displayName => some (.rename (some displayName))
  | .removeSessionDisplayName => some (.rename none)

/-- The optimistic write (`commitMeta`). -/
def Action.commit (p : Option (SessionMeta τ)) (sessionPath : JsString) (now : τ) : Action → Option (SessionMeta τ)
  | .archiveSession =>
    some { p.getD {} with archived := true, pinned := false, updatedAt := some now, legacyKey := some sessionPath }
  | .unarchiveSession =>
    p.map fun r => { r with archived := false, updatedAt := some now, legacyKey := some sessionPath }
  | .pinSession capped =>
    if (p.getD {}).pinned || capped then p
    else some { p.getD {} with pinned := true, updatedAt := some now, legacyKey := some sessionPath }
  | .unpinSession =>
    p.map fun r => { r with pinned := false, updatedAt := some now, legacyKey := some sessionPath }
  | .setSessionDisplayName displayName =>
    some { p.getD {} with displayName := some displayName, updatedAt := some now, legacyKey := some sessionPath }
  | .removeSessionDisplayName =>
    p.map fun r => { r with displayName := none, updatedAt := some now, legacyKey := some sessionPath }

/-- A change that was not rolled back. -/
structure Entry (τ : Type) where
  change : Change
  now : τ
  prev : Option (SessionMeta τ)
  delivered : Bool := false
  settled : Bool := false
  deriving DecidableEq

/-- `onFinalFailure`: the snapshot, or what the action assumes was there. -/
def Entry.rollback (sessionPath : JsString) (e : Entry τ) : Option (SessionMeta τ) :=
  match e.prev, e.change with
  | some r, _ => some { r with legacyKey := some (r.legacyKey.getD sessionPath) }
  | none, .unarchive => some { archived := true, updatedAt := some e.now, legacyKey := some sessionPath }
  | none, .unpin => some { pinned := true, updatedAt := some e.now, legacyKey := some sessionPath }
  | none, _ => none

/-! ## Client and server -/

/-- `log` has the changes in the order they were made. -/
structure St (τ : Type) where
  client : Option (SessionMeta τ)
  server : Sessions τ
  log : List (Entry τ)

/-- `deliver i`: an attempt of the `i`-th change reaches the server. `succeed i`: its answer
    reaches the client, after a delivery. `fail i`: the client gives it up. -/
inductive Step (τ : Type)
  | act (a : Action) (now : τ)
  | deliver (i : ℕ)
  | succeed (i : ℕ)
  | fail (i : ℕ)

section

variable (resolver : JsString → Option JsString) (sessionPath : JsString)

def Entry.delta (e : Entry τ) : Delta τ := ⟨.path sessionPath, e.change, e.now⟩

def serverRecord (s : St τ) : Option (SessionMeta τ) := s.server.get (pathToKey resolver sessionPath)

def step (s : St τ) : Step τ → St τ
  | .act a now =>
    { s with
      client := a.commit s.client sessionPath now
      log := s.log ++ ((a.delta s.client).map fun c => (⟨c, now, s.client, false, false⟩ : Entry τ)).toList }
  | .deliver i =>
    match s.log[i]? with
    | some e =>
      if e.settled then s
      else { s with server := (e.delta sessionPath).run resolver s.server, log := s.log.set i { e with delivered := true } }
    | none => s
  | .succeed i =>
    match s.log[i]? with
    | some e => if e.delivered && !e.settled then { s with log := s.log.set i { e with settled := true } } else s
    | none => s
  | .fail i =>
    match s.log[i]? with
    | some e => if e.settled then s else { s with client := e.rollback sessionPath, log := s.log.eraseIdx i }
    | none => s

/-- A change the server has not seen and would apply. -/
def Entry.pendingOn (stored : Option (SessionMeta τ)) (e : Entry τ) : Bool :=
  !e.delivered && (e.delta sessionPath).applies stored

def pending (stored : Option (SessionMeta τ)) (l : List (Entry τ)) : List (Entry τ) :=
  l.filter (Entry.pendingOn sessionPath stored)

/-- The steps that keep the client's record the server's with the pending changes on top.
    An action is not older than the server's record or a pending change, and names what
    the server would. A delta overtakes a pending one only where it assigns all the older
    one does, or, of the same instant, nothing of it; delivered again, it finds its values
    still there, or is refused. A change that is given up never reached the server, and
    nothing was made since. -/
def Step.Orderly (s : St τ) : Step τ → Prop
  | .act a now =>
    ∀ c, a.delta s.client = some c →
      newest (serverRecord resolver sessionPath s) ≤ now ∧
      (∀ e ∈ pending sessionPath (serverRecord resolver sessionPath s) s.log, e.now ≤ now) ∧
      ∀ n, c = .rename (some n) → trimmedName (some n) = some n
  | .deliver i =>
    ∀ e, s.log[i]? = some e → e.settled = false → (e.delta sessionPath).applies (serverRecord resolver sessionPath s) = true →
      if e.delivered then
        ∀ f v, e.change.assigns f = some v → valueOf (serverRecord resolver sessionPath s) f = v
      else
        ∀ d ∈ pending sessionPath (serverRecord resolver sessionPath s) (s.log.take i), ∀ f, (d.change.assigns f).isSome →
          ((e.change.assigns f).isSome ↔ d.now < e.now)
  | .succeed _ => True
  | .fail i => ∀ e, s.log[i]? = some e → e.settled = false → e.delivered = false ∧ i + 1 = s.log.length

end

/-! ## Changes on top of a record -/

/-- The value of a field after the changes of `l`, `x` before. -/
def overlay (f : Field) (x : f.Val) (l : List (Entry τ)) : f.Val := l.foldl (fun x e => (e.change.assigns f).getD x) x

section

omit [LinearOrder τ]

theorem overlay_append (f : Field) (x : f.Val) (l m : List (Entry τ)) : overlay f x (l ++ m) = overlay f (overlay f x l) m :=
  foldl_append ..

theorem overlay_filter {f : Field} (keep : Entry τ → Bool) {l : List (Entry τ)}
    (h : ∀ e ∈ l, keep e = false → e.change.assigns f = none) (x : f.Val) : overlay f x (l.filter keep) = overlay f x l := by
  induction l generalizing x with
  | nil => rfl
  | cons e l ih =>
    have ihl := ih fun d hd => h d (mem_cons_of_mem e hd)
    cases hk : keep e with
    | true =>
      rw [filter_cons_of_pos hk]
      exact ihl _
    | false =>
      rw [filter_cons_of_neg (by simp [hk]), ihl, overlay, overlay, foldl_cons,
        h e (mem_cons_self ..) hk]
      rfl

theorem overlay_of_none {f : Field} {l : List (Entry τ)} (h : ∀ e ∈ l, e.change.assigns f = none) (x : f.Val) :
    overlay f x l = x := by
  have hnil : l.filter (fun _ => false) = [] := filter_eq_nil_iff.mpr fun _ _ => by simp
  rw [← overlay_filter (fun _ => false) fun e he _ => h e he, hnil]
  rfl

end

/-- A change overtaking `l`, which keeps the changes of its own instant only. -/
theorem overlay_overtake {f : Field} {l : List (Entry τ)} {e : Entry τ}
    (h : ∀ d ∈ l, (d.change.assigns f).isSome → ((e.change.assigns f).isSome ↔ d.now < e.now)) (x : f.Val) :
    overlay f ((e.change.assigns f).getD x) (l.filter fun d => e.now ≤ d.now) = overlay f x (l ++ [e]) := by
  rw [overlay_append]
  cases he : e.change.assigns f with
  | none =>
    rw [overlay_filter]
    · simp [overlay, he]
    · intro d hd hlt
      by_contra hs
      have hiff := h d hd (Option.isSome_iff_ne_none.mpr hs)
      rw [he] at hiff
      have hlt' : d.now < e.now := by simpa using hlt
      exact absurd (hiff.mpr hlt') (by simp)
  | some v =>
    rw [overlay_of_none]
    · simp [overlay, he]
    · intro d hd
      obtain ⟨hd, hge⟩ := mem_filter.mp hd
      by_contra hs
      have hiff := h d hd (Option.isSome_iff_ne_none.mpr hs)
      have hlt : d.now < e.now := hiff.mp (by rw [he]; rfl)
      exact absurd hlt (not_lt.mpr (of_decide_eq_true hge))

/-! ## The invariant -/

section

variable {resolver : JsString → Option JsString} {sessionPath : JsString} {e : Entry τ} {a b : List (Entry τ)} {s : St τ}

/-- The client shows the server's record with the pending changes on top, and each snapshot
    that no delivered change follows shows what was pending before its change. -/
structure Inv (resolver : JsString → Option JsString) (sessionPath : JsString) (s : St τ) : Prop where
  known : (serverRecord resolver sessionPath s).isSome
  client_some : s.client.isSome
  prevs : ∀ e ∈ s.log, e.prev.isSome
  seen : ∀ e ∈ s.log, e.delivered = true → (e.now : WithBot τ) ≤ newest (serverRecord resolver sessionPath s)
  settled : ∀ e ∈ s.log, e.settled = true → e.delivered = true
  sorted : (pending sessionPath (serverRecord resolver sessionPath s) s.log).Pairwise (·.now ≤ ·.now)
  shown : ∀ f, valueOf s.client f =
    overlay f (valueOf (serverRecord resolver sessionPath s) f) (pending sessionPath (serverRecord resolver sessionPath s) s.log)
  snapshots : ∀ a e b, s.log = a ++ e :: b → (∀ d ∈ e :: b, d.delivered = false) → ∀ f,
    valueOf e.prev f =
      overlay f (valueOf (serverRecord resolver sessionPath s) f) (pending sessionPath (serverRecord resolver sessionPath s) a)

theorem pendingOn_iff {stored : Option (SessionMeta τ)} (h : stored.isSome) :
    e.pendingOn sessionPath stored = true ↔ e.delivered = false ∧ newest stored ≤ e.now := by
  rw [Entry.pendingOn, Bool.and_eq_true, Bool.not_eq_true', applies_iff]
  simp only [h, true_or, true_and]
  exact Iff.rfl

theorem pending_append (stored : Option (SessionMeta τ)) (l m : List (Entry τ)) :
    pending sessionPath stored (l ++ m) = pending sessionPath stored l ++ pending sessionPath stored m :=
  filter_append ..

section

variable {stored : Option (SessionMeta τ)}

theorem pending_cons_neg (h : e.pendingOn sessionPath stored = false)
    (l : List (Entry τ)) : pending sessionPath stored (e :: l) = pending sessionPath stored l :=
  filter_cons_of_neg (by simp [h])

theorem pending_cons_pos (h : e.pendingOn sessionPath stored = true)
    (l : List (Entry τ)) : pending sessionPath stored (e :: l) = e :: pending sessionPath stored l :=
  filter_cons_of_pos h

theorem not_pending_of_delivered (h : e.delivered = true) : e.pendingOn sessionPath stored = false := by
  simp [Entry.pendingOn, h]

end

/-- Of the pending changes, a write of the instant `t` leaves those that are not older. -/
theorem pending_after {stored stored' : Option (SessionMeta τ)} {t : τ} (h : stored.isSome) (h' : stored'.isSome)
    (hle : newest stored ≤ t) (ht : newest stored' = t) (l : List (Entry τ)) :
    pending sessionPath stored' l = (pending sessionPath stored l).filter fun d => t ≤ d.now := by
  rw [pending, pending, filter_filter]
  refine filter_congr fun d _ => ?_
  rw [Bool.eq_iff_iff, Bool.and_eq_true, pendingOn_iff h, pendingOn_iff h', ht, decide_eq_true_eq]
  constructor
  · rintro ⟨hd, htd⟩
    exact ⟨WithBot.coe_le_coe.mp htd, hd, hle.trans htd⟩
  · rintro ⟨htd, hd, -⟩
    exact ⟨hd, WithBot.coe_le_coe.mpr htd⟩

omit [LinearOrder τ] in
/-- A stretch of undelivered changes at the end lies behind a delivered one. -/
theorem suffix_behind {a b a₁ b₁ : List (Entry τ)} {e e₁ : Entry τ} (h : a ++ e :: b = a₁ ++ e₁ :: b₁)
    (he : e.delivered = true) (hu : ∀ d ∈ e₁ :: b₁, d.delivered = false) : ∃ c, a₁ = a ++ e :: c ∧ b = c ++ e₁ :: b₁ := by
  have hne : e ∉ e₁ :: b₁ := fun hm => by
    rw [hu e hm] at he
    cases he
  rcases append_eq_append_iff.mp h with ⟨a', rfl, hb⟩ | ⟨c', -, hb⟩
  · cases a' with
    | nil =>
      rw [nil_append] at hb
      exact absurd (hb ▸ mem_cons_self ..) hne
    | cons d c =>
      obtain ⟨rfl, rfl⟩ := List.cons.inj hb
      exact ⟨c, rfl, rfl⟩
  · exact absurd (hb ▸ mem_append_right c' (mem_cons_self ..)) hne

/-- Marking a change that is not pending, the server's record as it was. -/
theorem inv_mark {s s' : St τ} (h : Inv resolver sessionPath s) (e' : Entry τ)
    (hlog : s.log = a ++ e :: b) (hnot : e.pendingOn sessionPath (serverRecord resolver sessionPath s) = false)
    (hprev : e'.prev = e.prev) (hd : e'.delivered = true)
    (hseen : (e'.now : WithBot τ) ≤ newest (serverRecord resolver sessionPath s)) (hc : s'.client = s.client)
    (hrec : serverRecord resolver sessionPath s' = serverRecord resolver sessionPath s) (hlog' : s'.log = a ++ e' :: b) :
    Inv resolver sessionPath s' := by
  have hmem : ∀ d ∈ s'.log, d = e' ∨ d ∈ s.log := by
    intro d hd'
    rw [hlog', mem_append, mem_cons] at hd'
    rw [hlog, mem_append, mem_cons]
    tauto
  have hpend : ∀ l m : List (Entry τ), pending sessionPath (serverRecord resolver sessionPath s) (l ++ e' :: m) =
      pending sessionPath (serverRecord resolver sessionPath s) (l ++ e :: m) := by
    intro l m
    rw [pending_append, pending_append, pending_cons_neg (not_pending_of_delivered hd), pending_cons_neg hnot]
  constructor
  · rw [hrec]
    exact h.known
  · rw [hc]
    exact h.client_some
  · intro d hd'
    rcases hmem d hd' with rfl | hds
    · rw [hprev]
      exact h.prevs e (hlog ▸ mem_append_right a (mem_cons_self ..))
    · exact h.prevs d hds
  · intro d hd' hdel
    rw [hrec]
    rcases hmem d hd' with rfl | hds
    · exact hseen
    · exact h.seen d hds hdel
  · intro d hd' hset
    rcases hmem d hd' with rfl | hds
    · exact hd
    · exact h.settled d hds hset
  · rw [hrec, hlog', hpend, ← hlog]
    exact h.sorted
  · intro f
    rw [hc, hrec, hlog', hpend, ← hlog]
    exact h.shown f
  · intro a₁ e₁ b₁ hsplit hu f
    obtain ⟨c, rfl, rfl⟩ := suffix_behind (hlog' ▸ hsplit) hd hu
    rw [hrec, hpend]
    exact h.snapshots (a ++ e :: c) e₁ b₁ (by rw [hlog, append_assoc, List.cons_append]) hu f

/-! ## Deliveries -/

theorem serverRecord_deliver {log : List (Entry τ)} :
    serverRecord resolver sessionPath { s with server := (e.delta sessionPath).run resolver s.server, log } =
      (e.delta sessionPath).onRecord (serverRecord resolver sessionPath s) := by
  show ((e.delta sessionPath).run resolver s.server).get (pathToKey resolver sessionPath) = _
  have hk : (e.delta sessionPath).key resolver = pathToKey resolver sessionPath := rfl
  rw [get_run, hk, if_pos rfl]
  rfl

section

variable (h : Inv resolver sessionPath s)
include h

theorem inv_deliver_refused
    (hlog : s.log = a ++ e :: b) (hr : (e.delta sessionPath).applies (serverRecord resolver sessionPath s) = false) :
    Inv resolver sessionPath { s with
      server := (e.delta sessionPath).run resolver s.server, log := a ++ { e with delivered := true } :: b } := by
  refine inv_mark h { e with delivered := true } hlog ?_ rfl rfl ?_ rfl ?_ rfl
  · simp [Entry.pendingOn, hr]
  · by_contra hlt
    have hle : newest (serverRecord resolver sessionPath s) ≤ e.now := (not_le.mp hlt).le
    have happ : (e.delta sessionPath).applies (serverRecord resolver sessionPath s) = true :=
      applies_iff.mpr ⟨.inl h.known, hle⟩
    rw [hr] at happ
    cases happ
  · rw [serverRecord_deliver]
    exact record_stamped.refuses _ _ hr

/-- Delivered again while nothing newer came: the record has its values and its instant. -/
theorem inv_deliver_again (he : e ∈ s.log)
    (hd : e.delivered = true) (ha : (e.delta sessionPath).applies (serverRecord resolver sessionPath s) = true)
    (hsame : ∀ f v, e.change.assigns f = some v → valueOf (serverRecord resolver sessionPath s) f = v) :
    Inv resolver sessionPath { s with server := (e.delta sessionPath).run resolver s.server } := by
  have hrec := @serverRecord_deliver _ _ resolver sessionPath e s s.log
  have hval : ∀ f, valueOf ((e.delta sessionPath).onRecord (serverRecord resolver sessionPath s)) f =
      valueOf (serverRecord resolver sessionPath s) f := by
    intro f
    have hf := record_assigns f _ _ ha
    simp only at hf
    rw [hf]
    cases hv : e.change.assigns f with
    | none => simp [Entry.delta, hv]
    | some v =>
      rw [hsame f v hv]
      simp [Entry.delta, hv]
  have hnow : newest (serverRecord resolver sessionPath s) = e.now :=
    le_antisymm (applies_iff.mp ha).2 (h.seen e he hd)
  have hnew : newest ((e.delta sessionPath).onRecord (serverRecord resolver sessionPath s)) =
      newest (serverRecord resolver sessionPath s) := by
    rw [hnow]
    exact record_stamped.stamps _ _ ha
  have hknown : ((e.delta sessionPath).onRecord (serverRecord resolver sessionPath s)).isSome := by
    rw [Delta.onRecord, Change.onRecord, if_pos]
    · rfl
    · exact ha
  have hpend : ∀ l, pending sessionPath ((e.delta sessionPath).onRecord (serverRecord resolver sessionPath s)) l =
      pending sessionPath (serverRecord resolver sessionPath s) l := by
    intro l
    refine filter_congr fun d _ => ?_
    rw [Bool.eq_iff_iff, pendingOn_iff h.known, pendingOn_iff hknown, hnew]
  constructor
  · rw [hrec]
    exact hknown
  · exact h.client_some
  · exact h.prevs
  · rw [hrec, hnew]
    exact h.seen
  · exact h.settled
  · rw [hrec, hpend]
    exact h.sorted
  · intro f
    rw [hrec, hval, hpend]
    exact h.shown f
  · intro a d b hlog hu f
    rw [hrec, hval, hpend]
    exact h.snapshots a d b hlog hu f

theorem inv_deliver_first (hlog : s.log = a ++ e :: b) (hd : e.delivered = false)
    (ha : (e.delta sessionPath).applies (serverRecord resolver sessionPath s) = true)
    (hover : ∀ d ∈ pending sessionPath (serverRecord resolver sessionPath s) a, ∀ f, (d.change.assigns f).isSome →
      ((e.change.assigns f).isSome ↔ d.now < e.now)) :
    Inv resolver sessionPath { s with
      server := (e.delta sessionPath).run resolver s.server, log := a ++ { e with delivered := true } :: b } := by
  have hrec := @serverRecord_deliver _ _ resolver sessionPath e s (a ++ { e with delivered := true } :: b)
  have hval : ∀ f, valueOf ((e.delta sessionPath).onRecord (serverRecord resolver sessionPath s)) f =
      (e.change.assigns f).getD (valueOf (serverRecord resolver sessionPath s) f) := fun f => record_assigns f _ _ ha
  have hle : newest (serverRecord resolver sessionPath s) ≤ e.now := (applies_iff.mp ha).2
  have hnew : newest ((e.delta sessionPath).onRecord (serverRecord resolver sessionPath s)) = e.now :=
    record_stamped.stamps _ _ ha
  have hknown : ((e.delta sessionPath).onRecord (serverRecord resolver sessionPath s)).isSome := by
    rw [Delta.onRecord, Change.onRecord, if_pos]
    · rfl
    · exact ha
  have hpend := @pending_after _ _ sessionPath _ _ _ h.known hknown hle hnew
  have hpe : e.pendingOn sessionPath (serverRecord resolver sessionPath s) = true :=
    (pendingOn_iff h.known).mpr ⟨hd, hle⟩
  have hmarked : Entry.pendingOn sessionPath ((e.delta sessionPath).onRecord (serverRecord resolver sessionPath s))
      { e with delivered := true } = false := not_pending_of_delivered rfl
  have hsplit : pending sessionPath (serverRecord resolver sessionPath s) s.log =
      pending sessionPath (serverRecord resolver sessionPath s) a ++
        e :: pending sessionPath (serverRecord resolver sessionPath s) b := by
    rw [hlog, pending_append, pending_cons_pos hpe]
  have hsorted := h.sorted
  rw [hsplit, pairwise_append, pairwise_cons] at hsorted
  have hmem : ∀ d ∈ a ++ { e with delivered := true } :: b, d = { e with delivered := true } ∨ d ∈ s.log := by
    intro d hd'
    rw [mem_append, mem_cons] at hd'
    rw [hlog, mem_append, mem_cons]
    tauto
  -- what follows the change is not older than it, so nothing of it is lost
  have hafter : ∀ c, (∀ d ∈ c, d ∈ b) →
      pending sessionPath ((e.delta sessionPath).onRecord (serverRecord resolver sessionPath s)) c =
        pending sessionPath (serverRecord resolver sessionPath s) c := by
    intro c hc
    rw [hpend]
    refine filter_eq_self.mpr fun d hd' => decide_eq_true ?_
    obtain ⟨hdc, hdp⟩ := mem_filter.mp hd'
    exact hsorted.2.1.1 d (mem_filter.mpr ⟨hc d hdc, hdp⟩)
  -- the change moves from the top of `a` into the record
  have hmove : ∀ c, (∀ d ∈ c, d ∈ b) → ∀ f,
      overlay f (valueOf ((e.delta sessionPath).onRecord (serverRecord resolver sessionPath s)) f)
        (pending sessionPath ((e.delta sessionPath).onRecord (serverRecord resolver sessionPath s))
          (a ++ { e with delivered := true } :: c)) =
      overlay f (valueOf (serverRecord resolver sessionPath s) f)
        (pending sessionPath (serverRecord resolver sessionPath s) (a ++ e :: c)) := by
    intro c hc f
    rw [pending_append, pending_cons_neg hmarked, hafter c hc, hpend, hval, overlay_append,
      overlay_overtake fun d hd' => hover d hd' f, ← overlay_append, append_assoc, singleton_append,
      ← pending_cons_pos hpe, ← pending_append]
  constructor
  · rw [hrec]
    exact hknown
  · exact h.client_some
  · intro d hd'
    rcases hmem d hd' with rfl | hds
    · exact h.prevs e (hlog ▸ mem_append_right a (mem_cons_self ..))
    · exact h.prevs d hds
  · intro d hd' hdel
    rw [hrec, hnew]
    rcases hmem d hd' with rfl | hds
    · exact le_refl _
    · exact (h.seen d hds hdel).trans hle
  · intro d hd' hset
    rcases hmem d hd' with rfl | hds
    · rfl
    · exact h.settled d hds hset
  · rw [hrec, pending_append, pending_cons_neg hmarked, hafter b fun _ hb => hb, hpend, pairwise_append]
    refine ⟨hsorted.1.filter _, hsorted.2.1.2, ?_⟩
    intro x hx y hy
    exact hsorted.2.2 x (mem_of_mem_filter hx) y (mem_cons_of_mem e hy)
  · intro f
    rw [hrec, hmove b (fun _ hb => hb) f, ← hlog]
    exact h.shown f
  · intro a₁ e₁ b₁ heq hu f
    obtain ⟨c, rfl, rfl⟩ := suffix_behind heq rfl hu
    rw [hrec, hmove c (fun _ hc => mem_append_left _ hc) f]
    exact h.snapshots (a ++ e :: c) e₁ b₁ (by rw [hlog, append_assoc, List.cons_append]) hu f

end

/-! ## Actions and answers -/

omit [LinearOrder τ] in
theorem commit_isSome {p : Option (SessionMeta τ)} (hp : p.isSome) (a : Action) (now : τ) :
    (a.commit p sessionPath now).isSome := by
  cases a with
  | pinSession capped =>
    simp only [Action.commit]
    split
    · exact hp
    · rfl
  | _ => simp [Action.commit, hp]

omit [LinearOrder τ] in
theorem commit_silent {p : Option (SessionMeta τ)} (a : Action) (now : τ) (h : a.delta p = none)
    (f : Field) : valueOf (a.commit p sessionPath now) f = valueOf p f := by
  cases a with
  | pinSession capped =>
    simp only [Action.delta] at h
    split at h
    · next hc => rw [Action.commit, if_pos hc]
    · cases h
  | unpinSession =>
    simp only [Action.delta] at h
    split at h
    · cases h
    · next hp =>
      cases p with
      | none => rfl
      | some r =>
        have hp' : r.pinned = false := by simpa using hp
        cases f with
        | pinned => exact hp'.symm
        | _ => rfl
  | _ => cases h

omit [LinearOrder τ] in
/-- An action shows what its delta assigns. -/
theorem commit_shows {p : Option (SessionMeta τ)} (hp : p.isSome) (a : Action) (now : τ) {c : Change}
    (h : a.delta p = some c) (hname : ∀ n, c = .rename (some n) → trimmedName (some n) = some n) (f : Field) :
    valueOf (a.commit p sessionPath now) f = (c.assigns f).getD (valueOf p f) := by
  obtain ⟨r, rfl⟩ := Option.isSome_iff_exists.mp hp
  cases a with
  | archiveSession | unarchiveSession | removeSessionDisplayName =>
    obtain rfl := Option.some.inj h
    cases f <;> rfl
  | pinSession capped =>
    simp only [Action.delta] at h
    split at h
    · cases h
    · next hc =>
      obtain rfl := Option.some.inj h
      rw [Action.commit, if_neg hc]
      cases f <;> rfl
  | unpinSession =>
    simp only [Action.delta] at h
    split at h
    · obtain rfl := Option.some.inj h
      cases f <;> rfl
    · cases h
  | setSessionDisplayName displayName =>
    obtain rfl := Option.some.inj h
    cases f with
    | displayName => exact (hname displayName rfl).symm
    | _ => rfl

theorem inv_act (h : Inv resolver sessionPath s) {a : Action} {now : τ}
    (ho : (Step.act a now).Orderly resolver sessionPath s) : Inv resolver sessionPath (step resolver sessionPath s (.act a now)) := by
  have hrec : serverRecord resolver sessionPath (step resolver sessionPath s (.act a now)) =
      serverRecord resolver sessionPath s := rfl
  cases hd : a.delta s.client with
  | none =>
    have hlog : (step resolver sessionPath s (.act a now)).log = s.log := by simp [step, hd]
    refine ⟨h.known, commit_isSome h.client_some a now, ?_, ?_, ?_, ?_, ?_, ?_⟩
    · rw [hlog]
      exact h.prevs
    · rw [hlog]
      exact h.seen
    · rw [hlog]
      exact h.settled
    · rw [hlog]
      exact h.sorted
    · intro f
      rw [hlog, hrec, ← h.shown f]
      exact commit_silent a now hd f
    · rw [hlog]
      exact h.snapshots
  | some c =>
    obtain ⟨hfresh, hnewest, hname⟩ := ho c hd
    have hlog : (step resolver sessionPath s (.act a now)).log = s.log ++ [⟨c, now, s.client, false, false⟩] := by
      simp [step, hd]
    have hpend : pending sessionPath (serverRecord resolver sessionPath s) (s.log ++ [⟨c, now, s.client, false, false⟩]) =
        pending sessionPath (serverRecord resolver sessionPath s) s.log ++ [⟨c, now, s.client, false, false⟩] := by
      rw [pending_append, pending_cons_pos ((pendingOn_iff h.known).mpr ⟨rfl, hfresh⟩)]
      rfl
    have hmem : ∀ e ∈ s.log ++ [(⟨c, now, s.client, false, false⟩ : Entry τ)],
        e ∈ s.log ∨ e = ⟨c, now, s.client, false, false⟩ := by simp
    refine ⟨h.known, commit_isSome h.client_some a now, ?_, ?_, ?_, ?_, ?_, ?_⟩
    · rw [hlog]
      intro e he
      rcases hmem e he with he | rfl
      · exact h.prevs e he
      · exact h.client_some
    · rw [hlog]
      intro e he hdel
      rcases hmem e he with he | rfl
      · exact h.seen e he hdel
      · cases hdel
    · rw [hlog]
      intro e he hset
      rcases hmem e he with he | rfl
      · exact h.settled e he hset
      · cases hset
    · rw [hlog, hrec, hpend, pairwise_append]
      refine ⟨h.sorted, pairwise_singleton .., ?_⟩
      intro x hx y hy
      rw [mem_singleton.mp hy]
      exact hnewest x hx
    · intro f
      rw [hlog, hrec, hpend, overlay_append, ← h.shown f]
      exact commit_shows h.client_some a now hd hname f
    · intro a₁ e₁ b₁ heq hu f
      rw [hlog] at heq
      rcases append_eq_append_iff.mp heq with ⟨l, rfl, hl⟩ | ⟨l, hs, hl⟩
      · cases l with
        | nil =>
          obtain ⟨rfl, -⟩ := List.cons.inj hl
          rw [append_nil]
          exact h.shown f
        | cons x l => simp at hl
      · cases l with
        | nil =>
          obtain ⟨rfl, -⟩ := List.cons.inj hl
          rw [append_nil] at hs
          rw [← hs]
          exact h.shown f
        | cons x l =>
          obtain ⟨rfl, rfl⟩ := List.cons.inj hl
          refine h.snapshots a₁ e₁ l hs (fun d hd' => hu d ?_) f
          rcases mem_cons.mp hd' with rfl | hdl
          · exact mem_cons_self ..
          · exact mem_cons_of_mem e₁ (mem_append_left _ hdl)

theorem inv_fail (h : Inv resolver sessionPath s) {a : List (Entry τ)} (hlog : s.log = a ++ [e])
    (hd : e.delivered = false) : Inv resolver sessionPath { s with client := e.rollback sessionPath, log := a } := by
  have hsub : ∀ d ∈ a, d ∈ s.log := fun d hda => hlog ▸ mem_append_left [e] hda
  obtain ⟨r, hr⟩ := Option.isSome_iff_exists.mp (h.prevs e (hlog ▸ mem_append_right a (mem_singleton_self e)))
  have hback : ∀ f, valueOf (e.rollback sessionPath) f = valueOf e.prev f := by
    intro f
    rw [Entry.rollback, hr]
    cases f <;> rfl
  refine ⟨h.known, ?_, fun d hda => h.prevs d (hsub d hda), fun d hda => h.seen d (hsub d hda),
    fun d hda => h.settled d (hsub d hda), ?_, ?_, ?_⟩
  · rw [Entry.rollback, hr]
    rfl
  · have hsorted := h.sorted
    rw [hlog, pending_append, pairwise_append] at hsorted
    exact hsorted.1
  · intro f
    rw [hback]
    exact h.snapshots a e [] hlog (by simpa using hd) f
  · intro a₁ e₁ b₁ heq hu f
    refine h.snapshots a₁ e₁ (b₁ ++ [e]) ?_ ?_ f
    · rw [hlog, show a = a₁ ++ e₁ :: b₁ from heq, append_assoc, List.cons_append]
    · intro d hd'
      rw [← List.cons_append, mem_append] at hd'
      rcases hd' with hd' | hd'
      · exact hu d hd'
      · rw [mem_singleton.mp hd']
        exact hd

omit [LinearOrder τ] in
theorem log_split {i : ℕ} (h : s.log[i]? = some e) :
    s.log = s.log.take i ++ e :: s.log.drop (i + 1) ∧ ∀ e', s.log.set i e' = s.log.take i ++ e' :: s.log.drop (i + 1) := by
  obtain ⟨hi, rfl⟩ := List.getElem?_eq_some_iff.mp h
  refine ⟨?_, fun e' => by rw [set_eq_take_append_cons_drop, if_pos hi]⟩
  rw [← drop_eq_getElem_cons hi, take_append_drop]

/-- An orderly step keeps the invariant. -/
theorem inv_step (h : Inv resolver sessionPath s) {w : Step τ} (ho : w.Orderly resolver sessionPath s) :
    Inv resolver sessionPath (step resolver sessionPath s w) := by
  cases w with
  | act a now => exact inv_act h ho
  | deliver i =>
    simp only [step]
    split
    · next e he =>
      obtain ⟨hlog, hset⟩ := log_split he
      split
      · exact h
      · next hns =>
        have hns' : e.settled = false := by simpa using hns
        cases ha : (e.delta sessionPath).applies (serverRecord resolver sessionPath s) with
        | false =>
          rw [hset]
          exact inv_deliver_refused h hlog ha
        | true =>
          have hcond := ho e he hns' ha
          cases hd : e.delivered with
          | true =>
            rw [if_pos hd] at hcond
            have hself : s.log.set i { e with delivered := true } = s.log := by
              rw [hset, ← hd]
              exact hlog.symm
            rw [hself]
            exact inv_deliver_again h (mem_of_getElem? he) hd ha hcond
          | false =>
            rw [if_neg (by simp [hd])] at hcond
            rw [hset]
            exact inv_deliver_first h hlog hd ha hcond
    · exact h
  | succeed i =>
    simp only [step]
    split
    · next e he =>
      obtain ⟨hlog, hset⟩ := log_split he
      split
      · next hds =>
        have hd : e.delivered = true := (Bool.and_eq_true_iff.mp hds).1
        refine inv_mark h { e with settled := true } hlog (not_pending_of_delivered hd) rfl hd ?_ rfl rfl (hset _)
        exact h.seen e (mem_of_getElem? he) hd
      · exact h
    · exact h
  | fail i =>
    simp only [step]
    split
    · next e he =>
      split
      · exact h
      · next hns =>
        obtain ⟨hd, hi⟩ := ho e he (by simpa using hns)
        obtain ⟨hlog, -⟩ := log_split he
        have hdrop : s.log.drop (i + 1) = [] := drop_eq_nil_of_le (by omega)
        have herase : s.log.eraseIdx i = s.log.take i := by
          rw [eraseIdx_eq_take_drop_succ, hdrop, append_nil]
        rw [hdrop] at hlog
        rw [herase]
        exact inv_fail h hlog hd
    · exact h

end

/-! ## Runs -/

variable (resolver : JsString → Option JsString) (sessionPath : JsString)

/-- Both sides have the record `r` of the session; the map has other records too. -/
structure Known (r : SessionMeta τ) (s : St τ) : Prop where
  client : s.client = some r
  server : serverRecord resolver sessionPath s = some r
  log : s.log = []

theorem inv_known {r : SessionMeta τ} (h : Known resolver sessionPath r s) : Inv resolver sessionPath s := by
  obtain ⟨hc, hs, hl⟩ := h
  have hnil : ∀ e, e ∉ s.log := by simp [hl]
  refine ⟨by simp [hs], by simp [hc], fun e he => absurd he (hnil e), fun e he => absurd he (hnil e),
    fun e he => absurd he (hnil e), ?_, ?_, ?_⟩
  · rw [hl]
    exact List.Pairwise.nil
  · intro f
    rw [hc, hs, hl]
    rfl
  · intro a e b heq
    rw [hl] at heq
    simp at heq

/-- Along every run of orderly steps from a record both sides know, when all changes have
    settled the client's record has the server's values. -/
theorem optimistic_converges {r : SessionMeta τ} {s : St τ} (hs : Known resolver sessionPath r s) (ws : List (Step τ))
    (h : Run.Along (step resolver sessionPath) (fun s w => w.Orderly resolver sessionPath s) s ws)
    (hall : ∀ e ∈ (ws.foldl (step resolver sessionPath) s).log, e.settled = true) (f : Field) :
    valueOf (ws.foldl (step resolver sessionPath) s).client f =
      valueOf (serverRecord resolver sessionPath (ws.foldl (step resolver sessionPath) s)) f := by
  have hinv : Inv resolver sessionPath (ws.foldl (step resolver sessionPath) s) :=
    Run.invariant (I := Inv resolver sessionPath) (fun _ _ hi ho => inv_step hi ho) (inv_known resolver sessionPath hs) h
  have hnone : pending sessionPath (serverRecord resolver sessionPath (ws.foldl (step resolver sessionPath) s))
      (ws.foldl (step resolver sessionPath) s).log = [] := by
    refine filter_eq_nil_iff.mpr fun e he => ?_
    simp [not_pending_of_delivered (hinv.settled e he (hall e he))]
  rw [hinv.shown f, hnone]
  rfl

/-! A session last written at 0, on both sides. -/

def thePath : JsString := js "s"

def noRuntime : JsString → Option JsString := fun _ => none

def bothKnow : St ℕ :=
  ⟨some { updatedAt := some 0 }, JsMap.empty.set (pathToKey noRuntime thePath) { updatedAt := some 0 }, []⟩

/-- Renamed at 1, archived at 2; the archive never arrives and is given up. -/
def orderlyRun : List (Step ℕ) :=
  [.act (.setSessionDisplayName (js "n")) 1, .deliver 0, .act .archiveSession 2, .fail 1, .succeed 0]

theorem both_have_the_name : valueOf (orderlyRun.foldl (step noRuntime thePath) bothKnow).client .displayName =
      valueOf (serverRecord noRuntime thePath (orderlyRun.foldl (step noRuntime thePath) bothKnow)) .displayName := by
  refine optimistic_converges noRuntime thePath (r := { updatedAt := some 0 }) ⟨rfl, by decide, rfl⟩ orderlyRun ?_ (by decide) _
  refine ⟨?_, ?_, ?_, ?_, trivial, trivial⟩
  · rintro c ⟨⟩
    refine ⟨by decide, by decide, ?_⟩
    rintro n ⟨⟩
    decide
  · rintro e he - -
    obtain rfl := Option.some.inj he
    rw [if_neg (by decide)]
    intro d hd
    cases hd
  · rintro c ⟨⟩
    exact ⟨by decide, by decide, nofun⟩
  · rintro e he -
    obtain rfl := Option.some.inj he
    decide

/-- Pinned at 1, renamed at 2: the rename succeeds, then the pin is given up. -/
theorem a_rollback_takes_the_name :
    let s := [Step.act (.pinSession false) 1, .act (.setSessionDisplayName (js "n")) 2, .deliver 1, .succeed 1, .fail 0].foldl
      (step noRuntime thePath) bothKnow
    Known noRuntime thePath { updatedAt := some 0 } bothKnow ∧ (∀ e ∈ s.log, e.settled = true) ∧
      s.client.map (·.displayName) = some none ∧
      (serverRecord noRuntime thePath s).map (·.displayName) = some (some (js "n")) :=
  ⟨⟨rfl, by decide, rfl⟩, by decide, by decide, by decide⟩

end PiWebUi.Preferences.Optimistic
