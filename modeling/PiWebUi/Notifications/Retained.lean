/-
  PiWebUi.Notifications.Retained — notifications are conserved.

  A notification whose `enqueue` resolved is in exactly one of the outbox and the log until
  the cap takes it, now and after a crash; one that was in the log's file is never pending
  again; what happens to one leaves the others as they are; and no two retained ones have
  one idempotency key (`notifications_conserved`). The steps that break this are those that `Careful`
  excludes, and each is a run at the end of the module.
-/

import Mathlib.Data.List.Perm.Subperm
import PiWebUi.Notifications.NotificationStore

namespace PiWebUi.Notifications

open PiWebUi.Lib List Option

def StoreOp.moves : StoreOp → Option ℕ
  | .terminal _ item _ _ => some item.id
  | _ => none

def StoreOp.adds : StoreOp → Option ℕ
  | .enqueue item => some item.id
  | _ => none

/-- The notification the call is about. -/
def StoreOp.target : StoreOp → ℕ
  | .enqueue item | .terminal _ item _ _ => item.id
  | .cleanUp id | .retry id => id
  | .action _ previous _ => previous.id

def StoreOp.objects : StoreOp → List QueuedNotification
  | .enqueue item => [item]
  | .terminal _ item logEntry priorLog => item :: logEntry :: priorLog
  | .cleanUp _ | .retry _ => []
  | .action _ previous updated => [previous, updated]

/-- What the call works with is of one notification. -/
def StoreOp.Alike : StoreOp → Prop
  | .terminal _ item logEntry priorLog => logEntry.id = item.id ∧ item.id ∉ ids priorLog
  | .action _ previous updated => previous.id = updated.id
  | _ => True

namespace NotificationStore

/-! ## What is claimed -/

def keyOf (s : NotificationStore) (id : ℕ) : Option JsString := s.created[id]?.bind fun c => c.2.map (·.keyHash)

structure Conserved (s : NotificationStore) : Prop where
  once : ∀ id ∈ s.resolved, id ∉ s.evicted → (ids s.outbox ++ ids s.log).count id = 1
  terminal : ∀ id ∈ s.logged, id ∉ ids s.outbox
  keys : ∀ x ∈ s.outbox ++ s.log, ∀ y ∈ s.outbox ++ s.log, x.keyHash ≠ none → x.keyHash = y.keyHash →
    x.id ∉ s.evicted → y.id ∉ s.evicted → x.id = y.id

/-- What the next process has, whether it writes its outbox or not. -/
def AfterRestart (s : NotificationStore) (P : NotificationStore → Prop) : Prop := ∀ persisted, P (s.init true true persisted)

def target (s : NotificationStore) : StoreEvent → Option ℕ
  | .enqueue _ | .enqueueIdempotent _ _ => some s.created.length
  | .markSent id _ | .recordFailure id _ _ | .recordAction id _ => some id
  | .settle .outbox _ => s.outboxFile.waiting.head?.map (·.target)
  | .settle .log _ => s.logFile.waiting.head?.map (·.target)
  | .stringify _ | .rename _ | .init _ _ _ => none

/-- The others stay as they are. -/
def Untouched (s : NotificationStore) (e : StoreEvent) : Prop :=
  (∀ a b c, e ≠ .init a b c) → ∀ x : QueuedNotification, s.target e ≠ some x.id → x.id ∉ (s.step e).evicted →
    (x ∈ (s.step e).outbox ↔ x ∈ s.outbox) ∧ (x ∈ (s.step e).log ↔ x ∈ s.log)

/-- What a write of the outbox that fails takes back is as the call left it. -/
def OutboxUndoes (s : NotificationStore) : StoreOp → Prop
  | .enqueue item => item ∈ s.outbox → item.ingress ≠ none → item.id ∉ ids s.outboxFile.file
  | .action idx _ updated => s.outbox[idx]? = some updated
  | _ => True

/-- And a write of the log. -/
def LogUndoes (s : NotificationStore) : StoreOp → Prop
  | .terminal _ item logEntry priorLog => logEntry ∈ s.log ∧ item.id ∉ s.logged ∧ ∀ e ∈ priorLog, e ∈ s.log ∨ e ∈ s.dropped
  | .action idx _ updated => s.log[idx]? = some updated
  | _ => True

def Careful (s : NotificationStore) : StoreEvent → Prop
  | .stringify .outbox => ∀ op ∈ s.logFile.waiting, ∀ id ∈ op.moves, id ∈ ids s.logFile.file
  | .rename .log => ∀ d ∈ s.logFile.snapshot, ∀ id ∈ ids s.logFile.file, id ∉ ids d →
    id ∉ ids s.outboxFile.file ∧ ∀ d' ∈ s.outboxFile.snapshot, id ∉ ids d'
  | .settle .outbox true => s.outboxFile.waiting ≠ [] → s.outboxFile.renamed = true
  | .settle .log true => s.logFile.waiting ≠ [] → s.logFile.renamed = true
  | .settle .outbox false => ∀ op ∈ s.outboxFile.waiting.head?, s.OutboxUndoes op
  | .settle .log false => ∀ op ∈ s.logFile.waiting.head?, s.LogUndoes op
  | .init outboxRead logRead _ => outboxRead = true ∧ logRead = true
  | _ => True

instance OutboxUndoes.decidable (s : NotificationStore) (op : StoreOp) : Decidable (s.OutboxUndoes op) := by
  unfold OutboxUndoes
  split <;> infer_instance

instance LogUndoes.decidable (s : NotificationStore) (op : StoreOp) : Decidable (s.LogUndoes op) := by
  unfold LogUndoes
  split <;> infer_instance

instance Careful.decidable (s : NotificationStore) (e : StoreEvent) : Decidable (s.Careful e) := by
  unfold Careful
  split <;> infer_instance

/-! ## The lists -/

variable {id idx i : ℕ} {l l' priorLog : List QueuedNotification} {x y item logEntry : QueuedNotification}
  {s s' : NotificationStore} {op : StoreOp} {rest : List StoreOp}

theorem mem_ids : id ∈ ids l ↔ ∃ x ∈ l, x.id = id := mem_map

theorem ids_append (l l' : List QueuedNotification) : ids (l ++ l') = ids l ++ ids l' := map_append

theorem mem_ids_of_mem (h : x ∈ l) : x.id ∈ ids l := mem_map_of_mem h

theorem split_at (h : l[idx]? = some x) : l = l.take idx ++ x :: l.drop (idx + 1) := by
  obtain ⟨hlt, hx⟩ := List.getElem?_eq_some_iff.mp h
  rw [← hx, ← drop_eq_getElem_cons hlt, take_append_drop]

theorem perm_eraseIdx (h : l[idx]? = some x) : l.Perm (x :: l.eraseIdx idx) := by
  rw [eraseIdx_eq_take_drop_succ]
  calc l = l.take idx ++ x :: l.drop (idx + 1) := split_at h
    _ |>.Perm (x :: (l.take idx ++ l.drop (idx + 1))) := perm_middle

theorem perm_assignAt (h : l[idx]? = some x) (y : QueuedNotification) : (x :: assignAt l idx y).Perm (y :: l) := by
  have hl := (List.Perm.of_eq (split_at h)).trans perm_middle
  have hr : (assignAt l idx y).Perm (y :: (l.take idx ++ l.drop (idx + 1))) := perm_middle
  exact (hr.cons x).trans ((List.Perm.swap y x _).trans (hl.symm.cons y))

theorem set_eq_assignAt (h : l[idx]? = some x) (y : QueuedNotification) : l.set idx y = assignAt l idx y := by
  rw [List.set_eq_take_append_cons_drop, if_pos (List.getElem?_eq_some_iff.mp h).1]
  rfl

theorem perm_insertAt (l : List QueuedNotification) (idx : ℕ) (x : QueuedNotification) : (insertAt l idx x).Perm (x :: l) := by
  have h : (insertAt l idx x).Perm (x :: (l.take idx ++ l.drop idx)) := perm_middle
  rwa [take_append_drop] at h

theorem lookup_some (h : lookup l id = some (idx, x)) : l[idx]? = some x ∧ x.id = id := by
  obtain ⟨i, hi, hx⟩ := bind_eq_some_iff.mp h
  obtain ⟨y, hy, hxy⟩ := map_eq_some_iff.mp hx
  cases hxy
  obtain ⟨hlt, hp, -⟩ := findIdx?_eq_some_iff_getElem.mp hi
  rw [getElem?_eq_getElem hlt] at hy
  cases hy
  exact ⟨getElem?_eq_getElem hlt, by simpa using hp⟩

/-- What one more element counts for. -/
theorem count_of_perm (h : l.Perm (x :: l')) (id : ℕ) : (ids l).count id = (ids l').count id + if x.id = id then 1 else 0 := by
  have hc := (h.map QueuedNotification.id).count_eq id
  rw [map_cons, count_cons] at hc
  simpa [ids] using hc

/-- `refill` adds entries of the prior log that are not in the log. -/
theorem refill_spec (maxRecords : ℕ) (log priorLog : List QueuedNotification) : ∃ added : List QueuedNotification,
    refill maxRecords log priorLog = log ++ added ∧ added.Nodup ∧ (∀ x ∈ added, x ∈ priorLog ∧ x ∉ log) ∧
      (log.length < maxRecords → (refill maxRecords log priorLog).length ≤ maxRecords) := by
  induction priorLog generalizing log with
  | nil => exact ⟨[], (append_nil log).symm, nodup_nil, forall_mem_nil _, fun h => h.le⟩
  | cons entry priorLog ih =>
    by_cases hmem : entry ∈ log
    · rw [refill, if_pos hmem]
      by_cases hcap : maxRecords ≤ log.length
      · rw [if_pos hcap]
        exact ⟨[], (append_nil log).symm, nodup_nil, forall_mem_nil _, fun h => h.le⟩
      · rw [if_neg hcap]
        obtain ⟨added, hr, hnodup, hadded, hlen⟩ := ih log
        exact ⟨added, hr, hnodup, fun x hx => ⟨mem_cons_of_mem _ (hadded x hx).1, (hadded x hx).2⟩, hlen⟩
    · rw [refill, if_neg hmem]
      have hlength : (log ++ [entry]).length = log.length + 1 := by simp
      by_cases hcap : maxRecords ≤ (log ++ [entry]).length
      · rw [if_pos hcap]
        refine ⟨[entry], rfl, nodup_singleton _, fun x hx => ?_, fun h => by omega⟩
        cases mem_singleton.mp hx
        exact ⟨mem_cons_self, hmem⟩
      · rw [if_neg hcap]
        obtain ⟨added, hr, hnodup, hadded, hlen⟩ := ih (log ++ [entry])
        refine ⟨entry :: added, by rw [hr, append_assoc]; rfl, nodup_cons.mpr ⟨fun hx => ?_, hnodup⟩, fun x hx => ?_,
          fun _ => hlen (by omega)⟩
        · exact (hadded entry hx).2 (mem_append_right _ mem_cons_self)
        · rcases mem_cons.mp hx with rfl | hx
          · exact ⟨mem_cons_self, hmem⟩
          · exact ⟨mem_cons_of_mem _ (hadded x hx).1, fun hl => (hadded x hx).2 (mem_append_left _ hl)⟩

/-! ## The books

Where every id is. Ids the cap took are out of them, and are `evicted` for good. -/

def entering (s : NotificationStore) : List ℕ := s.outboxFile.waiting.filterMap (·.adds)

def moving (s : NotificationStore) : List ℕ := s.logFile.waiting.filterMap (·.moves)

/-- What the write that runs was asked for. -/
def enteringNow (s : NotificationStore) : Option ℕ := s.outboxFile.waiting.head?.bind (·.adds)

def movingNow (s : NotificationStore) : Option ℕ := s.logFile.waiting.head?.bind (·.moves)

/-- The notification is in one of the lists. -/
def Retained (s : NotificationStore) (id : ℕ) : Prop := id ∈ ids s.outbox ∨ id ∈ ids s.log

/-- It is in a file or in a write that runs. -/
def Filed (s : NotificationStore) (id : ℕ) : Prop :=
  id ∈ ids s.outboxFile.file ∨ id ∈ ids s.logFile.file ∨ (∃ d ∈ s.outboxFile.snapshot, id ∈ ids d) ∨ ∃ d ∈ s.logFile.snapshot, id ∈ ids d

structure Flow (s : NotificationStore) : Prop where
  held : ∀ id, id ∈ s.resolved ∨ id ∈ s.entering → id ∈ s.evicted ∨ s.Retained id
  fresh : s.entering.Nodup ∧ ∀ id ∈ s.entering, id ∉ s.resolved
  durable : ∀ id ∈ s.resolved, id ∈ s.evicted ∨ id ∈ ids s.outboxFile.file ∨ id ∈ ids s.logFile.file
  written : ∀ d ∈ s.outboxFile.snapshot, ∀ id, id ∈ s.resolved ∨ s.enteringNow = some id →
    id ∈ s.evicted ∨ id ∈ ids d ∨ id ∈ ids s.logFile.file
  kept : ∀ id ∈ ids s.logFile.file, id ∈ s.evicted ∨ id ∈ ids s.log
  logWritten : ∀ d ∈ s.logFile.snapshot, ∀ id ∈ ids s.logFile.file, id ∈ s.evicted ∨ id ∈ ids d
  taken : ∀ d ∈ s.logFile.snapshot, ∀ id ∈ ids d, id ∉ ids s.outbox ∧ (id ∈ s.evicted ∨ id ∈ ids s.log)
  movedNow : ∀ d ∈ s.logFile.snapshot, ∀ id, s.movingNow = some id → id ∈ s.evicted ∨ id ∈ ids d
  transit : ∀ id ∈ s.moving, id ∉ ids s.outbox ∧ (id ∈ s.evicted ∨ id ∈ ids s.log)
  single : s.moving.Nodup
  landed : ∀ id ∈ ids s.log, id ∈ s.evicted ∨ id ∈ ids s.logFile.file ∨ id ∈ s.moving
  filed : ∀ id ∈ ids s.logFile.file, id ∈ s.logged
  terminal : ∀ id ∈ s.logged, id ∉ ids s.outbox
  stale : ∀ id ∈ s.logged, id ∈ ids s.logFile.file ∨ id ∉ ids s.outboxFile.file ∧ ∀ d ∈ s.outboxFile.snapshot, id ∉ ids d
  keys : ∀ id id', s.Retained id → s.Retained id' → s.keyOf id ≠ none → s.keyOf id = s.keyOf id' → id ∉ s.evicted → id' ∉ s.evicted → id = id'
  keyed : ∀ id, s.Filed id → s.keyOf id ≠ none → id ∈ s.evicted ∨ s.Retained id

def Genuine (s : NotificationStore) (x : QueuedNotification) : Prop := s.created[x.id]? = some (x.notification, x.ingress)

/-- Every object is one of a notification that was queued. -/
structure Issued (s : NotificationStore) : Prop where
  outbox : ∀ x ∈ s.outbox, s.Genuine x
  log : ∀ x ∈ s.log, s.Genuine x
  dropped : ∀ x ∈ s.dropped, s.Genuine x
  outboxFile : ∀ x ∈ s.outboxFile.file, s.Genuine x
  logFile : ∀ x ∈ s.logFile.file, s.Genuine x
  outboxWrite : ∀ d ∈ s.outboxFile.snapshot, ∀ x ∈ d, s.Genuine x
  logWrite : ∀ d ∈ s.logFile.snapshot, ∀ x ∈ d, s.Genuine x
  outboxOps : ∀ op ∈ s.outboxFile.waiting, ∀ x ∈ op.objects, s.Genuine x
  logOps : ∀ op ∈ s.logFile.waiting, ∀ x ∈ op.objects, s.Genuine x
  ghosts : ∀ id, id ∈ s.resolved ∨ id ∈ s.evicted ∨ id ∈ s.logged → id < s.created.length

structure Placed (s : NotificationStore) : Prop where
  once : ∀ id, (ids s.outbox).count id + (ids s.log).count id + (ids s.dropped).count id ≤ 1
  cut : ∀ x ∈ s.dropped, x.id ∈ s.evicted
  capped : s.log.length ≤ s.maxRecords ∧ s.logFile.file.length ≤ s.maxRecords ∧ ∀ d ∈ s.logFile.snapshot, d.length ≤ s.maxRecords
  outboxFile : (ids s.outboxFile.file).Nodup ∧ ∀ d ∈ s.outboxFile.snapshot, (ids d).Nodup
  logFile : (ids s.logFile.file).Nodup ∧ ∀ d ∈ s.logFile.snapshot, (ids d).Nodup
  outboxOps : ∀ op ∈ s.outboxFile.waiting, op.Alike
  logOps : ∀ op ∈ s.logFile.waiting, op.Alike
  outboxWf : s.outboxFile.Wf
  logWf : s.logFile.Wf

structure Books (s : NotificationStore) : Prop where
  issued : s.Issued
  placed : s.Placed
  flow : s.Flow

/-! ### What follows of one state -/

theorem Placed.apart (h : s.Placed) (ho : id ∈ ids s.outbox) : id ∉ ids s.log ∧ id ∉ ids s.dropped := by
  have hc := h.once id
  have := count_pos_iff.mpr ho
  constructor
  · intro hl
    have := count_pos_iff.mpr hl
    omega
  · intro hd
    have := count_pos_iff.mpr hd
    omega

theorem Placed.count (h : s.Placed) (hr : s.Retained id) : (ids s.outbox ++ ids s.log).count id = 1 := by
  have hc := h.once id
  have hpos : 0 < (ids s.outbox ++ ids s.log).count id := count_pos_iff.mpr (mem_append.mpr hr)
  rw [count_append] at hpos ⊢
  omega

theorem Genuine.lt (h : s.Genuine x) : x.id < s.created.length :=
  (List.getElem?_eq_some_iff.mp h).1

theorem Genuine.keyOf (h : s.Genuine x) : s.keyOf x.id = x.keyHash := by
  rw [NotificationStore.keyOf, h]
  rfl

theorem Books.conserved (h : s.Books) : s.Conserved where
  once id hr he := h.placed.count ((h.flow.held id (.inl hr)).resolve_left he)
  terminal := h.flow.terminal
  keys x hx y hy hk hxy hex hey := by
    have hretained : ∀ z ∈ s.outbox ++ s.log, s.Retained z.id ∧ s.Genuine z := fun z hz => by
      rcases mem_append.mp hz with hz | hz
      · exact ⟨.inl (mem_ids_of_mem hz), h.issued.outbox z hz⟩
      · exact ⟨.inr (mem_ids_of_mem hz), h.issued.log z hz⟩
    obtain ⟨hrx, hgx⟩ := hretained x hx
    obtain ⟨hry, hgy⟩ := hretained y hy
    exact h.flow.keys x.id y.id hrx hry (by rw [hgx.keyOf]; exact hk) (by rw [hgx.keyOf, hgy.keyOf]; exact hxy) hex hey

/-! ### Ids stay where they are -/

theorem mem_ids_of_perm (h : l.Perm (x :: l')) : id ∈ ids l ↔ id = x.id ∨ id ∈ ids l' := by
  rw [ids, (h.map QueuedNotification.id).mem_iff, map_cons, mem_cons]
  rfl

theorem ids_assignAt (h : l[idx]? = some x) (hid : x.id = y.id) : ids (assignAt l idx y) = ids l := by
  have hl : ids l = ids (l.take idx ++ x :: l.drop (idx + 1)) := congrArg ids (split_at h)
  rw [hl, assignAt]
  simp [ids, hid]

theorem ids_set (h : l[idx]? = some x) (hid : x.id = y.id) : ids (l.set idx y) = ids l := by
  rw [set_eq_assignAt h]
  exact ids_assignAt h hid

/-- A write is asked for that moves nothing, or one that moves nothing is over. -/
structure SameIds (s s' : NotificationStore) : Prop where
  outbox : ids s'.outbox = ids s.outbox
  log : ids s'.log = ids s.log
  outboxFile : s'.outboxFile.file = s.outboxFile.file
  logFile : s'.logFile.file = s.logFile.file
  outboxWrite : ∀ d, s'.outboxFile.snapshot = some d → s.outboxFile.snapshot = some d ∧ s'.enteringNow = s.enteringNow
  logWrite : ∀ d, s'.logFile.snapshot = some d → s.logFile.snapshot = some d ∧ s'.movingNow = s.movingNow
  entering : s'.entering = s.entering
  moving : s'.moving = s.moving
  ghosts : s'.dropped = s.dropped ∧ s'.evicted = s.evicted ∧ s'.logged = s.logged ∧ s'.resolved = s.resolved ∧ s'.created = s.created

theorem SameIds.retained (k : s.SameIds s') : s'.Retained id ↔ s.Retained id := by
  rw [Retained, Retained, k.outbox, k.log]

theorem SameIds.filed (k : s.SameIds s') (h : s'.Filed id) : s.Filed id := by
  rcases h with h | h | ⟨d, hd, h⟩ | ⟨d, hd, h⟩
  · exact .inl (k.outboxFile ▸ h)
  · exact .inr (.inl (k.logFile ▸ h))
  · exact .inr (.inr (.inl ⟨d, (k.outboxWrite d hd).1, h⟩))
  · exact .inr (.inr (.inr ⟨d, (k.logWrite d hd).1, h⟩))

theorem Flow.same (h : s.Flow) (k : s.SameIds s') : s'.Flow := by
  obtain ⟨-, hevicted, hlogged, hresolved, hcreated⟩ := k.ghosts
  have hkey : ∀ id, s'.keyOf id = s.keyOf id := fun id => by rw [keyOf, keyOf, hcreated]
  constructor
  · intro id hid
    rw [hresolved, k.entering] at hid
    rw [hevicted, k.retained]
    exact h.held id hid
  · rw [k.entering, hresolved]
    exact h.fresh
  · rw [hresolved, hevicted, k.outboxFile, k.logFile]
    exact h.durable
  · intro d hd id hid
    obtain ⟨hsnap, hnow⟩ := k.outboxWrite d hd
    rw [hresolved, hnow] at hid
    rw [hevicted, k.logFile]
    exact h.written d hsnap id hid
  · rw [k.logFile, hevicted, k.log]
    exact h.kept
  · intro d hd id hid
    rw [k.logFile] at hid
    rw [hevicted]
    exact h.logWritten d (k.logWrite d hd).1 id hid
  · intro d hd id hid
    rw [k.outbox, hevicted, k.log]
    exact h.taken d (k.logWrite d hd).1 id hid
  · intro d hd id hid
    obtain ⟨hsnap, hnow⟩ := k.logWrite d hd
    rw [hnow] at hid
    rw [hevicted]
    exact h.movedNow d hsnap id hid
  · rw [k.moving, k.outbox, hevicted, k.log]
    exact h.transit
  · rw [k.moving]
    exact h.single
  · rw [k.log, hevicted, k.logFile, k.moving]
    exact h.landed
  · rw [k.logFile, hlogged]
    exact h.filed
  · rw [hlogged, k.outbox]
    exact h.terminal
  · intro id hid
    rw [hlogged] at hid
    rw [k.logFile, k.outboxFile]
    exact (h.stale id hid).imp_right fun hs => ⟨hs.1, fun d hd => hs.2 d (k.outboxWrite d hd).1⟩
  · intro id id' hr hr'
    rw [hkey, hkey, hevicted]
    exact h.keys id id' (k.retained.mp hr) (k.retained.mp hr')
  · intro id hf
    rw [hkey, hevicted, k.retained]
    exact h.keyed id (k.filed hf)

theorem Placed.same (h : s.Placed) (k : s.SameIds s') (hmax : s'.maxRecords = s.maxRecords)
    (hoo : ∀ op ∈ s'.outboxFile.waiting, op.Alike) (hlo : ∀ op ∈ s'.logFile.waiting, op.Alike) (ho : s'.outboxFile.Wf)
    (hl : s'.logFile.Wf) : s'.Placed := by
  obtain ⟨hdropped, hevicted, -⟩ := k.ghosts
  have hlen : s'.log.length = s.log.length := by
    have := congrArg List.length k.log
    simpa [ids] using this
  obtain ⟨hlog, hfile, hsnap⟩ := h.capped
  refine ⟨?_, ?_, ⟨?_, ?_, fun d hd => ?_⟩, ⟨?_, fun d hd => ?_⟩, ⟨?_, fun d hd => ?_⟩, hoo, hlo, ho, hl⟩
  · rw [k.outbox, k.log, hdropped]
    exact h.once
  · rw [hdropped, hevicted]
    exact h.cut
  · rw [hlen, hmax]
    exact hlog
  · rw [k.logFile, hmax]
    exact hfile
  · rw [hmax]
    exact hsnap d (k.logWrite d hd).1
  · rw [k.outboxFile]
    exact h.outboxFile.1
  · exact h.outboxFile.2 d (k.outboxWrite d hd).1
  · rw [k.logFile]
    exact h.logFile.1
  · exact h.logFile.2 d (k.logWrite d hd).1

/-! ### Calls -/

theorem entering_persist (s : NotificationStore) (op : StoreOp) :
    (s.outboxFile.persist op).waiting.filterMap (·.adds) = s.entering ++ op.adds.toList := by
  rw [WriteChain.persist, filterMap_append]
  cases op <;> rfl

theorem moving_persist (s : NotificationStore) (op : StoreOp) :
    (s.logFile.persist op).waiting.filterMap (·.moves) = s.moving ++ op.moves.toList := by
  rw [WriteChain.persist, filterMap_append]
  cases op <;> rfl

/-- The write that runs is the same as long as one runs. -/
theorem head_persist {c : LedgerFile} (h : c.Wf) (op : StoreOp) {d : List QueuedNotification} (hd : c.snapshot = some d) :
    (c.persist op).waiting.head? = c.waiting.head? := by
  have hne := h.waiting (by rw [hd]; exact some_ne_none d)
  show (c.waiting ++ [op]).head? = _
  cases hw : c.waiting with
  | nil => exact absurd hw hne
  | cons x l => rfl

theorem forall_persist {c : LedgerFile} {P : StoreOp → Prop} (h : ∀ o ∈ c.waiting, P o) (hop : P op) :
    ∀ o ∈ (c.persist op).waiting, P o := by
  exact forall_mem_append.mpr ⟨h, forall_mem_singleton.mpr hop⟩

/-- An item is replaced by one of the same notification. -/
theorem books_replaceOutbox (h : s.Books) (hidx : s.outbox[idx]? = some y)
    (x : QueuedNotification) (hx : x.notification = y.notification ∧ x.ingress = y.ingress) (op : StoreOp) (hadds : op.adds = none)
    (hop : op.Alike) (hobjects : ∀ z ∈ op.objects, z = x ∨ z = y) (n : ℕ) :
    ({ s with outbox := s.outbox.set idx x, outboxFile := s.outboxFile.persist op, nextRef := n } : NotificationStore).Books := by
  have hid : y.id = x.id := by rw [QueuedNotification.id, QueuedNotification.id, hx.1]
  have hgy := h.issued.outbox y (mem_of_getElem? hidx)
  have hgx : s.Genuine x := by
    rw [Genuine, ← hid, hx.1, hx.2]
    exact hgy
  have k : s.SameIds { s with outbox := s.outbox.set idx x, outboxFile := s.outboxFile.persist op, nextRef := n } := by
    refine ⟨ids_set hidx hid, rfl, rfl, rfl, fun d hd => ⟨hd, ?_⟩, fun d hd => ⟨hd, rfl⟩, ?_, rfl, rfl, rfl, rfl, rfl, rfl⟩
    · rw [enteringNow, enteringNow, head_persist h.placed.outboxWf op hd]
    · have he := entering_persist s op
      rw [hadds, toList_none, append_nil] at he
      exact he
  refine ⟨{ h.issued with outbox := fun z hz => ?_, outboxOps := forall_persist h.issued.outboxOps fun z hz => ?_ },
    h.placed.same k rfl (forall_persist h.placed.outboxOps hop) h.placed.logOps (h.placed.outboxWf.persist op) h.placed.logWf, h.flow.same k⟩
  · rcases mem_or_eq_of_mem_set hz with hz | rfl
    · exact h.issued.outbox z hz
    · exact hgx
  · rcases hobjects z hz with rfl | rfl
    · exact hgx
    · exact hgy

theorem books_replaceLog (h : s.Books) (hidx : s.log[idx]? = some y)
    (x : QueuedNotification) (hx : x.notification = y.notification ∧ x.ingress = y.ingress) (op : StoreOp) (hmoves : op.moves = none)
    (hop : op.Alike) (hobjects : ∀ z ∈ op.objects, z = x ∨ z = y) (n : ℕ) :
    ({ s with log := s.log.set idx x, logFile := s.logFile.persist op, nextRef := n } : NotificationStore).Books := by
  have hid : y.id = x.id := by rw [QueuedNotification.id, QueuedNotification.id, hx.1]
  have hgy := h.issued.log y (mem_of_getElem? hidx)
  have hgx : s.Genuine x := by
    rw [Genuine, ← hid, hx.1, hx.2]
    exact hgy
  have k : s.SameIds { s with log := s.log.set idx x, logFile := s.logFile.persist op, nextRef := n } := by
    refine ⟨rfl, ids_set hidx hid, rfl, rfl, fun d hd => ⟨hd, rfl⟩, fun d hd => ⟨hd, ?_⟩, rfl, ?_, rfl, rfl, rfl, rfl, rfl⟩
    · rw [movingNow, movingNow, head_persist h.placed.logWf op hd]
    · have he := moving_persist s op
      rw [hmoves, toList_none, append_nil] at he
      exact he
  refine ⟨{ h.issued with log := fun z hz => ?_, logOps := forall_persist h.issued.logOps fun z hz => ?_ },
    h.placed.same k rfl h.placed.outboxOps (forall_persist h.placed.logOps hop) h.placed.outboxWf (h.placed.logWf.persist op), h.flow.same k⟩
  · rcases mem_or_eq_of_mem_set hz with hz | rfl
    · exact h.issued.log z hz
    · exact hgx
  · rcases hobjects z hz with rfl | rfl
    · exact hgx
    · exact hgy

theorem books_recordAction (h : s.Books) (id : ℕ) (taken : NotificationActionTaken) : (s.recordAction id taken).Books := by
  unfold recordAction
  split
  · next idx existing hl =>
    split
    · exact h
    · refine books_replaceOutbox h (lookup_some hl).1 { existing with ref := s.nextRef, actionTaken := some taken } ⟨rfl, rfl⟩
        (.action idx existing { existing with ref := s.nextRef, actionTaken := some taken }) rfl rfl (fun z hz => ?_) _
      simp only [StoreOp.objects, mem_cons, not_mem_nil, or_false] at hz
      exact hz.symm
  · split
    · next idx existing hl =>
      split
      · exact h
      · refine books_replaceLog h (lookup_some hl).1 { existing with ref := s.nextRef, actionTaken := some taken } ⟨rfl, rfl⟩
          (.action idx existing { existing with ref := s.nextRef, actionTaken := some taken }) rfl rfl (fun z hz => ?_) _
        simp only [StoreOp.objects, mem_cons, not_mem_nil, or_false] at hz
        exact hz.symm
    · exact h

/-- A notification leaves the outbox for the log, and the cap takes what is too much. -/
structure Moved (s s' : NotificationStore) (id : ℕ) : Prop where
  source : id ∈ ids s.outbox
  outbox : ∀ i, i ∈ ids s'.outbox ↔ i ∈ ids s.outbox ∧ i ≠ id
  log : ∀ i, i ∈ ids s'.log → i = id ∨ i ∈ ids s.log
  kept : ∀ i, i = id ∨ i ∈ ids s.log → i ∈ s'.evicted ∨ i ∈ ids s'.log
  evicted : ∀ i ∈ s.evicted, i ∈ s'.evicted
  outboxFile : s'.outboxFile = s.outboxFile
  logFile : s'.logFile.file = s.logFile.file ∧ s'.logFile.snapshot = s.logFile.snapshot
  movingNow : ∀ d, s.logFile.snapshot = some d → s'.movingNow = s.movingNow
  moving : s'.moving = s.moving ++ [id]
  ghosts : s'.logged = s.logged ∧ s'.resolved = s.resolved ∧ s'.created = s.created

theorem Moved.retained (k : s.Moved s' id) (h : s.Retained i) : i ∈ s'.evicted ∨ s'.Retained i := by
  by_cases hi : i = id
  · exact (k.kept i (.inl hi)).imp_right .inr
  rcases h with ho | hl
  · exact .inr (.inl ((k.outbox i).mpr ⟨ho, hi⟩))
  · exact (k.kept i (.inr hl)).imp_right .inr

theorem Moved.was_retained (k : s.Moved s' id) (h : s'.Retained i) : s.Retained i := by
  rcases h with ho | hl
  · exact .inl ((k.outbox i).mp ho).1
  · rcases k.log i hl with rfl | hl
    · exact .inl k.source
    · exact .inr hl

theorem Flow.moved (h : s.Flow) (k : s.Moved s' id) : s'.Flow := by
  obtain ⟨hlogged, hresolved, hcreated⟩ := k.ghosts
  obtain ⟨hfile, hsnap⟩ := k.logFile
  have hkey : ∀ i, s'.keyOf i = s.keyOf i := fun i => by rw [keyOf, keyOf, hcreated]
  have hentering : s'.entering = s.entering := by rw [entering, entering, k.outboxFile]
  have henteringNow : s'.enteringNow = s.enteringNow := by rw [enteringNow, enteringNow, k.outboxFile]
  have hout : ∀ {i : ℕ}, i ∉ ids s.outbox → i ∉ ids s'.outbox := fun hn hi => hn ((k.outbox _).mp hi).1
  have hlog : ∀ {i : ℕ}, i ∈ s.evicted ∨ i ∈ ids s.log → i ∈ s'.evicted ∨ i ∈ ids s'.log := fun hi =>
    hi.elim (fun he => .inl (k.evicted _ he)) fun hl => k.kept _ (.inr hl)
  constructor
  · intro i hi
    rw [hresolved, hentering] at hi
    exact (h.held i hi).elim (fun he => .inl (k.evicted i he)) k.retained
  · rw [hentering, hresolved]
    exact h.fresh
  · rw [hresolved, k.outboxFile, hfile]
    exact fun i hi => (h.durable i hi).imp_left (k.evicted i)
  · rw [k.outboxFile, hresolved, henteringNow, hfile]
    exact fun d hd i hi => (h.written d hd i hi).imp_left (k.evicted i)
  · rw [hfile]
    exact fun i hi => hlog (h.kept i hi)
  · rw [hsnap, hfile]
    exact fun d hd i hi => (h.logWritten d hd i hi).imp_left (k.evicted i)
  · rw [hsnap]
    exact fun d hd i hi => ⟨hout (h.taken d hd i hi).1, hlog (h.taken d hd i hi).2⟩
  · rw [hsnap]
    intro d hd i hi
    rw [k.movingNow d hd] at hi
    exact (h.movedNow d hd i hi).imp_left (k.evicted i)
  · rw [k.moving]
    intro i hi
    rcases mem_append.mp hi with hi | hi
    · exact ⟨hout (h.transit i hi).1, hlog (h.transit i hi).2⟩
    · have hi := mem_singleton.mp hi
      exact ⟨fun ho => ((k.outbox i).mp ho).2 hi, k.kept i (.inl hi)⟩
  · rw [k.moving, nodup_append]
    refine ⟨h.single, nodup_singleton _, fun i hi j hj hij => ?_⟩
    rw [hij, mem_singleton.mp hj] at hi
    exact (h.transit id hi).1 k.source
  · rw [hfile, k.moving]
    intro i hi
    rcases k.log i hi with rfl | hi
    · exact .inr (.inr (mem_append_right _ mem_cons_self))
    · exact (h.landed i hi).imp (k.evicted i) (Or.imp_right (mem_append_left _))
  · rw [hfile, hlogged]
    exact h.filed
  · rw [hlogged]
    exact fun i hi => hout (h.terminal i hi)
  · rw [hlogged, hfile, k.outboxFile]
    exact h.stale
  · intro i j hi hj
    rw [hkey, hkey]
    exact fun hk hij hie hje =>
      h.keys i j (k.was_retained hi) (k.was_retained hj) hk hij (fun he => hie (k.evicted i he)) fun he => hje (k.evicted j he)
  · intro i hi
    rw [Filed, k.outboxFile, hfile, hsnap] at hi
    rw [hkey]
    exact fun hk => (h.keyed i hi hk).elim (fun he => .inl (k.evicted i he)) k.retained

theorem books_finish (h : s.Books) (hidx : s.outbox[idx]? = some item)
    (delivery : DeliveryRecord) : (s.finish idx item delivery).Books := by
  have hperm := perm_eraseIdx hidx
  have hmem : item ∈ s.outbox := mem_of_getElem? hidx
  have hin : item.id ∈ ids s.outbox := mem_ids_of_mem hmem
  have hg := h.issued.outbox item hmem
  have hcount := h.placed.once
  have hgone : item.id ∉ ids (s.outbox.eraseIdx idx) := by
    intro hm
    have hc := count_of_perm hperm item.id
    rw [if_pos rfl] at hc
    have := hcount item.id
    have := count_pos_iff.mpr hm
    omega
  -- the new log and what the cap takes
  let logEntry : QueuedNotification := ⟨s.nextRef, item.notification, delivery, item.ingress, none⟩
  have hge : s.Genuine logEntry := hg
  have hsplit : (logEntry :: s.log).take s.maxRecords ++ (logEntry :: s.log).drop s.maxRecords = logEntry :: s.log := take_append_drop _ _
  have hids : ids ((logEntry :: s.log).take s.maxRecords) ++ ids ((logEntry :: s.log).drop s.maxRecords) = item.id :: ids s.log := by
    rw [← ids_append, hsplit]
    rfl
  have hlogs : ∀ x ∈ (logEntry :: s.log).take s.maxRecords ++ (logEntry :: s.log).drop s.maxRecords, s.Genuine x := by
    rw [hsplit]
    exact forall_mem_cons.mpr ⟨hge, h.issued.log⟩
  have k : s.Moved (s.finish idx item delivery) item.id :=
    { source := hin
      outbox := fun i => by
        rw [mem_ids_of_perm hperm]
        constructor
        · exact fun hi => ⟨.inr hi, fun he => hgone (he ▸ hi)⟩
        · exact fun hi => hi.1.resolve_left hi.2
      log := fun i hi => by
        have hi : i ∈ ids ((logEntry :: s.log).take s.maxRecords) := hi
        have := mem_append_left (ids ((logEntry :: s.log).drop s.maxRecords)) hi
        rw [hids] at this
        exact mem_cons.mp this
      kept := fun i hi => by
        have hi := mem_cons.mpr hi
        rw [← hids] at hi
        exact (mem_append.mp hi).symm.imp_left (mem_append_right _)
      evicted := fun i hi => mem_append_left _ hi
      outboxFile := rfl
      logFile := ⟨rfl, rfl⟩
      movingNow := fun d hd => by
        exact congrArg (Option.bind · _) (head_persist h.placed.logWf _ hd)
      moving := moving_persist s _
      ghosts := ⟨rfl, rfl, rfl⟩ }
  refine ⟨?_, ?_, h.flow.moved k⟩
  · refine { h.issued with outbox := fun x hx => ?_, log := fun x hx => ?_, dropped := fun x hx => ?_, logOps := ?_, ghosts := fun i hi => ?_ }
    · exact h.issued.outbox x (mem_of_mem_eraseIdx hx)
    · exact hlogs x (mem_append_left _ hx)
    · rcases mem_append.mp hx with hx | hx
      · exact h.issued.dropped x hx
      · exact hlogs x (mem_append_right _ hx)
    · exact forall_persist h.issued.logOps (forall_mem_cons.mpr ⟨hg, forall_mem_cons.mpr ⟨hge, h.issued.log⟩⟩)
    · rcases hi with hi | hi | hi
      · exact h.issued.ghosts i (.inl hi)
      · rcases mem_append.mp hi with hi | hi
        · exact h.issued.ghosts i (.inr (.inl hi))
        · obtain ⟨x, hx, rfl⟩ := mem_ids.mp hi
          exact (hlogs x (mem_append_right _ hx)).lt
      · exact h.issued.ghosts i (.inr (.inr hi))
  · obtain ⟨-, hfile, hsnap⟩ := h.placed.capped
    refine { h.placed with
      once := fun i => ?_, cut := fun x hx => ?_, capped := ⟨length_take_le _ _, hfile, hsnap⟩,
      logOps := forall_persist h.placed.logOps ⟨rfl, (h.placed.apart hin).1⟩, logWf := h.placed.logWf.persist _ }
    · have hc := count_of_perm hperm i
      have hl := congrArg (List.count i) hids
      rw [count_append, count_cons] at hl
      have := hcount i
      show (ids (s.outbox.eraseIdx idx)).count i + (ids ((logEntry :: s.log).take s.maxRecords)).count i +
        (ids (s.dropped ++ (logEntry :: s.log).drop s.maxRecords)).count i ≤ 1
      rw [ids_append, count_append]
      by_cases hi : item.id = i
      · simp only [hi, if_true, beq_self_eq_true] at hc hl
        omega
      · simp only [hi, if_false, beq_iff_eq] at hc hl
        omega
    · rcases mem_append.mp hx with hx | hx
      · exact mem_append_left _ (h.placed.cut x hx)
      · exact mem_append_right _ (mem_ids_of_mem hx)

theorem Issued.lt_of_mem (h : ∀ x ∈ l, s.Genuine x) (hi : i ∈ ids l) : i < s.created.length := by
  obtain ⟨x, hx, rfl⟩ := mem_ids.mp hi
  exact (h x hx).lt

theorem Issued.retained_lt (h : s.Issued) (hi : s.Retained i) : i < s.created.length :=
  hi.elim (lt_of_mem h.outbox) (lt_of_mem h.log)

theorem Issued.filed_lt (h : s.Issued) (hi : s.Filed i) : i < s.created.length := by
  rcases hi with hi | hi | ⟨d, hd, hi⟩ | ⟨d, hd, hi⟩
  · exact lt_of_mem h.outboxFile hi
  · exact lt_of_mem h.logFile hi
  · exact lt_of_mem (h.outboxWrite d hd) hi
  · exact lt_of_mem (h.logWrite d hd) hi

section

variable (h : s.Books) (spec : ActionSpec) (ingress : Option NotificationIngressIdentity)
  (hkey : ∀ i, s.Retained i → ingress ≠ none → s.keyOf i ≠ ingress.map (·.keyHash))
include h spec ingress hkey

/-- A notification with a key that no retained one has is queued. -/
theorem flow_enqueue : (s.enqueue spec ingress).Flow := by
  have hflow := h.flow
  have hevicted : ∀ i ∈ s.evicted, i < s.created.length := fun i hi => h.issued.ghosts i (.inr (.inl hi))
  have hout : ∀ i, i ∈ ids (s.enqueue spec ingress).outbox ↔ i ∈ ids s.outbox ∨ i = s.created.length := fun i => by
    show i ∈ ids (s.outbox ++ [_]) ↔ _
    rw [ids_append, mem_append]
    exact or_congr_right mem_singleton
  have hretained : ∀ {i}, (s.enqueue spec ingress).Retained i → s.Retained i ∨ i = s.created.length := fun hi => by
    rcases hi with hi | hi
    · exact ((hout _).mp hi).imp_left .inl
    · exact .inl (.inr hi)
  have hlift : ∀ {i}, s.Retained i → (s.enqueue spec ingress).Retained i := fun hi => hi.imp_left fun ho => (hout _).mpr (.inl ho)
  have hold : ∀ i, i < s.created.length → (s.enqueue spec ingress).keyOf i = s.keyOf i := fun i hi => by
    show ((s.created ++ [_])[i]?).bind _ = _
    rw [getElem?_append_left hi]
    rfl
  have hnew : (s.enqueue spec ingress).keyOf s.created.length = ingress.map (·.keyHash) := by
    show ((s.created ++ [_])[s.created.length]?).bind _ = _
    rw [getElem?_concat_length]
    rfl
  have hentering : (s.enqueue spec ingress).entering = s.entering ++ [s.created.length] := entering_persist s _
  have hstay : ∀ {i}, i ∉ ids s.outbox → i < s.created.length → i ∉ ids (s.enqueue spec ingress).outbox := fun hn hlt hi =>
    ((hout _).mp hi).elim hn fun he => by omega
  have hlt : ∀ {i}, i ∈ s.evicted ∨ s.Retained i → i < s.created.length := fun hi => hi.elim (hevicted _) h.issued.retained_lt
  constructor
  · intro i hi
    rw [hentering] at hi
    have hi : (i ∈ s.resolved ∨ i ∈ s.entering) ∨ i = s.created.length := by
      rcases hi with hi | hi
      · exact .inl (.inl hi)
      · exact (mem_append.mp hi).elim (fun he => .inl (.inr he)) fun he => .inr (mem_singleton.mp he)
    rcases hi with hi | rfl
    · exact (hflow.held i hi).imp_right hlift
    · exact .inr (.inl ((hout _).mpr (.inr rfl)))
  · obtain ⟨hnodup, hunresolved⟩ := hflow.fresh
    rw [hentering, nodup_append]
    refine ⟨⟨hnodup, nodup_singleton _, fun i hi j hj hij => ?_⟩, fun i hi hr => ?_⟩
    · have := hlt (hflow.held i (.inr hi))
      have := mem_singleton.mp hj
      omega
    · rcases mem_append.mp hi with hi | hi
      · exact hunresolved i hi hr
      · have := h.issued.ghosts i (.inl hr)
        have := mem_singleton.mp hi
        omega
  · exact hflow.durable
  · intro d hd i hi
    refine hflow.written d hd i (hi.imp_right fun hn => ?_)
    rw [← hn]
    exact congrArg (Option.bind · _) (head_persist h.placed.outboxWf _ hd).symm
  · exact hflow.kept
  · exact hflow.logWritten
  · intro d hd i hi
    exact ⟨hstay (hflow.taken d hd i hi).1 (Issued.lt_of_mem (h.issued.logWrite d hd) hi), (hflow.taken d hd i hi).2⟩
  · exact hflow.movedNow
  · intro i hi
    obtain ⟨hn, hl⟩ := hflow.transit i hi
    exact ⟨hstay hn (hlt (hl.imp_right .inr)), hl⟩
  · exact hflow.single
  · exact hflow.landed
  · exact hflow.filed
  · intro i hi
    exact hstay (hflow.terminal i hi) (h.issued.ghosts i (.inr (.inr hi)))
  · exact hflow.stale
  · intro i j hi hj hk hij hie hje
    rcases hretained hi with hi | rfl
    · rw [hold i (h.issued.retained_lt hi)] at hk hij
      rcases hretained hj with hj | rfl
      · rw [hold j (h.issued.retained_lt hj)] at hij
        exact hflow.keys i j hi hj hk hij hie hje
      · rw [hnew] at hij
        exact absurd hij (hkey i hi fun hn => hk (by rw [hij, hn]; rfl))
    · rcases hretained hj with hj | rfl
      · rw [hnew] at hk hij
        rw [hold j (h.issued.retained_lt hj)] at hij
        exact absurd hij.symm (hkey j hj fun hn => hk (by rw [hn]; rfl))
      · rfl
  · intro i hi hk
    rw [hold i (h.issued.filed_lt hi)] at hk
    exact (hflow.keyed i hi hk).imp_right hlift

theorem books_enqueue : (s.enqueue spec ingress).Books := by
  have hmono : ∀ {x : QueuedNotification}, s.Genuine x → (s.enqueue spec ingress).Genuine x := fun {x} hx => by
    show (s.created ++ [_])[x.id]? = _
    rw [getElem?_append_left (Genuine.lt hx)]
    exact hx
  generalize hitem : (⟨s.nextRef, ⟨s.created.length, spec.actions, spec.actionHandler, spec.actionRef⟩, ⟨.pending, 0, none, none⟩, ingress,
    none⟩ : QueuedNotification) = item
  have hid : item.id = s.created.length := by
    rw [← hitem]
    rfl
  have hoi : (s.enqueue spec ingress).outbox = s.outbox ++ [item] := by
    rw [← hitem]
    rfl
  have hfile : (s.enqueue spec ingress).outboxFile = s.outboxFile.persist (.enqueue item) := by
    rw [← hitem]
    rfl
  have hgi : (s.enqueue spec ingress).Genuine item := by
    rw [← hitem]
    exact getElem?_concat_length
  refine ⟨?_, ?_, flow_enqueue h spec ingress hkey⟩
  · constructor
    · rw [hoi]
      intro x hx
      rcases mem_append.mp hx with hx | hx
      · exact hmono (h.issued.outbox x hx)
      · exact mem_singleton.mp hx ▸ hgi
    · exact fun x hx => hmono (h.issued.log x hx)
    · exact fun x hx => hmono (h.issued.dropped x hx)
    · rw [hfile]
      exact fun x hx => hmono (h.issued.outboxFile x hx)
    · exact fun x hx => hmono (h.issued.logFile x hx)
    · rw [hfile]
      exact fun d hd x hx => hmono (h.issued.outboxWrite d hd x hx)
    · exact fun d hd x hx => hmono (h.issued.logWrite d hd x hx)
    · rw [hfile]
      exact forall_persist (fun op hop x hx => hmono (h.issued.outboxOps op hop x hx)) fun x hx => mem_singleton.mp hx ▸ hgi
    · exact fun op hop x hx => hmono (h.issued.logOps op hop x hx)
    · intro i hi
      show i < (s.created ++ [_]).length
      rw [length_append]
      exact Nat.lt_add_right _ (h.issued.ghosts i hi)
  · refine { h.placed with once := fun i => ?_, outboxFile := ?_, outboxOps := ?_, outboxWf := ?_ }
    · have hc := h.placed.once i
      rw [hoi, ids_append, count_append]
      show _ + (ids s.log).count i + (ids s.dropped).count i ≤ 1
      by_cases hi : item.id = i
      · have hnot : ∀ {l : List QueuedNotification}, (∀ x ∈ l, s.Genuine x) → (ids l).count i = 0 := fun hl =>
          List.count_eq_zero.mpr fun hm => by
            have := Issued.lt_of_mem hl hm
            omega
        have hone : (ids [item]).count i ≤ 1 := count_le_length
        rw [hnot h.issued.outbox, hnot h.issued.log, hnot h.issued.dropped]
        omega
      · have : (ids [item]).count i = 0 := List.count_eq_zero.mpr fun hm => hi (mem_singleton.mp hm).symm
        omega
    · rw [hfile]
      exact h.placed.outboxFile
    · rw [hfile]
      exact forall_persist h.placed.outboxOps trivial
    · rw [hfile]
      exact h.placed.outboxWf.persist _

end

theorem books_enqueueIdempotent (h : s.Books) (spec : ActionSpec) (ingress : NotificationIngressIdentity) :
    (s.enqueueIdempotent spec ingress).Books := by
  unfold enqueueIdempotent
  split
  · exact h
  next hnone =>
  rw [not_or] at hnone
  have hno : s.getByIngressKeyHash ingress.keyHash = none := by simpa using hnone.2
  obtain ⟨hoi, hli⟩ := or_eq_none_iff.mp hno
  refine books_enqueue h spec (some ingress) fun i hi _ => ?_
  rcases hi with hi | hi
  · obtain ⟨x, hx, rfl⟩ := mem_ids.mp hi
    rw [(h.issued.outbox x hx).keyOf]
    simpa using find?_eq_none.mp hoi x hx
  · obtain ⟨x, hx, rfl⟩ := mem_ids.mp hi
    rw [(h.issued.log x hx).keyOf]
    simpa using find?_eq_none.mp hli x hx

theorem books_markSent (h : s.Books) (id : ℕ) (deliveredAt : JsString) : (s.markSent id deliveredAt).Books := by
  unfold markSent
  split
  · exact h
  · next idx item hl => exact books_finish h (lookup_some hl).1 _

theorem books_recordFailure (h : s.Books) (id : ℕ) (lastError : JsString) (terminal : Bool) :
    (s.recordFailure id lastError terminal).Books := by
  unfold recordFailure
  split
  · exact h
  next idx item hl =>
  split
  · exact books_finish h (lookup_some hl).1 _
  · exact books_replaceOutbox h (lookup_some hl).1
      ⟨s.nextRef, item.notification,
        { item.delivery with status := .pending, attempts := item.delivery.attempts + 1, lastError := some lastError }, item.ingress, none⟩
      ⟨rfl, rfl⟩ (.retry id) rfl trivial (fun _ h => by cases h) _

/-! ### A write takes its content -/

theorem books_stringifyOutbox (h : s.Books) (hc : s.Careful (.stringify .outbox)) : (s.stringify .outbox).Books := by
  have hwf := h.placed.outboxWf.stringify s.outbox
  simp only [stringify]
  rcases WriteChain.stringify_cases s.outboxFile s.outbox with hsame | htaken
  · rw [hsame]
    exact h
  rw [htaken] at hwf ⊢
  have hflow := h.flow
  refine ⟨{ h.issued with outboxWrite := ?_ }, { h.placed with outboxFile := ⟨h.placed.outboxFile.1, ?_⟩, outboxWf := hwf },
    { hflow with written := ?_, stale := ?_, keyed := ?_ }⟩
  · rintro d ⟨⟩
    exact h.issued.outbox
  · rintro d ⟨⟩
    exact nodup_iff_count_le_one.mpr fun i => by
      have := h.placed.once i
      omega
  · -- what is in the log, and in no transition, is in the log's file
    rintro d ⟨⟩ i hi
    have hheld : i ∈ s.resolved ∨ i ∈ s.entering := hi.imp_right fun hn => by
      obtain ⟨op, hop, hadds⟩ := bind_eq_some_iff.mp hn
      exact mem_filterMap.mpr ⟨op, mem_of_mem_head? hop, hadds⟩
    rcases hflow.held i hheld with he | ho | hl
    · exact .inl he
    · exact .inr (.inl ho)
    · rcases hflow.landed i hl with he | hf | hm
      · exact .inl he
      · exact .inr (.inr hf)
      · obtain ⟨op, hop, hmoves⟩ := mem_filterMap.mp hm
        exact .inr (.inr (hc op hop i hmoves))
  · intro i hi
    refine (hflow.stale i hi).imp_right fun hs => ⟨hs.1, ?_⟩
    rintro d ⟨⟩
    exact hflow.terminal i hi
  · intro i hi hk
    rcases hi with hi | hi | ⟨d, ⟨⟩, hi⟩ | hi
    · exact hflow.keyed i (.inl hi) hk
    · exact hflow.keyed i (.inr (.inl hi)) hk
    · exact .inr (.inl hi)
    · exact hflow.keyed i (.inr (.inr (.inr hi))) hk

theorem books_stringifyLog (h : s.Books) : (s.stringify .log).Books := by
  have hwf := h.placed.logWf.stringify s.log
  simp only [stringify]
  rcases WriteChain.stringify_cases s.logFile s.log with hsame | htaken
  · rw [hsame]
    exact h
  rw [htaken] at hwf ⊢
  have hflow := h.flow
  obtain ⟨hlog, hfile, -⟩ := h.placed.capped
  refine ⟨{ h.issued with logWrite := ?_ },
    { h.placed with capped := ⟨hlog, hfile, ?_⟩, logFile := ⟨h.placed.logFile.1, ?_⟩, logWf := hwf },
    { hflow with logWritten := ?_, taken := ?_, movedNow := ?_, keyed := ?_ }⟩
  · rintro d ⟨⟩
    exact h.issued.log
  · rintro d ⟨⟩
    exact hlog
  · rintro d ⟨⟩
    exact nodup_iff_count_le_one.mpr fun i => by
      have := h.placed.once i
      omega
  · rintro d ⟨⟩
    exact hflow.kept
  · rintro d ⟨⟩ i hi
    exact ⟨fun ho => (h.placed.apart ho).1 hi, .inr hi⟩
  · rintro d ⟨⟩ i hi
    obtain ⟨op, hop, hmoves⟩ := bind_eq_some_iff.mp hi
    exact (hflow.transit i (mem_filterMap.mpr ⟨op, mem_of_mem_head? hop, hmoves⟩)).2
  · intro i hi hk
    rcases hi with hi | hi | hi | ⟨d, ⟨⟩, hi⟩
    · exact hflow.keyed i (.inl hi) hk
    · exact hflow.keyed i (.inr (.inl hi)) hk
    · exact hflow.keyed i (.inr (.inr (.inl hi))) hk
    · exact .inr (.inr hi)

/-! ### A write replaces the file -/

theorem books_renameOutbox (h : s.Books) : (s.rename .outbox).Books := by
  have hwf := h.placed.outboxWf.rename
  simp only [rename]
  rcases WriteChain.rename_cases s.outboxFile with hsame | ⟨content, hsnap, hrenamed⟩
  · rw [hsame]
    exact h
  rw [hrenamed] at hwf ⊢
  have hflow := h.flow
  refine ⟨{ h.issued with outboxFile := h.issued.outboxWrite _ hsnap },
    { h.placed with outboxFile := ⟨h.placed.outboxFile.2 _ hsnap, h.placed.outboxFile.2⟩, outboxWf := hwf },
    { hflow with
      durable := fun i hi => hflow.written _ hsnap i (.inl hi)
      stale := fun i hi => (hflow.stale i hi).imp_right fun hs => ⟨hs.2 _ hsnap, hs.2⟩
      keyed := fun i hi hk => ?_ }⟩
  rcases hi with hi | hi
  · exact hflow.keyed i (.inr (.inr (.inl ⟨_, hsnap, hi⟩))) hk
  · exact hflow.keyed i (.inr hi) hk

/-- What the log's file has is put down again. -/
theorem Books.logged (h : s.Books) : ({ s with logged := s.logged ++ ids s.logFile.file } : NotificationStore).Books := by
  have hlogged : ∀ i ∈ s.logged ++ ids s.logFile.file, i ∈ s.logged := fun i hi =>
    (mem_append.mp hi).elim id (h.flow.filed i)
  exact ⟨{ h.issued with ghosts := fun i hi => h.issued.ghosts i (hi.imp_right (Or.imp_right (hlogged i))) }, { h.placed with },
    { h.flow with
      filed := fun i hi => mem_append_right _ hi
      terminal := fun i hi => h.flow.terminal i (hlogged i hi)
      stale := fun i hi => h.flow.stale i (hlogged i hi) }⟩

theorem books_renameLog (h : s.Books) (hc : s.Careful (.rename .log)) : (s.rename .log).Books := by
  have hwf := h.placed.logWf.rename
  simp only [rename]
  rcases WriteChain.rename_cases s.logFile with hsame | ⟨content, hsnap, hrenamed⟩
  · rw [hsame]
    exact h.logged
  rw [hrenamed] at hwf ⊢
  have hflow := h.flow
  obtain ⟨hlog, -, hcap⟩ := h.placed.capped
  -- the new file has what the old one had, and what the log had when it was taken
  have hkeeps : ∀ {P : Prop} {i}, i ∈ s.evicted ∨ P ∨ i ∈ ids s.logFile.file → i ∈ s.evicted ∨ P ∨ i ∈ ids content := by
    intro P i hi
    rcases hi with he | ho | hl
    · exact .inl he
    · exact .inr (.inl ho)
    · exact (hflow.logWritten _ hsnap i hl).imp_right .inr
  refine ⟨{ h.issued with logFile := h.issued.logWrite _ hsnap, ghosts := ?_ },
    { h.placed with capped := ⟨hlog, hcap _ hsnap, hcap⟩, logFile := ⟨h.placed.logFile.2 _ hsnap, h.placed.logFile.2⟩, logWf := hwf },
    { hflow with
      durable := fun i hi => hkeeps (hflow.durable i hi)
      written := fun d hd i hi => hkeeps (hflow.written d hd i hi)
      kept := fun i hi => (hflow.taken _ hsnap i hi).2
      logWritten := ?_, landed := ?_, filed := fun i hi => mem_append_right _ hi
      terminal := ?_, stale := ?_, keyed := ?_ }⟩
  · rintro i (hi | hi | hi)
    · exact h.issued.ghosts i (.inl hi)
    · exact h.issued.ghosts i (.inr (.inl hi))
    · rcases mem_append.mp hi with hi | hi
      · exact h.issued.ghosts i (.inr (.inr hi))
      · exact Issued.lt_of_mem (h.issued.logWrite _ hsnap) hi
  · intro d hd i hi
    rw [hsnap] at hd
    cases hd
    exact .inr hi
  · intro i hi
    rcases hflow.landed i hi with he | hf | hm
    · exact .inl he
    · exact (hflow.logWritten _ hsnap i hf).imp_right .inl
    · exact .inr (.inr hm)
  · intro i hi
    rcases mem_append.mp hi with hi | hi
    · exact hflow.terminal i hi
    · exact (hflow.taken _ hsnap i hi).1
  · intro i hi
    rcases mem_append.mp hi with hi | hi
    · rcases hflow.stale i hi with hl | hs
      · by_cases hin : i ∈ ids content
        · exact .inl hin
        · exact .inr (hc _ hsnap i hl hin)
      · exact .inr hs
    · exact .inl hi
  · intro i hi hk
    rcases hi with hi | hi | hi
    · exact hflow.keyed i (.inl hi) hk
    · exact hflow.keyed i (.inr (.inr (.inr ⟨_, hsnap, hi⟩))) hk
    · exact hflow.keyed i (.inr (.inr hi)) hk

/-! ### A write of the outbox is over -/

theorem mem_settle {c : LedgerFile} (h : op ∈ c.settle.waiting) : op ∈ c.waiting := mem_of_mem_tail h

theorem entering_cons (h : s.outboxFile.waiting = op :: rest) :
    s.entering = op.adds.toList ++ rest.filterMap (·.adds) ∧ s.enteringNow = op.adds := by
  constructor
  · rw [entering, h, filterMap_cons]
    cases op.adds <;> rfl
  · rw [enteringNow, h]
    rfl

theorem moving_cons (h : s.logFile.waiting = op :: rest) :
    s.moving = op.moves.toList ++ rest.filterMap (·.moves) ∧ s.movingNow = op.moves := by
  constructor
  · rw [moving, h, filterMap_cons]
    cases op.moves <;> rfl
  · rw [movingNow, h]
    rfl

theorem filed_settledOutbox (h : s'.Filed i) (ho : s'.outboxFile = s.outboxFile.settle)
    (hl : s'.logFile = s.logFile) : s.Filed i := by
  rw [Filed, ho, hl] at h
  rcases h with h | h | ⟨d, hd, h⟩ | h
  · exact .inl h
  · exact .inr (.inl h)
  · cases hd
  · exact .inr (.inr (.inr h))

/-- Nobody who waited for the write goes on. -/
theorem books_settledOutbox (h : s.Books) (hw : s.outboxFile.waiting = op :: rest)
    (hadds : op.adds = none) : ({ s with outboxFile := s.outboxFile.settle } : NotificationStore).Books := by
  have hentering := (entering_cons hw).1
  have k : s.SameIds { s with outboxFile := s.outboxFile.settle } := by
    refine ⟨rfl, rfl, rfl, rfl, nofun, fun d hd => ⟨hd, rfl⟩, ?_, rfl, rfl, rfl, rfl, rfl, rfl⟩
    rw [hentering, hadds, entering, WriteChain.settle_waiting hw]
    rfl
  refine ⟨{ h.issued with outboxWrite := nofun, outboxOps := fun o ho => h.issued.outboxOps o (mem_settle ho) },
    h.placed.same k rfl (fun o ho => h.placed.outboxOps o (mem_settle ho)) h.placed.logOps (WriteChain.wf_settle _) h.placed.logWf, h.flow.same k⟩

theorem Books.recorded (h : s.Books) (r : List (ℕ × NotificationActionTaken)) :
    ({ s with recorded := r } : NotificationStore).Books := ⟨{ h.issued with }, { h.placed with }, { h.flow with }⟩

theorem Books.reserved (h : s.Books) (r : JsMap JsString QueuedNotification) :
    ({ s with ingressReservations := r } : NotificationStore).Books := ⟨{ h.issued with }, { h.placed with }, { h.flow with }⟩

theorem release_eq (s : NotificationStore) (item : QueuedNotification) : ∃ r, s.release item = { s with ingressReservations := r } := by
  unfold release
  split
  · split <;> exact ⟨_, rfl⟩
  · exact ⟨_, rfl⟩

theorem mem_assignAt (h : x ∈ assignAt l idx y) : x ∈ l ∨ x = y := by
  rcases mem_append.mp h with h | h
  · exact .inl (mem_of_mem_take h)
  · exact (mem_cons.mp h).symm.imp_left mem_of_mem_drop

theorem books_assignOutbox (h : s.Books) (hidx : s.outbox[idx]? = some y)
    (hid : y.id = x.id) (hx : s.Genuine x) : ({ s with outbox := assignAt s.outbox idx x } : NotificationStore).Books := by
  have k : s.SameIds { s with outbox := assignAt s.outbox idx x } :=
    ⟨ids_assignAt hidx hid, rfl, rfl, rfl, fun d hd => ⟨hd, rfl⟩, fun d hd => ⟨hd, rfl⟩, rfl, rfl, rfl, rfl, rfl, rfl, rfl⟩
  refine ⟨{ h.issued with outbox := fun z hz => ?_ },
    h.placed.same k rfl h.placed.outboxOps h.placed.logOps h.placed.outboxWf h.placed.logWf, h.flow.same k⟩
  rcases mem_assignAt hz with hz | rfl
  · exact h.issued.outbox z hz
  · exact hx

theorem books_assignLog (h : s.Books) (hidx : s.log[idx]? = some y)
    (hid : y.id = x.id) (hx : s.Genuine x) : ({ s with log := assignAt s.log idx x } : NotificationStore).Books := by
  have k : s.SameIds { s with log := assignAt s.log idx x } :=
    ⟨rfl, ids_assignAt hidx hid, rfl, rfl, fun d hd => ⟨hd, rfl⟩, fun d hd => ⟨hd, rfl⟩, rfl, rfl, rfl, rfl, rfl, rfl, rfl⟩
  refine ⟨{ h.issued with log := fun z hz => ?_ },
    h.placed.same k rfl h.placed.outboxOps h.placed.logOps h.placed.outboxWf h.placed.logWf, h.flow.same k⟩
  rcases mem_assignAt hz with hz | rfl
  · exact h.issued.log z hz
  · exact hx

/-- `enqueue` resolves. -/
theorem books_accepted (h : s.Books) (hw : s.outboxFile.waiting = .enqueue item :: rest) (hr : s.outboxFile.renamed = true) :
    ({ s with outboxFile := s.outboxFile.settle, resolved := s.resolved ++ [item.id] } : NotificationStore).Books := by
  obtain ⟨hentering, hnow⟩ := entering_cons hw
  have hentering : s.entering = item.id :: rest.filterMap (·.adds) := hentering
  have htail : s.outboxFile.settle.waiting.filterMap (·.adds) = rest.filterMap (·.adds) := by
    rw [WriteChain.settle_waiting hw]
  have hflow := h.flow
  obtain ⟨hnodup, hunresolved⟩ := hflow.fresh
  rw [hentering, nodup_cons] at hnodup
  refine ⟨{ h.issued with outboxWrite := nofun, outboxOps := fun o ho => h.issued.outboxOps o (mem_settle ho), ghosts := ?_ },
    { h.placed with
      outboxFile := ⟨h.placed.outboxFile.1, nofun⟩, outboxOps := fun o ho => h.placed.outboxOps o (mem_settle ho),
      outboxWf := WriteChain.wf_settle _ },
    { hflow with
      held := ?_, fresh := ?_, durable := ?_, written := nofun
      stale := fun i hi => (hflow.stale i hi).imp_right fun hs => ⟨hs.1, nofun⟩
      keyed := fun i hi hk => hflow.keyed i (filed_settledOutbox hi rfl rfl) hk }⟩
  · intro i hi
    rcases hi with hi | hi
    · rcases mem_append.mp hi with hi | hi
      · exact h.issued.ghosts i (.inl hi)
      · cases mem_singleton.mp hi
        exact (h.issued.outboxOps _ (hw ▸ mem_cons_self) item mem_cons_self).lt
    · exact h.issued.ghosts i (.inr hi)
  · intro i hi
    refine hflow.held i ?_
    rw [hentering, mem_cons]
    rcases hi with hi | hi
    · exact (mem_append.mp hi).imp_right fun he => .inl (mem_singleton.mp he)
    · exact .inr (.inr (htail ▸ hi))
  · refine ⟨by rw [entering, htail]; exact hnodup.2, fun i hi hres => ?_⟩
    have hi : i ∈ rest.filterMap (·.adds) := htail ▸ hi
    rcases mem_append.mp hres with hres | hres
    · exact hunresolved i (hentering ▸ mem_cons_of_mem _ hi) hres
    · exact hnodup.1 (mem_singleton.mp hres ▸ hi)
  · exact forall_mem_append.mpr ⟨hflow.durable, forall_mem_singleton.mpr (hflow.written _ (h.placed.outboxWf.renamed hr) item.id (.inr hnow))⟩

/-- `enqueue` rejects, and takes its item back if it is still there. -/
theorem books_refused (h : s.Books) (hw : s.outboxFile.waiting = .enqueue item :: rest) (hc : s.OutboxUndoes (.enqueue item)) :
    ({ s with outboxFile := s.outboxFile.settle, outbox := s.outbox.erase item } : NotificationStore).Books := by
  have hentering : s.entering = item.id :: rest.filterMap (·.adds) := (entering_cons hw).1
  have htail : s.outboxFile.settle.waiting.filterMap (·.adds) = rest.filterMap (·.adds) := by
    rw [WriteChain.settle_waiting hw]
  have hflow := h.flow
  obtain ⟨hnodup, hunresolved⟩ := hflow.fresh
  rw [hentering] at hnodup hunresolved
  rw [nodup_cons] at hnodup
  have hsub : ∀ {i}, i ∈ ids (s.outbox.erase item) → i ∈ ids s.outbox := fun {i} hi => by
    obtain ⟨x, hx, rfl⟩ := mem_ids.mp hi
    exact mem_ids_of_mem (mem_of_mem_erase hx)
  have hother : ∀ {i}, i ≠ item.id → i ∈ ids s.outbox → i ∈ ids (s.outbox.erase item) := fun {i} hne hi => by
    obtain ⟨x, hx, rfl⟩ := mem_ids.mp hi
    exact mem_ids_of_mem ((mem_erase_of_ne fun he => hne (by rw [he])).mpr hx)
  have hretained : ∀ {i}, i ≠ item.id → s.Retained i →
      ({ s with outboxFile := s.outboxFile.settle, outbox := s.outbox.erase item } : NotificationStore).Retained i := fun hne hi =>
    hi.imp_left (hother hne)
  refine ⟨{ h.issued with
      outbox := fun x hx => h.issued.outbox x (mem_of_mem_erase hx), outboxWrite := nofun
      outboxOps := fun o ho => h.issued.outboxOps o (mem_settle ho) },
    { h.placed with
      once := fun i => ?_, outboxFile := ⟨h.placed.outboxFile.1, nofun⟩
      outboxOps := fun o ho => h.placed.outboxOps o (mem_settle ho), outboxWf := WriteChain.wf_settle _ },
    { hflow with
      held := ?_, fresh := ?_, written := nofun
      taken := fun d hd i hi => ⟨fun ho => (hflow.taken d hd i hi).1 (hsub ho), (hflow.taken d hd i hi).2⟩
      transit := fun i hi => ⟨fun ho => (hflow.transit i hi).1 (hsub ho), (hflow.transit i hi).2⟩
      terminal := fun i hi ho => hflow.terminal i hi (hsub ho)
      stale := fun i hi => (hflow.stale i hi).imp_right fun hs => ⟨hs.1, nofun⟩
      keys := fun i j hi hj => hflow.keys i j (hi.imp_left hsub) (hj.imp_left hsub)
      keyed := ?_ }⟩
  · have := h.placed.once i
    have : (ids (s.outbox.erase item)).count i ≤ (ids s.outbox).count i := (erase_sublist.map _).count_le i
    show (ids (s.outbox.erase item)).count i + (ids s.log).count i + (ids s.dropped).count i ≤ 1
    omega
  · intro i hi
    have hi : i ∈ s.resolved ∨ i ∈ rest.filterMap (·.adds) := hi.imp_right fun he => htail ▸ he
    have hne : i ≠ item.id := by
      rintro rfl
      exact hi.elim (hunresolved _ mem_cons_self) hnodup.1
    refine (hflow.held i (hi.imp_right fun he => ?_)).imp_right (hretained hne)
    rw [hentering]
    exact mem_cons_of_mem _ he
  · refine ⟨by rw [entering, htail]; exact hnodup.2, fun i hi => hunresolved i (mem_cons_of_mem _ (htail ▸ hi))⟩
  · intro i hi hk
    have hfiled := filed_settledOutbox hi rfl rfl
    by_cases hin : item ∈ s.outbox
    · by_cases hne : i = item.id
      · -- a key whose item is taken back is in no file
        subst hne
        have hg := h.issued.outbox item hin
        have hkey : s.keyOf item.id ≠ none := hk
        rw [hg.keyOf] at hkey
        have hout := mem_ids_of_mem hin
        have hno := hc hin fun hn => hkey (by rw [QueuedNotification.keyHash, hn]; rfl)
        rcases hi with hi | hi | ⟨d, hd, -⟩ | ⟨d, hd, hi⟩
        · exact absurd hi hno
        · exact absurd hout (hflow.terminal _ (hflow.filed _ hi))
        · cases hd
        · exact absurd hout (hflow.taken d hd _ hi).1
      · exact (hflow.keyed i hfiled hk).imp_right (hretained hne)
    · have hsame : s.outbox.erase item = s.outbox := erase_of_not_mem hin
      refine (hflow.keyed i hfiled hk).imp_right fun hr => hr.imp_left fun ho => ?_
      rw [hsame]
      exact ho

theorem books_settleOutbox (h : s.Books) (ok : Bool) (hc : s.Careful (.settle .outbox ok)) : (s.settle .outbox ok).Books := by
  unfold settle
  dsimp only
  split
  · exact h
  next op rest hw =>
  have hhead : op ∈ s.outboxFile.waiting.head? := by rw [hw]; rfl
  cases op with
  | enqueue item =>
    obtain ⟨r, hr⟩ := release_eq { s with outboxFile := s.outboxFile.settle } item
    cases ok with
    | true =>
      have hren : s.outboxFile.renamed = true := hc (by rw [hw]; exact cons_ne_nil _ _)
      simp only [outboxSettled, hr, if_true]
      exact (books_accepted h hw hren).reserved r
    | false =>
      simp only [outboxSettled, hr, Bool.false_eq_true, if_false]
      exact (books_refused h hw (hc _ hhead)).reserved r
  | action idx previous updated =>
    have hs := books_settledOutbox h hw rfl
    cases ok with
    | true => exact hs.recorded _
    | false =>
      have hmem := hw ▸ mem_cons_self (a := StoreOp.action idx previous updated) (l := rest)
      have hid : previous.id = updated.id := h.placed.outboxOps _ hmem
      exact books_assignOutbox hs (hc _ hhead) hid.symm (h.issued.outboxOps _ hmem previous mem_cons_self)
  | terminal idx item logEntry priorLog | cleanUp id | retry id => exact books_settledOutbox h hw rfl

/-! ### A write of the log is over -/

theorem filed_settledLog (h : s'.Filed i) (ho : s'.outboxFile.file = s.outboxFile.file)
    (hos : s'.outboxFile.snapshot = s.outboxFile.snapshot) (hl : s'.logFile = s.logFile.settle) : s.Filed i := by
  rw [Filed, ho, hos, hl] at h
  rcases h with h | h | h | ⟨d, hd, h⟩
  · exact .inl h
  · exact .inr (.inl h)
  · exact .inr (.inr (.inl h))
  · cases hd

theorem books_settledLog (h : s.Books) (hw : s.logFile.waiting = op :: rest)
    (hmoves : op.moves = none) : ({ s with logFile := s.logFile.settle } : NotificationStore).Books := by
  have hmoving := (moving_cons hw).1
  have k : s.SameIds { s with logFile := s.logFile.settle } := by
    refine ⟨rfl, rfl, rfl, rfl, fun d hd => ⟨hd, rfl⟩, nofun, rfl, ?_, rfl, rfl, rfl, rfl, rfl⟩
    rw [hmoving, hmoves, moving, WriteChain.settle_waiting hw]
    rfl
  refine ⟨{ h.issued with logWrite := nofun, logOps := fun o ho => h.issued.logOps o (mem_settle ho) },
    h.placed.same k rfl h.placed.outboxOps (fun o ho => h.placed.logOps o (mem_settle ho)) h.placed.outboxWf (WriteChain.wf_settle _), h.flow.same k⟩

/-- The log has the entry for good, and the outbox is written without the item. -/
theorem books_moved (h : s.Books)
    (hw : s.logFile.waiting = .terminal idx item logEntry priorLog :: rest) (hr : s.logFile.renamed = true) :
    ({ s with logFile := s.logFile.settle, outboxFile := s.outboxFile.persist (.cleanUp item.id) } : NotificationStore).Books := by
  obtain ⟨hmoving, hnow⟩ := moving_cons hw
  have htail : s.logFile.settle.waiting.filterMap (·.moves) = rest.filterMap (·.moves) := by
    rw [WriteChain.settle_waiting hw]
  have hentering : (s.outboxFile.persist (.cleanUp item.id)).waiting.filterMap (·.adds) = s.entering := by
    rw [entering_persist]
    exact append_nil _
  have hflow := h.flow
  obtain ⟨hl, hf, -⟩ := h.placed.capped
  have hsub : ∀ {i}, i ∈ rest.filterMap (·.moves) → i ∈ s.moving := fun hi => hmoving ▸ mem_cons_of_mem _ hi
  refine ⟨{ h.issued with
      logWrite := nofun, logOps := fun o ho => h.issued.logOps o (mem_settle ho)
      outboxOps := forall_persist h.issued.outboxOps fun x hx => by cases hx },
    { h.placed with
      capped := ⟨hl, hf, nofun⟩, logFile := ⟨h.placed.logFile.1, nofun⟩
      logOps := fun o ho => h.placed.logOps o (mem_settle ho), logWf := WriteChain.wf_settle _
      outboxOps := forall_persist h.placed.outboxOps trivial, outboxWf := h.placed.outboxWf.persist _ },
    { hflow with
      held := ?_, fresh := ?_, written := ?_
      logWritten := nofun, taken := nofun, movedNow := nofun
      transit := fun i hi => hflow.transit i (hsub (htail ▸ hi)), single := ?_, landed := ?_
      keyed := fun i hi hk => hflow.keyed i (filed_settledLog hi rfl rfl rfl) hk }⟩
  · intro i hi
    exact hflow.held i (hi.imp_right fun he => hentering ▸ he)
  · rw [entering, hentering]
    exact hflow.fresh
  · intro d hd i hi
    refine hflow.written d hd i (hi.imp_right fun hn => ?_)
    rw [← hn]
    exact congrArg (Option.bind · _) (head_persist h.placed.outboxWf _ hd).symm
  · have hnodup := hflow.single
    rw [hmoving] at hnodup
    rw [moving, htail]
    exact (nodup_cons.mp hnodup).2
  · intro i hi
    rcases hflow.landed i hi with he | hfile | hm
    · exact .inl he
    · exact .inr (.inl hfile)
    · rw [hmoving] at hm
      rcases mem_cons.mp hm with rfl | hm
      · exact (hflow.movedNow _ (h.placed.logWf.renamed hr) _ hnow).imp_right .inl
      · right
        right
        rw [moving, htail]
        exact hm

theorem ids_nodup_dropped (h : s.Placed) : s.dropped.Nodup :=
  List.Nodup.of_map QueuedNotification.id (nodup_iff_count_le_one.mpr fun i => by
    have hc : (ids s.outbox).count i + (ids s.log).count i + (ids s.dropped).count i ≤ 1 := h.once i
    show (ids s.dropped).count i ≤ 1
    omega)

/-- The item is back in the outbox, and the log is as it was before. -/
theorem books_rolledBack (h : s.Books) (hw : s.logFile.waiting = .terminal idx item logEntry priorLog :: rest)
    (hc : s.LogUndoes (.terminal idx item logEntry priorLog)) :
    ({ s with logFile := s.logFile.settle, outbox := insertAt s.outbox idx item } : NotificationStore).restoreLogAfterFailedPush logEntry priorLog
      |>.Books := by
  obtain ⟨hentry, hunlogged, hprior⟩ := hc
  have hop : StoreOp.terminal idx item logEntry priorLog ∈ s.logFile.waiting := hw ▸ mem_cons_self
  obtain ⟨hid, hnotPrior⟩ : logEntry.id = item.id ∧ item.id ∉ ids priorLog := h.placed.logOps _ hop
  have hgi : s.Genuine item := h.issued.logOps _ hop item mem_cons_self
  have hmoving : s.moving = item.id :: rest.filterMap (·.moves) := (moving_cons hw).1
  have htail : s.logFile.settle.waiting.filterMap (·.moves) = rest.filterMap (·.moves) := by
    rw [WriteChain.settle_waiting hw]
  have hflow := h.flow
  have hpo := perm_insertAt s.outbox idx item
  have hpl := perm_cons_erase hentry
  obtain ⟨hlen, hf, -⟩ := h.placed.capped
  obtain ⟨added, hadded, hnodup, hmem, hcap⟩ := refill_spec s.maxRecords (s.log.erase logEntry) priorLog
  -- what the loop adds the cap took
  have hdropped : ∀ x ∈ added, x ∈ s.dropped := by
    intro x hx
    obtain ⟨hxp, hxl⟩ := hmem x hx
    refine (hprior x hxp).resolve_left fun hl => ?_
    rcases mem_cons.mp (hpl.mem_iff.mp hl) with rfl | hl
    · exact hnotPrior (hid ▸ mem_ids_of_mem hxp)
    · exact hxl hl
  have hlog : ({ s with logFile := s.logFile.settle, outbox := insertAt s.outbox idx item } : NotificationStore).restoreLogAfterFailedPush
      logEntry priorLog = { s with
        logFile := s.logFile.settle, outbox := insertAt s.outbox idx item, log := s.log.erase logEntry ++ added
        dropped := s.dropped.filter (· ∉ s.log.erase logEntry ++ added) } := by
    rw [restoreLogAfterFailedPush]
    rw [hadded]
  rw [hlog]
  have hout : ∀ i, i ∈ ids (insertAt s.outbox idx item) ↔ i = item.id ∨ i ∈ ids s.outbox := fun i => mem_ids_of_perm hpo
  have hin : ∀ {i}, i ∈ ids s.log → i = item.id ∨ i ∈ ids (s.log.erase logEntry ++ added) := fun hi => by
    refine ((mem_ids_of_perm hpl).mp hi).imp (fun he => he.trans hid) fun he => ?_
    rw [ids_append]
    exact mem_append_left _ he
  have hback : ∀ {i}, i ∈ ids (s.log.erase logEntry ++ added) → i ∈ ids s.log ∧ i ≠ item.id ∨ i ∈ s.evicted := fun {i} hi => by
    rw [ids_append] at hi
    rcases mem_append.mp hi with hi | hi
    · refine .inl ⟨(mem_ids_of_perm hpl).mpr (.inr hi), ?_⟩
      rintro rfl
      have hcount := count_of_perm hpl item.id
      rw [if_pos hid] at hcount
      have := h.placed.once item.id
      have := count_pos_iff.mpr hi
      omega
    · obtain ⟨x, hx, rfl⟩ := mem_ids.mp hi
      exact .inr (h.placed.cut x (hdropped x hx))
  have hretained : ∀ {i}, s.Retained i → i ∈ ids (insertAt s.outbox idx item) ∨ i ∈ ids (s.log.erase logEntry ++ added) := fun hi => by
    rcases hi with hi | hi
    · exact .inl ((hout _).mpr (.inr hi))
    · exact (hin hi).imp_left fun he => (hout _).mpr (.inl he)
  have hitem : s.Retained item.id ∨ item.id ∈ s.evicted := .inl (.inr (hid ▸ mem_ids_of_mem hentry))
  have hstay : ∀ {i}, i ∈ s.logged → i ∉ ids (insertAt s.outbox idx item) := fun {i} hi ho => by
    rcases (hout i).mp ho with rfl | ho
    · exact hunlogged hi
    · exact hflow.terminal i hi ho
  refine ⟨{ h.issued with outbox := ?_, log := ?_, dropped := ?_, logWrite := nofun, logOps := ?_ },
    { h.placed with
      once := ?_, cut := ?_, capped := ⟨?_, hf, nofun⟩, logFile := ⟨h.placed.logFile.1, nofun⟩
      logOps := fun o ho => h.placed.logOps o (mem_settle ho), logWf := WriteChain.wf_settle _ },
    { hflow with
      held := ?_, kept := ?_, logWritten := nofun, taken := nofun
      movedNow := nofun, transit := ?_, single := ?_, landed := ?_, terminal := fun i hi => hstay hi, keys := ?_, keyed := ?_ }⟩
  · intro x hx
    rcases mem_cons.mp (hpo.mem_iff.mp hx) with rfl | hx
    · exact hgi
    · exact h.issued.outbox x hx
  · intro x hx
    rcases mem_append.mp hx with hx | hx
    · exact h.issued.log x (mem_of_mem_erase hx)
    · exact h.issued.dropped x (hdropped x hx)
  · exact fun x hx => h.issued.dropped x (mem_filter.mp hx).1
  · exact fun o ho => h.issued.logOps o (mem_settle ho)
  · intro i
    have hco := count_of_perm hpo i
    have hcl := count_of_perm hpl i
    have honce := h.placed.once i
    -- what comes back from the cap is counted once
    have hsub : (added ++ s.dropped.filter (· ∉ s.log.erase logEntry ++ added)).Subperm s.dropped := by
      refine List.Nodup.subperm ?_ fun x hx => ?_
      · refine nodup_append.mpr ⟨hnodup, (ids_nodup_dropped h.placed).filter _, fun x hx y hy hxy => ?_⟩
        have hy := (mem_filter.mp hy).2
        rw [← hxy] at hy
        exact (of_decide_eq_true hy) (mem_append_right _ hx)
      · rcases mem_append.mp hx with hx | hx
        · exact hdropped x hx
        · exact (mem_filter.mp hx).1
    obtain ⟨l, hperm, hsublist⟩ := hsub
    have hcd := (hsublist.map QueuedNotification.id).count_le i
    rw [(hperm.map QueuedNotification.id).count_eq, map_append, count_append] at hcd
    have hcd : (ids added).count i + (ids (s.dropped.filter (· ∉ s.log.erase logEntry ++ added))).count i ≤ (ids s.dropped).count i := hcd
    show (ids (insertAt s.outbox idx item)).count i + (ids (s.log.erase logEntry ++ added)).count i +
      (ids (s.dropped.filter (· ∉ s.log.erase logEntry ++ added))).count i ≤ 1
    rw [ids_append, count_append]
    rw [hid] at hcl
    omega
  · exact fun x hx => h.placed.cut x (mem_filter.mp hx).1
  · have hlt : (s.log.erase logEntry).length < s.maxRecords := by
      have := hpl.length_eq
      simp only [length_cons] at this
      omega
    have := hcap hlt
    rw [hadded] at this
    exact this
  · intro i hi
    exact (hflow.held i hi).imp_right hretained
  · intro i hi
    rcases hflow.kept i hi with he | hl
    · exact .inl he
    · refine .inr ((hin hl).resolve_left ?_)
      rintro rfl
      exact hunlogged (hflow.filed _ hi)
  · intro i hi
    have hi : i ∈ rest.filterMap (·.moves) := htail ▸ hi
    have hsingle := hflow.single
    rw [hmoving, nodup_cons] at hsingle
    have hne : i ≠ item.id := fun he => hsingle.1 (he ▸ hi)
    obtain ⟨hno, hl⟩ := hflow.transit i (hmoving ▸ mem_cons_of_mem _ hi)
    exact ⟨fun ho => ((hout i).mp ho).elim hne hno, hl.imp_right fun hl => (hin hl).resolve_left hne⟩
  · have hsingle := hflow.single
    rw [hmoving, nodup_cons] at hsingle
    rw [moving, htail]
    exact hsingle.2
  · intro i hi
    rcases hback hi with ⟨hl, hne⟩ | he
    · rcases hflow.landed i hl with he | hfile | hm
      · exact .inl he
      · exact .inr (.inl hfile)
      · rw [hmoving] at hm
        right
        right
        rw [moving, htail]
        exact (mem_cons.mp hm).resolve_left hne
    · exact .inl he
  · intro i j hi hj hk hij hie hje
    have hwas : ∀ {k}, k ∈ ids (insertAt s.outbox idx item) ∨ k ∈ ids (s.log.erase logEntry ++ added) → k ∉ s.evicted → s.Retained k := by
      intro k hr hke
      rcases hr with hr | hr
      · rcases (hout k).mp hr with rfl | hr
        · exact hitem.resolve_right hke
        · exact .inl hr
      · exact .inr ((hback hr).resolve_right hke).1
    exact hflow.keys i j (hwas hi hie) (hwas hj hje) hk hij hie hje
  · intro i hi hk
    exact (hflow.keyed i (filed_settledLog hi rfl rfl rfl) hk).imp_right hretained

theorem books_settleLog (h : s.Books) (ok : Bool) (hc : s.Careful (.settle .log ok)) : (s.settle .log ok).Books := by
  unfold settle
  dsimp only
  split
  · exact h
  next op rest hw =>
  have hhead : op ∈ s.logFile.waiting.head? := by rw [hw]; rfl
  cases op with
  | terminal idx item logEntry priorLog =>
    cases ok with
    | true => exact books_moved h hw (hc (by rw [hw]; exact cons_ne_nil _ _))
    | false => exact books_rolledBack h hw (hc _ hhead)
  | action idx previous updated =>
    have hs := books_settledLog h hw rfl
    cases ok with
    | true => exact hs.recorded _
    | false =>
      have hmem := hw ▸ mem_cons_self (a := StoreOp.action idx previous updated) (l := rest)
      have hid : previous.id = updated.id := h.placed.logOps _ hmem
      exact books_assignLog hs (hc _ hhead) hid.symm (h.issued.logOps _ hmem previous mem_cons_self)
  | enqueue item | cleanUp id | retry id => exact books_settledLog h hw rfl

/-! ### A crash -/

theorem books_init (h : s.Books) (persisted : Bool) : (s.init true true persisted).Books := by
  have hflow := h.flow
  have hlog : s.logFile.file.take s.maxRecords = s.logFile.file := take_of_length_le h.placed.capped.2.1
  generalize hreconciled : s.outboxFile.file.filter (·.id ∉ ids s.logFile.file) = reconciled
  obtain ⟨file, hfile, hfiles⟩ : ∃ file, (s.init true true persisted = { s with
      outbox := reconciled, log := s.logFile.file, ingressReservations := .empty, outboxFile := .new file, logFile := .new s.logFile.file
      dropped := [] }) ∧ (file = reconciled ∨ file = s.outboxFile.file) := by
    refine ⟨if persisted ∧ reconciled.length ≠ s.outboxFile.file.length then reconciled else s.outboxFile.file, ?_, ?_⟩
    · rw [init]
      simp only [if_true, hlog, hreconciled]
    · split
      · exact .inl rfl
      · exact .inr rfl
  rw [hfile]
  have hsub : reconciled.Sublist s.outboxFile.file := hreconciled ▸ filter_sublist
  have hmem : ∀ {i}, i ∈ ids reconciled ↔ i ∈ ids s.outboxFile.file ∧ i ∉ ids s.logFile.file := fun {i} => by
    rw [← hreconciled]
    constructor
    · intro hi
      obtain ⟨x, hx, rfl⟩ := mem_ids.mp hi
      obtain ⟨hx, hn⟩ := mem_filter.mp hx
      exact ⟨mem_ids_of_mem hx, of_decide_eq_true hn⟩
    · rintro ⟨hi, hn⟩
      obtain ⟨x, hx, rfl⟩ := mem_ids.mp hi
      exact mem_ids_of_mem (mem_filter.mpr ⟨hx, decide_eq_true hn⟩)
  -- nothing that was in a file is lost
  have hkeep : ∀ {i}, i ∈ ids s.outboxFile.file ∨ i ∈ ids s.logFile.file → i ∈ ids reconciled ∨ i ∈ ids s.logFile.file := fun {i} hi => by
    by_cases hl : i ∈ ids s.logFile.file
    · exact .inr hl
    · exact .inl (hmem.mpr ⟨hi.resolve_right hl, hl⟩)
  have hfileKeeps : ∀ {i}, i ∈ ids s.outboxFile.file ∨ i ∈ ids s.logFile.file → i ∈ ids file ∨ i ∈ ids s.logFile.file := fun hi => by
    rcases hfiles with rfl | rfl
    · exact hkeep hi
    · exact hi
  have hfileSub : ∀ x ∈ file, x ∈ s.outboxFile.file := by
    rcases hfiles with rfl | rfl
    · exact fun x hx => hsub.subset hx
    · exact fun x hx => hx
  have hids : ∀ {i}, i ∈ ids file → i ∈ ids s.outboxFile.file := fun hi => by
    obtain ⟨x, hx, rfl⟩ := mem_ids.mp hi
    exact mem_ids_of_mem (hfileSub x hx)
  have hwas : ∀ {i}, i ∈ ids reconciled ∨ i ∈ ids s.logFile.file → s.Filed i := fun hi =>
    hi.elim (fun hi => .inl (hmem.mp hi).1) fun hi => .inr (.inl hi)
  refine ⟨⟨?_, h.issued.logFile, forall_mem_nil _, ?_, h.issued.logFile, nofun, nofun,
      forall_mem_nil _, forall_mem_nil _, h.issued.ghosts⟩,
    ⟨?_, forall_mem_nil _, ⟨h.placed.capped.2.1, h.placed.capped.2.1, nofun⟩, ⟨?_, nofun⟩,
      ⟨h.placed.logFile.1, nofun⟩, forall_mem_nil _, forall_mem_nil _, WriteChain.wf_new _, WriteChain.wf_new _⟩,
    ⟨?_, ⟨nodup_nil, forall_mem_nil _⟩, ?_, nofun, ?_, nofun, nofun,
      nofun, forall_mem_nil _, nodup_nil, ?_, hflow.filed, ?_, ?_, ?_, ?_⟩⟩
  · exact fun x hx => h.issued.outboxFile x (hsub.subset hx)
  · exact fun x hx => h.issued.outboxFile x (hfileSub x hx)
  · intro i
    have ho := nodup_iff_count_le_one.mp h.placed.outboxFile.1 i
    have hl := nodup_iff_count_le_one.mp h.placed.logFile.1 i
    have hr : (ids reconciled).count i ≤ (ids s.outboxFile.file).count i := (hsub.map _).count_le i
    show (ids reconciled).count i + (ids s.logFile.file).count i + 0 ≤ 1
    by_cases hi : i ∈ ids s.logFile.file
    · have : (ids reconciled).count i = 0 := List.count_eq_zero.mpr fun hm => (hmem.mp hm).2 hi
      omega
    · have : (ids s.logFile.file).count i = 0 := List.count_eq_zero.mpr hi
      omega
  · rcases hfiles with rfl | rfl
    · exact h.placed.outboxFile.1.sublist (hsub.map _)
    · exact h.placed.outboxFile.1
  · intro i hi
    rcases hi with hi | hi
    · exact (hflow.durable i hi).imp_right hkeep
    · cases hi
  · exact fun i hi => (hflow.durable i hi).imp_right hfileKeeps
  · exact fun i hi => .inr hi
  · exact fun i hi => .inr (.inl hi)
  · intro i hi ho
    obtain ⟨ho, hl⟩ := hmem.mp ho
    exact (hflow.stale i hi).elim hl fun hs => hs.1 ho
  · intro i hi
    exact (hflow.stale i hi).imp_right fun hs => ⟨fun hf => hs.1 (hids hf), nofun⟩
  · intro i j hi hj hk hij hie hje
    have hki : s.keyOf i ≠ none := hk
    have hkij : s.keyOf i = s.keyOf j := hij
    exact hflow.keys i j ((hflow.keyed i (hwas hi) hki).resolve_left hie) ((hflow.keyed j (hwas hj) (hkij ▸ hki)).resolve_left hje) hki hkij hie hje
  · intro i hi _
    refine .inr (hkeep ?_)
    rcases hi with hi | hi | ⟨d, hd, -⟩ | ⟨d, hd, -⟩
    · exact .inl (hids hi)
    · exact .inr hi
    · cases hd
    · cases hd

/-! ### Runs -/

theorem books_new (maxRecords : ℕ) : (new maxRecords).Books := by
  refine ⟨⟨forall_mem_nil _, forall_mem_nil _, forall_mem_nil _, forall_mem_nil _, forall_mem_nil _,
      nofun, nofun, forall_mem_nil _, forall_mem_nil _, fun i hi => ?_⟩,
    ⟨fun i => Nat.zero_le _, forall_mem_nil _, ⟨Nat.zero_le _, Nat.zero_le _, nofun⟩,
      ⟨nodup_nil, nofun⟩, ⟨nodup_nil, nofun⟩, forall_mem_nil _, forall_mem_nil _,
      WriteChain.wf_new _, WriteChain.wf_new _⟩,
    ⟨fun i hi => ?_, ⟨nodup_nil, forall_mem_nil _⟩, forall_mem_nil _, nofun, forall_mem_nil _,
      nofun, nofun, nofun, forall_mem_nil _, nodup_nil,
      forall_mem_nil _, forall_mem_nil _, forall_mem_nil _, forall_mem_nil _, fun i j hi => ?_, fun i hi => ?_⟩⟩
  · rcases hi with hi | hi | hi <;> cases hi
  · rcases hi with hi | hi <;> cases hi
  · rcases hi with hi | hi <;> cases hi
  · rcases hi with hi | hi | ⟨d, hd, -⟩ | ⟨d, hd, -⟩
    · cases hi
    · cases hi
    · cases hd
    · cases hd

theorem books_step (s : NotificationStore) (e : StoreEvent) (h : s.Books) (hc : s.Careful e) : (s.step e).Books := by
  cases e with
  | enqueue spec => exact books_enqueue h spec none fun i _ hn => absurd rfl hn
  | enqueueIdempotent spec ingress => exact books_enqueueIdempotent h spec ingress
  | markSent id deliveredAt => exact books_markSent h id deliveredAt
  | recordFailure id lastError terminal => exact books_recordFailure h id lastError terminal
  | recordAction id taken => exact books_recordAction h id taken
  | stringify f =>
    cases f with
    | outbox => exact books_stringifyOutbox h hc
    | log => exact books_stringifyLog h
  | rename f =>
    cases f with
    | outbox => exact books_renameOutbox h
    | log => exact books_renameLog h hc
  | settle f ok =>
    cases f with
    | outbox => exact books_settleOutbox h ok hc
    | log => exact books_settleLog h ok hc
  | init outboxRead logRead persisted =>
    obtain ⟨rfl, rfl⟩ := hc
    exact books_init h persisted

/-! ### The others -/

theorem mem_of_perm (h : l.Perm (y :: l')) (hne : y.id ≠ x.id) : x ∈ l ↔ x ∈ l' := by
  rw [h.mem_iff, mem_cons, or_iff_right]
  rintro rfl
  exact hne rfl

section

variable {z : QueuedNotification} (h : l[idx]? = some y) (hy : y.id ≠ x.id) (hz : z.id ≠ x.id)
include h hy hz

theorem mem_assignAt_of_ne : x ∈ assignAt l idx z ↔ x ∈ l :=
  (mem_of_perm (List.Perm.refl (y :: assignAt l idx z)) hy).symm.trans (mem_of_perm (perm_assignAt h z) hz)

theorem mem_set_of_ne : x ∈ l.set idx z ↔ x ∈ l := by
  rw [set_eq_assignAt h]
  exact mem_assignAt_of_ne h hy hz

end

theorem untouched_finish (hidx : s.outbox[idx]? = some item) (delivery : DeliveryRecord)
    (hx : item.id ≠ x.id) (hev : x.id ∉ (s.finish idx item delivery).evicted) :
    (x ∈ (s.finish idx item delivery).outbox ↔ x ∈ s.outbox) ∧ (x ∈ (s.finish idx item delivery).log ↔ x ∈ s.log) := by
  refine ⟨(mem_of_perm (perm_eraseIdx hidx) hx).symm, ?_⟩
  set logEntry : QueuedNotification := ⟨s.nextRef, item.notification, delivery, item.ingress, none⟩ with hentry
  have hne : x ≠ logEntry := by
    rintro rfl
    exact hx rfl
  have hcut : x ∉ (logEntry :: s.log).drop s.maxRecords := fun hd => hev (mem_append_right _ (mem_ids_of_mem hd))
  calc x ∈ (logEntry :: s.log).take s.maxRecords
      ↔ x ∈ (logEntry :: s.log).take s.maxRecords ++ (logEntry :: s.log).drop s.maxRecords := by
        rw [mem_append, or_iff_left hcut]
    _ ↔ x ∈ s.log := by rw [take_append_drop, mem_cons, or_iff_right hne]

theorem untouched_rolledBack (h : s.Books) (hop : StoreOp.terminal idx item logEntry priorLog ∈ s.logFile.waiting)
    (hc : s.LogUndoes (.terminal idx item logEntry priorLog)) (hx : item.id ≠ x.id) (hev : x.id ∉ s.evicted) :
    (x ∈ insertAt s.outbox idx item ↔ x ∈ s.outbox) ∧ (x ∈ refill s.maxRecords (s.log.erase logEntry) priorLog ↔ x ∈ s.log) := by
  obtain ⟨-, -, hprior⟩ := hc
  have hid : logEntry.id = item.id := (h.placed.logOps _ hop).1
  have hne : x ≠ logEntry := by
    rintro rfl
    exact hx hid.symm
  refine ⟨mem_of_perm (perm_insertAt s.outbox idx item) hx, ?_⟩
  obtain ⟨added, hadded, -, hmem, -⟩ := refill_spec s.maxRecords (s.log.erase logEntry) priorLog
  rw [hadded, mem_append, mem_erase_of_ne hne]
  -- what the loop adds is not among those the cap spared
  refine or_iff_left_of_imp fun hxa => (hprior x (hmem x hxa).1).resolve_right fun hd => ?_
  exact hev (h.placed.cut x hd)

theorem untouched_step (s : NotificationStore) (e : StoreEvent) (h : s.Books) (hc : s.Careful e) : s.Untouched e := by
  intro hinit x hx hev
  cases e with
  | enqueue spec =>
    have hne : s.created.length ≠ x.id := fun he => hx (congrArg some he)
    exact ⟨mem_of_perm (perm_append_singleton _ _) hne, Iff.rfl⟩
  | enqueueIdempotent spec ingress =>
    have hne : s.created.length ≠ x.id := fun he => hx (congrArg some he)
    simp only [step, enqueueIdempotent]
    split
    · exact ⟨Iff.rfl, Iff.rfl⟩
    · exact ⟨mem_of_perm (perm_append_singleton _ _) hne, Iff.rfl⟩
  | markSent id deliveredAt =>
    have hne : id ≠ x.id := fun he => hx (congrArg some he)
    simp only [step, markSent] at hev ⊢
    split at hev
    · exact ⟨Iff.rfl, Iff.rfl⟩
    · next idx item hl => exact untouched_finish (lookup_some hl).1 _ ((lookup_some hl).2 ▸ hne) hev
  | recordFailure id lastError terminal =>
    have hne : id ≠ x.id := fun he => hx (congrArg some he)
    simp only [step, recordFailure] at hev ⊢
    split at hev
    · exact ⟨Iff.rfl, Iff.rfl⟩
    next idx item hl =>
    obtain ⟨hidx, hid⟩ := lookup_some hl
    cases terminal with
    | true => exact untouched_finish hidx _ (hid ▸ hne) hev
    | false => exact ⟨mem_set_of_ne hidx (hid ▸ hne) (hid ▸ hne), Iff.rfl⟩
  | recordAction id taken =>
    have hne : id ≠ x.id := fun he => hx (congrArg some he)
    simp only [step, recordAction]
    split
    · next idx existing hl =>
      obtain ⟨hidx, hid⟩ := lookup_some hl
      split
      · exact ⟨Iff.rfl, Iff.rfl⟩
      · exact ⟨mem_set_of_ne hidx (hid ▸ hne) (hid ▸ hne), Iff.rfl⟩
    · split
      · next idx existing hl =>
        obtain ⟨hidx, hid⟩ := lookup_some hl
        split
        · exact ⟨Iff.rfl, Iff.rfl⟩
        · exact ⟨Iff.rfl, mem_set_of_ne hidx (hid ▸ hne) (hid ▸ hne)⟩
      · exact ⟨Iff.rfl, Iff.rfl⟩
  | stringify f | rename f => cases f <;> exact ⟨Iff.rfl, Iff.rfl⟩
  | settle f ok =>
    cases f with
    | outbox =>
      simp only [step, settle] at hev ⊢
      split at hev
      · exact ⟨Iff.rfl, Iff.rfl⟩
      next op rest hw =>
      have hne : op.target ≠ x.id := fun he => hx (by rw [target, hw, ← he]; rfl)
      have hmem : op ∈ s.outboxFile.waiting := hw ▸ mem_cons_self
      cases op with
      | enqueue item =>
        obtain ⟨r, hr⟩ := release_eq { s with outboxFile := s.outboxFile.settle } item
        cases ok with
        | true =>
          simp only [outboxSettled, hr, if_true]
          exact ⟨trivial, trivial⟩
        | false =>
          simp only [outboxSettled, hr, Bool.false_eq_true, if_false]
          refine ⟨mem_erase_of_ne ?_, trivial⟩
          rintro rfl
          exact hne rfl
      | action idx previous updated =>
        have hid : previous.id = updated.id := h.placed.outboxOps _ hmem
        have hne' : updated.id ≠ x.id := fun he => hne (hid.trans he)
        cases ok with
        | true => exact ⟨Iff.rfl, Iff.rfl⟩
        | false =>
          have hidx : s.outbox[idx]? = some updated := hc (.action idx previous updated) (by rw [hw]; rfl)
          exact ⟨mem_assignAt_of_ne hidx hne' hne, Iff.rfl⟩
      | terminal idx item logEntry priorLog | cleanUp id | retry id => exact ⟨Iff.rfl, Iff.rfl⟩
    | log =>
      simp only [step, settle] at hev ⊢
      split at hev
      · exact ⟨Iff.rfl, Iff.rfl⟩
      next op rest hw =>
      have hne : op.target ≠ x.id := fun he => hx (by rw [target, hw, ← he]; rfl)
      have hmem : op ∈ s.logFile.waiting := hw ▸ mem_cons_self
      cases op with
      | terminal idx item logEntry priorLog =>
        cases ok with
        | true => exact ⟨Iff.rfl, Iff.rfl⟩
        | false => exact untouched_rolledBack (s := s) h hmem (hc _ (by rw [hw]; rfl)) hne hev
      | action idx previous updated =>
        have hid : previous.id = updated.id := h.placed.logOps _ hmem
        have hne' : updated.id ≠ x.id := fun he => hne (hid.trans he)
        cases ok with
        | true => exact ⟨Iff.rfl, Iff.rfl⟩
        | false =>
          have hidx : s.log[idx]? = some updated := hc (.action idx previous updated) (by rw [hw]; rfl)
          exact ⟨Iff.rfl, mem_assignAt_of_ne hidx hne' hne⟩
      | enqueue item | cleanUp id | retry id => exact ⟨Iff.rfl, Iff.rfl⟩
  | init outboxRead logRead persisted => exact absurd rfl (hinit _ _ _)

/-- In every run of careful steps what is queued is kept. -/
theorem notifications_conserved (maxRecords : ℕ) (es : List StoreEvent) (h : Run.Along step Careful (new maxRecords) es) :
    (es.foldl step (new maxRecords)).Conserved ∧ (es.foldl step (new maxRecords)).AfterRestart Conserved ∧
      Run.Along step Untouched (new maxRecords) es := by
  have hbooks : (es.foldl step (new maxRecords)).Books := Run.invariant books_step (books_new maxRecords) h
  exact ⟨hbooks.conserved, fun persisted => (books_init hbooks persisted).conserved,
    Run.along_of_invariant books_step untouched_step (books_new maxRecords) h⟩

/-- The write of the ledger that is asked for, from its content to its end. -/
def written (f : Ledger) : List StoreEvent := [.stringify f, .rename f, .settle f true]

def queued : List StoreEvent := .enqueue ⟨[], none, none⟩ :: written .outbox

def acted : StoreEvent := .recordAction 1 ⟨[], [], []⟩

/-- One is delivered and one is acted on; the process ends while the first still is in the outbox's file. -/
def deliveredThenEnded : List StoreEvent :=
  queued ++ (.enqueueIdempotent ⟨[], none, none⟩ ⟨[], []⟩ :: written .outbox) ++ (acted :: written .outbox) ++
    [.markSent 0 [], .stringify .log, .rename .log, .init true true true]

theorem notifications_conserved_delivered : (deliveredThenEnded.foldl step (new 1)).Conserved ∧
    (deliveredThenEnded.foldl step (new 1)).AfterRestart Conserved ∧ Run.Along step Untouched (new 1) deliveredThenEnded :=
  notifications_conserved 1 deliveredThenEnded (by decide)

/-- The second is queued while the delivery of the first waits for the log, and the outbox is ahead of it. -/
def queuedDuringDelivery : List StoreEvent :=
  queued ++ [.markSent 0 [], .enqueue ⟨[], none, none⟩, .stringify .outbox, .rename .outbox]

theorem outbox_ahead_of_log : ¬ (queuedDuringDelivery.foldl step (new 5)).AfterRestart Conserved := by
  intro h
  have hcount := (h true).once 0 (by decide) (by decide)
  revert hcount
  decide

/-- The action on the second fails after the first has left the outbox. -/
def actionUndone : List StoreEvent :=
  queued ++ queued ++ queued ++ [acted, .markSent 0 [], .stringify .outbox, .settle .outbox false]

/-- The third is overwritten. -/
theorem undone_in_another_place : ¬ (actionUndone.foldl step (new 5)).Conserved := by
  intro h
  have hcount := h.once 2 (by decide) (by decide)
  revert hcount
  decide

end NotificationStore

end PiWebUi.Notifications
