/-
  PiWebUi.WebSocket.OutboundGovernor — the frames to one browser socket
  (server/src/websocket/outbound-governor.ts).

  A frame goes to the socket at once, after what is queued, or where it may wait is queued
  while the socket is backpressured; a client that stays behind is closed. Each call reads
  the socket once (`readyState`, `bufferedAmount`), and `ws.send` may throw at any of its
  writes: `throwsAt` counts the writes of a call up to that one.
-/

import PiWebUi.Lib.JsString
import PiWebUi.Lib.JsNumber
import PiWebUi.Lib.Run

namespace PiWebUi.WebSocket

open PiWebUi.Lib List

structure OutboundGovernorOptions where
  softCapBytes : Option JsNumber := none
  hardCapBytes : Option JsNumber := none
  pendingMaxBytes : Option JsNumber := none
  lowWaterBytes : Option JsNumber := none

namespace OutboundGovernorOptions

variable (o : OutboundGovernorOptions)

def softCap : JsNumber := (JsNumber.fin 0).max (o.softCapBytes.getD (.fin (4 * 1024 * 1024)))

def hardCap : JsNumber := (JsNumber.fin 1).max (o.hardCapBytes.getD (.fin (16 * 1024 * 1024)))

def pendingMax : JsNumber := (JsNumber.fin 1).max (o.pendingMaxBytes.getD (.fin (8 * 1024 * 1024)))

def lowWater : JsNumber := (JsNumber.fin 0).max (o.lowWaterBytes.getD (.fin (256 * 1024)))

end OutboundGovernorOptions

inductive SendResult where
  | sent
  | queued
  | closed
  deriving DecidableEq

/-- What a call finds of the socket, and the write at which `ws.send` throws. -/
structure Socket where
  isOpen : Bool := true
  bufferedAmount : JsNumber := .fin 0
  throwsAt : Option ℕ := none

structure PendingState where
  queue : List JsString := []
  queuedBytes : ℕ := 0
  closed : Bool := false
  written : List JsString := []
  accepted : List JsString := []
  deriving DecidableEq

namespace PendingState

variable (o : OutboundGovernorOptions)

def pendingFrames (s : PendingState) : ℕ := s.queue.length

def pendingBytes (s : PendingState) : ℕ := s.queuedBytes

/-- The writes of the queue reach the one that throws. -/
def breaksOff (s : PendingState) (ws : Socket) : Option ℕ := ws.throwsAt.filter (· < s.queue.length)

/-- The queue is written; where `ws.send` throws it stays as it is. -/
def drain (s : PendingState) (ws : Socket) : PendingState :=
  match s.breaksOff ws with
  | some k => { s with written := s.written ++ s.queue.take k }
  | none => { s with written := s.written ++ s.queue, queue := [], queuedBytes := 0 }

def closeSlow (s : PendingState) : PendingState := { s with closed := true, queue := [], queuedBytes := 0 }

def flushPending (s : PendingState) (ws : Socket) : PendingState :=
  if s.closed || s.queue = [] then s
  else if !ws.isOpen || o.lowWater.lt ws.bufferedAmount then s
  else s.drain ws

/-- `none`: it throws. -/
def send (s : PendingState) (ws : Socket) (serialized : JsString) (coalescable : Bool) : PendingState × Option SendResult :=
  if s.closed || !ws.isOpen then (s, some .closed)
  else if o.hardCap.lt ws.bufferedAmount then (s.closeSlow, some .closed)
  else if coalescable && o.softCap.lt ws.bufferedAmount then
    let queued := { s with queue := s.queue ++ [serialized], queuedBytes := s.queuedBytes + utf8Length serialized }
    if o.pendingMax.lt (.fin queued.queuedBytes) then (queued.closeSlow, some .closed)
    else ({ queued with accepted := s.accepted ++ [serialized] }, some .queued)
  else
    match s.breaksOff ws with
    | some _ => (s.drain ws, none)
    | none =>
      -- the write of the frame follows those of the queue
      if ws.throwsAt = some s.queue.length then (s.drain ws, none)
      else ({ s.drain ws with written := (s.drain ws).written ++ [serialized], accepted := s.accepted ++ [serialized] }, some .sent)

end PendingState

inductive Call where
  | send (ws : Socket) (serialized : JsString) (coalescable : Bool)
  | flushPending (ws : Socket)

def step (o : OutboundGovernorOptions) (s : PendingState) : Call → PendingState
  | .send ws serialized coalescable => (s.send o ws serialized coalescable).1
  | .flushPending ws => s.flushPending o ws

/-! ## What a call does -/

def Call.socket : Call → Socket
  | .send ws _ _ | .flushPending ws => ws

/-- The call writes what is queued. -/
def drains (o : OutboundGovernorOptions) (s : PendingState) : Call → Bool
  | .send ws _ coalescable =>
    !s.closed && ws.isOpen && !o.hardCap.lt ws.bufferedAmount && !(coalescable && o.softCap.lt ws.bufferedAmount)
  | .flushPending ws => !s.closed && ws.isOpen && !o.lowWater.lt ws.bufferedAmount

/-- Where the call writes what is queued and `ws.send` throws, it does at the first frame or
    after the last. -/
def drainsWhole (o : OutboundGovernorOptions) (s : PendingState) (call : Call) : Bool :=
  !drains o s call || (s.breaksOff call.socket).all (· = 0)

inductive Does (o : OutboundGovernorOptions) (s : PendingState) (call : Call) (s' : PendingState) : Prop where
  | nothing (eq : s' = s)
  | closes (eq : s' = s.closeSlow)
  | queues (frame : JsString) (isOpen : s.closed = false)
      (bounded : o.pendingMax.lt (.fin ((s.queuedBytes + utf8Length frame : ℕ) : ℚ)) = false)
      (eq : s' = { s with
        queue := s.queue ++ [frame]
        queuedBytes := s.queuedBytes + utf8Length frame
        accepted := s.accepted ++ [frame] })
  | writes (frames : List JsString) (isOpen : s.closed = false)
      (eq : s' = { s with
        written := s.written ++ s.queue ++ frames
        queue := []
        queuedBytes := 0
        accepted := s.accepted ++ frames })
  | breaksOff (k : ℕ) (isOpen : s.closed = false) (drains : drains o s call = true) (breaksOff : s.breaksOff call.socket = some k)
      (eq : s' = { s with written := s.written ++ s.queue.take k })

section

variable {o : OutboundGovernorOptions} {s : PendingState} {ws : Socket}

theorem drain_some {k : ℕ} (h : s.breaksOff ws = some k) : s.drain ws = { s with written := s.written ++ s.queue.take k } := by
  rw [PendingState.drain, h]

theorem drain_none (h : s.breaksOff ws = none) :
    s.drain ws = { s with written := s.written ++ s.queue, queue := [], queuedBytes := 0 } := by
  rw [PendingState.drain, h]

/-- The queue is written and no frame after it. -/
theorem does_drain {k : Call} (hopen : s.closed = false) (hdrains : drains o s k = true) : Does o s k (s.drain k.socket) := by
  cases h : s.breaksOff k.socket with
  | some n => exact .breaksOff n hopen hdrains h (drain_some h)
  | none =>
    refine .writes [] hopen ?_
    rw [drain_none h, append_nil, append_nil]

theorem does_send (frame : JsString) (coalescable : Bool) :
    Does o s (.send ws frame coalescable) (step o s (.send ws frame coalescable)) := by
  simp only [step, PendingState.send]
  split
  · exact .nothing rfl
  next hshut =>
    rw [Bool.or_eq_true, not_or, Bool.not_eq_true, Bool.not_eq_true', Bool.not_eq_false] at hshut
    split
    · exact .closes rfl
    next hhard =>
      split
      next hwaits =>
        split
        · exact .closes rfl
        next hbound => exact .queues frame hshut.1 (Bool.not_eq_true _ |>.mp hbound) rfl
      next hwaits =>
        have hdrains : drains o s (.send ws frame coalescable) = true := by
          rw [drains, hshut.1, hshut.2, Bool.not_eq_true _ |>.mp hhard, Bool.not_eq_true _ |>.mp hwaits]
          rfl
        split
        · exact does_drain (k := .send ws frame coalescable) hshut.1 hdrains
        next hwhole =>
          split
          · exact does_drain (k := .send ws frame coalescable) hshut.1 hdrains
          · refine .writes [frame] hshut.1 ?_
            rw [drain_none hwhole]

theorem does_flush : Does o s (.flushPending ws) (step o s (.flushPending ws)) := by
  simp only [step, PendingState.flushPending]
  split
  · exact .nothing rfl
  next hempty =>
    rw [Bool.or_eq_true, not_or, Bool.not_eq_true] at hempty
    split
    · exact .nothing rfl
    next hlow =>
      rw [Bool.or_eq_true, not_or, Bool.not_eq_true', Bool.not_eq_false, Bool.not_eq_true] at hlow
      refine does_drain (k := .flushPending ws) hempty.1 ?_
      rw [drains, hempty.1, hlow.1, hlow.2]
      rfl

theorem does (call : Call) : Does o s call (step o s call) := by
  cases call with
  | send ws frame coalescable => exact does_send frame coalescable
  | flushPending ws => exact does_flush

/-! ## Bytes -/

def queueBytes (queue : List JsString) : ℕ := (queue.map utf8Length).sum

/-- The bytes that wait are those of the queue, within the bound. -/
structure Counted (o : OutboundGovernorOptions) (s : PendingState) : Prop where
  bytes : s.pendingBytes = queueBytes s.queue
  bounded : o.pendingMax.lt (.fin (s.pendingBytes : ℚ)) = false

theorem not_pendingMax_lt_zero : o.pendingMax.lt (.fin ((0 : ℕ) : ℚ)) = false := by
  have hmax : o.pendingMax.lt (.fin 1) = false := JsNumber.not_max_lt _ _
  exact JsNumber.not_lt_of_le (n := 1) (by omega) (by exact_mod_cast hmax)

theorem counted_step (h : Counted o s) (call : Call) : Counted o (step o s call) := by
  cases does call with
  | nothing eq => exact eq ▸ h
  | closes eq | writes frames isOpen eq => exact eq ▸ ⟨rfl, not_pendingMax_lt_zero⟩
  | queues frame isOpen bounded eq =>
    rw [eq]
    refine ⟨?_, bounded⟩
    have hbytes : s.queuedBytes = queueBytes s.queue := h.bytes
    show s.queuedBytes + utf8Length frame = queueBytes (s.queue ++ [frame])
    rw [queueBytes, map_append, sum_append, hbytes]
    rfl
  | breaksOff k isOpen drains breaksOff eq => exact eq ▸ ⟨h.bytes, h.bounded⟩

/-! ## After a close -/

theorem closed_step (h : s.closed = true) (call : Call) : step o s call = s := by
  cases call with
  | send ws frame coalescable => simp [step, PendingState.send, h]
  | flushPending ws => simp [step, PendingState.flushPending, h]

theorem closed_run (h : s.closed = true) (more : List Call) : more.foldl (step o) s = s := by
  induction more with
  | nil => rfl
  | cons call more ih => rw [foldl_cons, closed_step h, ih]

/-! ## Frames in order, each once -/

/-- What the socket took, and then the queue, are the frames that were not refused, until the
    client is closed. -/
def InOrder (s : PendingState) : Prop := s.closed = false → s.written ++ s.queue = s.accepted

theorem inOrder_of_whole (h : InOrder s) {call : Call} (hwhole : drainsWhole o s call = true) : InOrder (step o s call) := by
  intro hstill
  cases does (o := o) (s := s) call with
  | nothing eq =>
    rw [eq] at hstill ⊢
    exact h hstill
  | closes eq =>
    rw [eq] at hstill
    cases hstill
  | queues frame isOpen bounded eq =>
    rw [eq]
    show s.written ++ (s.queue ++ [frame]) = s.accepted ++ [frame]
    rw [← append_assoc, h isOpen]
  | writes frames isOpen eq =>
    rw [eq]
    show s.written ++ s.queue ++ frames ++ [] = s.accepted ++ frames
    rw [append_nil, h isOpen]
  | breaksOff k isOpen drains breaksOff eq =>
    have hzero : k = 0 := by simpa [drainsWhole, drains, breaksOff] using hwhole
    rw [eq, hzero]
    show s.written ++ [] ++ s.queue = s.accepted
    rw [append_nil, h isOpen]

theorem step_breaksOff {call : Call} {k : ℕ} (hdrains : drains o s call = true) (h : s.breaksOff call.socket = some k) :
    s.closed = false ∧ step o s call = { s with written := s.written ++ s.queue.take k } := by
  have hqueue : s.queue ≠ [] := by
    intro hnone
    rw [PendingState.breaksOff, hnone, Option.filter_eq_some_iff] at h
    exact absurd h.2 (by simp)
  cases call with
  | send ws frame coalescable =>
    simp only [drains, Bool.and_eq_true, Bool.not_eq_true'] at hdrains
    obtain ⟨⟨⟨hclosed, hopen⟩, hhard⟩, hwaits⟩ := hdrains
    refine ⟨hclosed, ?_⟩
    have hdrain := drain_some h
    simp only [Call.socket] at h hdrain
    simp only [step, PendingState.send, hclosed, hopen, hhard, hwaits, h, hdrain, Bool.not_true, Bool.or_false, Bool.false_eq_true,
      if_false]
  | flushPending ws =>
    simp only [drains, Bool.and_eq_true, Bool.not_eq_true'] at hdrains
    obtain ⟨⟨hclosed, hopen⟩, hlow⟩ := hdrains
    refine ⟨hclosed, ?_⟩
    have hdrain := drain_some h
    simp only [Call.socket] at hdrain
    simp only [step, PendingState.flushPending, hclosed, hopen, hlow, hdrain, hqueue, decide_false, Bool.not_true, Bool.or_false,
      Bool.false_eq_true, if_false]

/-- A call keeps the order where it writes the whole queue or none of it, and only there:
    what it wrote before `ws.send` threw would be written again. -/
theorem inOrder_step_iff (h : InOrder s) (call : Call) : InOrder (step o s call) ↔ drainsWhole o s call = true := by
  constructor
  · intro hafter
    by_contra hbroken
    rw [drainsWhole, Bool.or_eq_true, not_or, Bool.not_eq_true', Bool.not_eq_false, Option.all_eq_true] at hbroken
    obtain ⟨hdrains, hk⟩ := hbroken
    cases hbreak : s.breaksOff call.socket with
    | none => exact hk fun k hsome => by rw [hbreak] at hsome; cases hsome
    | some k =>
      obtain ⟨hopen, heq⟩ := step_breaksOff hdrains hbreak
      rw [heq] at hafter
      have hnow : s.written ++ s.queue.take k ++ s.queue = s.accepted := hafter hopen
      have hlength := congrArg List.length hnow
      rw [← h hopen] at hlength
      have hlt : k < s.queue.length := by
        rw [PendingState.breaksOff, Option.filter_eq_some_iff] at hbreak
        exact of_decide_eq_true hbreak.2
      simp only [length_append, length_take] at hlength
      apply hk
      intro k' hsome
      rw [hbreak] at hsome
      cases hsome
      exact decide_eq_true (by omega)
  · exact fun hwhole => inOrder_of_whole h hwhole

theorem le_of_not_lt {x : JsNumber} {n : ℕ} (hx : x ≠ .nan) (h : x.lt (.fin (n : ℚ)) = false) : (JsNumber.fin (n : ℚ)).le x = true := by
  cases x with
  | nan => exact absurd rfl hx
  | negInf => cases h
  | posInf => rfl
  | fin q =>
    simp only [JsNumber.lt, decide_eq_false_iff_not, not_lt] at h
    rcases lt_or_eq_of_le h with hlt | heq
    · simp [JsNumber.le, JsNumber.lt, hlt]
    · simp [JsNumber.le, heq]

end

/-- Frames are in order, each once; the bytes that wait are counted and bounded; and after a
    close nothing is written. -/
structure Governed (o : OutboundGovernorOptions) (s : PendingState) : Prop where
  inOrder : s.closed = false → s.written ++ s.queue = s.accepted
  bytes : s.pendingBytes = queueBytes s.queue
  bounded : o.pendingMax ≠ .nan → (JsNumber.fin (s.pendingBytes : ℚ)).le o.pendingMax = true
  silent : s.closed = true → ∀ more : List Call, (more.foldl (step o) s).written = s.written

theorem governed_iff (o : OutboundGovernorOptions) (calls : List Call) :
    (∀ done, done <+: calls → Governed o (done.foldl (step o) {})) ↔
      Run.Along (step o) (fun s call => drainsWhole o s call = true) {} calls := by
  have hempty : Counted o {} := ⟨rfl, not_pendingMax_lt_zero⟩
  have hcounted : ∀ done : List Call, Counted o (done.foldl (step o) {}) := fun done =>
    Run.invariant_all (I := Counted o) (fun _ call h => counted_step h call) hempty done
  have hstart : InOrder {} := fun _ => rfl
  have hinOrder : Run.Along (step o) (fun s call => InOrder (step o s call)) {} calls ↔
      Run.Along (step o) (fun s call => drainsWhole o s call = true) {} calls :=
    Run.along_iff_of_invariant (I := InOrder) (fun s call h hwhole => inOrder_of_whole h hwhole)
      (fun s call h => inOrder_step_iff h call) hstart
  rw [← hinOrder, Run.along_after_iff hstart]
  constructor
  · exact fun h done hdone => (h done hdone).inOrder
  · intro h done hdone
    refine ⟨h done hdone, (hcounted done).bytes, fun hnan => le_of_not_lt hnan (hcounted done).bounded, ?_⟩
    intro hclosed more
    rw [closed_run hclosed]

/-- Two frames wait; `ws.send` throws at the second of them, and both are written again. -/
def brokenOff : List Call :=
  [.send { bufferedAmount := .fin (5 * 1024 * 1024) } (js "a") true, .send { bufferedAmount := .fin (5 * 1024 * 1024) } (js "b") true,
    .flushPending { throwsAt := some 1 }, .flushPending {}]

theorem written_twice : (brokenOff.foldl (step {}) {}).closed = false ∧ (brokenOff.foldl (step {}) {}).accepted = [js "a", js "b"] ∧
      (brokenOff.foldl (step {}) {}).written = [js "a", js "a", js "b"] ∧ (brokenOff.foldl (step {}) {}).queue = [] := by
  decide +kernel

end PiWebUi.WebSocket
