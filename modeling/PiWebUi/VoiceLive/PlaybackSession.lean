/-
  PiWebUi.VoiceLive.PlaybackSession — the playback of the model's speech
  (client/src/lib/voiceLive/playbackSession.ts: PlaybackPipeline).

  Accepted chunks wait in `pending` and are booked into the graph while what is booked
  runs out within `maxQueuedMs`; a timer goes on with what is left. `graph` is what the
  backend was given to play, in order: its `stopAll` only sets the gain. Beside the code's
  fields stand the accepted chunks, those dropped for the bound, with the backlog's length
  at that moment, and those that `stop` threw away.
-/

import Mathlib.Algebra.Order.Field.Rat
import PiWebUi.Lib.JsNumber

namespace PiWebUi.VoiceLive

open PiWebUi.Lib

def VOICE_PLAYBACK_RATE : ℚ := 24000

def NORMAL_VOLUME : ℚ := 1

def DUCKED_VOLUME : ℚ := 15 / 100

/-- A chunk from the server, with what `decodeOutputChunk` makes of its data. -/
structure VoiceAudioOutputChunkMessage where
  seq : ℕ
  samples : Option ℕ
  deriving DecidableEq

/-- `arrival` counts the accepted chunks. -/
structure PendingChunk where
  arrival : ℕ
  seq : ℕ
  samples : ℕ
  deriving DecidableEq

def PendingChunk.durationSeconds (chunk : PendingChunk) : ℚ := chunk.samples / VOICE_PLAYBACK_RATE

def PendingChunk.durationMs (chunk : PendingChunk) : ℚ := chunk.durationSeconds * 1000

structure BookedChunk where
  chunk : PendingChunk
  startAt : ℚ
  deriving DecidableEq

def BookedChunk.endAt (b : BookedChunk) : ℚ := b.startAt + b.chunk.durationSeconds

inductive PlaybackFaultReason
  | playbackChunkCorrupt
  | playbackSeqGap
  | playbackOverflow
  deriving DecidableEq

structure PlaybackFault where
  reason : PlaybackFaultReason
  detail : JsString
  droppedChunks : Option ℕ := none
  deriving DecidableEq

/-- What the backend's gain is told. -/
inductive Gain
  | setVolumeAt (volume atTime : ℚ)
  | setVolumeNow (volume rampSeconds : ℚ)
  | stopAll
  deriving DecidableEq

structure Overflow where
  chunk : PendingChunk
  backlogMs : ℚ
  deriving DecidableEq

structure PlaybackOptions where
  maxQueuedMs : ℚ := 2000
  maxPendingMs : ℚ := 60000
  leadSeconds : ℚ := 2 / 100
  maxQueuedMs_pos : 0 < maxQueuedMs := by decide

structure PlaybackPipeline where
  booked : List BookedChunk := []
  pending : List PendingChunk := []
  pendingMs : ℚ := 0
  /-- The delay of the timer that is armed. -/
  drainTimer : Option ℚ := none
  nextStartTime : ℚ := 0
  lastSeq : Option ℕ := none
  chunksScheduled : ℕ := 0
  chunksDropped : ℕ := 0
  lastOverflowFaultAtMs : Option ℚ := none
  lastFloorSpeaking : Bool
  /-- `floor.getState().operatorSpeaking` -/
  operatorSpeaking : Bool
  faults : List PlaybackFault := []
  gains : List Gain := []
  graph : List BookedChunk := []
  accepted : List PendingChunk := []
  overflowed : List Overflow := []
  stopped : List PendingChunk := []
  deriving DecidableEq

inductive PlaybackEvent
  | pushChunk (message : VoiceAudioOutputChunkMessage)
  | drain
  | floor (operatorSpeaking : Bool)
  | stop
  deriving DecidableEq

namespace PlaybackPipeline

variable (o : PlaybackOptions) (now : ℚ)

/-- How much booked audio is left, in ms. -/
def queuedMs (s : PlaybackPipeline) : ℚ := max 0 ((s.nextStartTime - now) * 1000)

def onFault (s : PlaybackPipeline) (fault : PlaybackFault) : PlaybackPipeline := { s with faults := s.faults ++ [fault] }

/-! ## Booking -/

def pruneFinished (s : PlaybackPipeline) : PlaybackPipeline := { s with booked := s.booked.dropWhile (·.endAt ≤ now) }

/-- The next chunk goes into the graph. -/
def book (s : PlaybackPipeline) (next : PendingChunk) : PlaybackPipeline :=
  let startAt := max (now + o.leadSeconds) s.nextStartTime
  { s with
    pendingMs := s.pendingMs - next.durationSeconds * 1000
    gains := s.gains ++ [.setVolumeAt (if s.operatorSpeaking then DUCKED_VOLUME else NORMAL_VOLUME) startAt]
    graph := s.graph ++ [⟨next, startAt⟩]
    booked := s.booked ++ [⟨next, startAt⟩]
    nextStartTime := startAt + next.durationSeconds
    chunksScheduled := s.chunksScheduled + 1 }

/-- The loop of `pump` over what is pending, with the number of chunks it has booked. -/
def bookPending : List PendingChunk → PlaybackPipeline → ℕ → PlaybackPipeline × ℕ
  | [], s, booked => ({ s with pending := [] }, booked)
  | next :: rest, s, booked =>
    if o.maxQueuedMs ≤ s.queuedMs now then ({ s with pending := next :: rest }, booked)
    else bookPending rest (s.book o now next) (booked + 1)

def scheduleDrain (s : PlaybackPipeline) (booked : ℕ) : PlaybackPipeline :=
  if s.drainTimer.isSome then s
  else if s.pending = [] then s
  else
    let excessMs := max 0 (s.queuedMs now - o.maxQueuedMs)
    { s with drainTimer := some (if 0 < booked then min 1000 (max 5 (excessMs + 5)) else 250) }

def pump (s : PlaybackPipeline) : PlaybackPipeline :=
  let r := bookPending o now s.pending (s.pruneFinished now) 0
  { r.1 with pendingMs := max 0 r.1.pendingMs }.scheduleDrain o now r.2

/-! ## Calls -/

/-- The oldest chunk is dropped; one fault a second says so. -/
def dropOldest (s : PlaybackPipeline) (dropped : PendingChunk) : PlaybackPipeline :=
  let s : PlaybackPipeline := { s with
    pendingMs := s.pendingMs - dropped.durationMs
    chunksDropped := s.chunksDropped + 1
    overflowed := s.overflowed ++ [⟨dropped, s.pendingMs⟩] }
  let nowMs := now * 1000
  if s.lastOverflowFaultAtMs.all fun last => 1000 ≤ nowMs - last then
    { s with lastOverflowFaultAtMs := some nowMs }.onFault
      { reason := .playbackOverflow
        detail := js "playback backlog exceeded its bound; the oldest unplayed chunk was dropped"
        droppedChunks := some s.chunksDropped }
  else s

/-- The loop of `pushChunk` over what is pending. -/
def trimPending : List PendingChunk → PlaybackPipeline → PlaybackPipeline
  | dropped :: next :: rest, s =>
    if o.maxPendingMs < s.pendingMs then trimPending (next :: rest) (s.dropOldest now dropped)
    else { s with pending := dropped :: next :: rest }
  | pending, s => { s with pending }

def noteSeq (s : PlaybackPipeline) (seq : ℕ) : PlaybackPipeline :=
  let s' := { s with lastSeq := some seq }
  match s.lastSeq with
  | none => s'
  | some last =>
    if seq ≠ last + 1 then
      s'.onFault
        { reason := .playbackSeqGap
          detail := js "expected seq " ++ JsNumber.natText (last + 1) ++ js ", received " ++ JsNumber.natText seq }
    else s'

def accept (s : PlaybackPipeline) (chunk : PendingChunk) : PlaybackPipeline :=
  { s with
    pending := s.pending ++ [chunk]
    pendingMs := s.pendingMs + chunk.durationMs
    accepted := s.accepted ++ [chunk] }

/-- The number of samples of a chunk that is not refused. -/
def decoded (message : VoiceAudioOutputChunkMessage) : Option ℕ := message.samples.filter (0 < ·)

def pushChunk (s : PlaybackPipeline) (message : VoiceAudioOutputChunkMessage) : PlaybackPipeline :=
  match decoded message with
  | none =>
    { s with chunksDropped := s.chunksDropped + 1 }.onFault
      { reason := .playbackChunkCorrupt
        detail := js "refused a voice_audio_chunk chunk (mime/encoding/ceiling)" }
  | some samples =>
    let chunk := { arrival := s.accepted.length, seq := message.seq, samples }
    let s := (s.noteSeq message.seq).accept chunk
    (trimPending o now s.pending s).pump o now

/-- The timer fires. -/
def drain (s : PlaybackPipeline) : PlaybackPipeline :=
  if s.drainTimer.isSome then { s with drainTimer := none }.pump o now else s

/-- The floor changes, which its subscriber hears of. -/
def setFloor (s : PlaybackPipeline) (speaking : Bool) : PlaybackPipeline :=
  let s := { s with operatorSpeaking := speaking }
  if speaking = s.lastFloorSpeaking then s
  else
    { s with
      lastFloorSpeaking := speaking
      gains := if speaking then s.gains ++ [.setVolumeNow DUCKED_VOLUME (1 / 100)] else s.gains }

def stop (s : PlaybackPipeline) : PlaybackPipeline :=
  { s with
    drainTimer := none
    gains := s.gains ++ [.stopAll]
    booked := []
    stopped := s.stopped ++ s.pending
    pending := []
    pendingMs := 0
    nextStartTime := 0
    lastSeq := none }

def step (s : PlaybackPipeline) : PlaybackEvent → PlaybackPipeline
  | .pushChunk message => s.pushChunk o now message
  | .drain => s.drain o now
  | .floor speaking => s.setFloor speaking
  | .stop => s.stop

def new (operatorSpeaking : Bool) : PlaybackPipeline :=
  { lastFloorSpeaking := operatorSpeaking
    operatorSpeaking }

end PlaybackPipeline

/-! ## Runs in time -/

/-- What happens, and the backend's clock at it. -/
structure Timeline where
  operatorSpeaking : Bool
  event : ℕ → PlaybackEvent
  clock : ℕ → ℚ
  clock_nonneg : ∀ n, 0 ≤ clock n
  clock_mono : Monotone clock

/-- The pipeline before the event. -/
def Timeline.run (t : Timeline) (o : PlaybackOptions) : ℕ → PlaybackPipeline
  | 0 => .new t.operatorSpeaking
  | n + 1 => (t.run o n).step o (t.clock n) (t.event n)

end PiWebUi.VoiceLive
