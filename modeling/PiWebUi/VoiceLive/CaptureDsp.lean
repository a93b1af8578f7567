/-
  PiWebUi.VoiceLive.CaptureDsp — what the microphone's samples go through before they are
  sent (client/src/lib/voiceLive/captureDsp.ts): the resampler, the voice-activity
  detector and the framing.

  Samples and positions are rationals. A block is resampled against the last sample of the
  block before it; positions are those of the whole input, so that the phase goes on from
  block to block. A read outside of `stream` is `none`, and then so is the call.
-/

import Mathlib.Data.Rat.Floor
import Mathlib.Algebra.Order.Floor.Ring
import Mathlib.Algebra.Order.Field.Rat
import Mathlib.Data.PNat.Defs
import PiWebUi.Lib.JsNumber

namespace PiWebUi.VoiceLive

open PiWebUi.Lib

/-! ## Resampling -/

abbrev Rate := {q : ℚ // 0 < q}

structure ResamplerState where
  prev : ℚ
  /-- The position of the next output in the whole input. -/
  nextIndex : ℚ
  /-- The position of the next block's first sample. -/
  consumed : ℕ
  started : Bool
  inputRate : Rate
  outputRate : Rate

def createResamplerState (inputRate outputRate : Rate) : ResamplerState where
  prev := 0
  nextIndex := 0
  consumed := 0
  started := false
  inputRate
  outputRate

def ResamplerState.ratio (s : ResamplerState) : Rate := ⟨s.inputRate / s.outputRate, div_pos s.inputRate.2 s.outputRate.2⟩

/-- `stream[i]` -/
def readAt (stream : List ℚ) (i : ℤ) : Option ℚ := if 0 ≤ i then stream[i.toNat]? else none

/-- The output at a place of the stream: at its last sample there is none to the right. -/
def outputAt (stream : List ℚ) (place : ℚ) : Option ℚ := do
  let index := ⌊place⌋
  let frac := place - index
  let here ← readAt stream index
  let next ← readAt stream (if index + 1 < stream.length then index + 1 else index)
  return here * (1 - frac) + next * frac

/-- How many positions are left. -/
def left (ratio : Rate) (lastAvailable x : ℚ) : ℕ := (⌊(lastAvailable - x) / ratio⌋ + 1).toNat

theorem left_succ (ratio : Rate) {lastAvailable x : ℚ} (h : x ≤ lastAvailable) :
    left ratio lastAvailable x = left ratio lastAvailable (x + ratio) + 1 := by
  have hratio : (ratio : ℚ) ≠ 0 := ratio.2.ne'
  have hstep : (lastAvailable - (x + ratio)) / (ratio : ℚ) = (lastAvailable - x) / ratio - 1 := by
    field_simp
    ring
  have hfloor : 0 ≤ ⌊(lastAvailable - x) / (ratio : ℚ)⌋ := Int.floor_nonneg.mpr (div_nonneg (sub_nonneg.mpr h) ratio.2.le)
  rw [left, left, hstep, Int.floor_sub_one]
  omega

/-- The outputs of a block from the position `x`, and the position after them. -/
def outputs (stream : List ℚ) (ratio : Rate) (blockStart : ℕ) (lastAvailable x : ℚ) : Option (List ℚ × ℚ) :=
  if _h : x ≤ lastAvailable then do
    let y ← outputAt stream (x - blockStart + 1)
    let (ys, after) ← outputs stream ratio blockStart lastAvailable (x + ratio)
    return (y :: ys, after)
  else some ([], x)
termination_by left ratio lastAvailable x
decreasing_by
  rw [left_succ ratio _h]
  exact Nat.lt_succ_self _

/-- `resampleMono`: the outputs of a block, and the state after it. -/
def resampleMono (input : List ℚ) (s : ResamplerState) : Option (List ℚ × ResamplerState) :=
  match input with
  | [] => some ([], s)
  | first :: rest => do
    let stream := (if s.started then s.prev else first) :: first :: rest
    let lastAvailable : ℚ := s.consumed + (first :: rest).length - 1
    let (out, x) ← outputs stream s.ratio s.consumed lastAvailable s.nextIndex
    return (out, {
      s with
      prev := (first :: rest).getLast (List.cons_ne_nil _ _)
      nextIndex := x
      consumed := s.consumed + (first :: rest).length
      started := true })

/-- One block after another. -/
def resampleBlocks : List (List ℚ) → ResamplerState → Option (List (List ℚ) × ResamplerState)
  | [], s => some ([], s)
  | block :: blocks, s => do
    let (out, s) ← resampleMono block s
    let (outs, s) ← resampleBlocks blocks s
    return (out :: outs, s)

/-! ## Voice activity -/

inductive VoiceActivityTransition where
  | speech_start
  | speech_end
  deriving DecidableEq, Repr

structure VoiceActivityOptions where
  startRms : JsNumber := .fin (2 / 100)
  endRms : JsNumber := .fin (12 / 1000)
  attackFrames : JsNumber := .fin 2
  hangoverFrames : JsNumber := .fin 25

structure VoiceActivityDetector where
  above : ℕ := 0
  below : ℕ := 0
  speakingNow : Bool := false

/-- One frame's energy; the transition that the frame completed. -/
def VoiceActivityDetector.push (o : VoiceActivityOptions) (d : VoiceActivityDetector) (rms : JsNumber) :
    Option VoiceActivityTransition × VoiceActivityDetector :=
  if !d.speakingNow then
    let above := if o.startRms.le rms then d.above + 1 else 0
    if o.attackFrames.le (.fin above) then
      (some .speech_start, { above := 0, below := if rms.lt o.endRms then 1 else 0, speakingNow := true })
    else (none, { d with above })
  else
    let below := if rms.lt o.endRms then d.below + 1 else 0
    if o.hangoverFrames.le (.fin below) then (some .speech_end, { above := 0, below := 0, speakingNow := false })
    else (none, { d with below })

/-- The transitions of a run. -/
def transitions (o : VoiceActivityOptions) : VoiceActivityDetector → List JsNumber → List VoiceActivityTransition
  | _, [] => []
  | d, rms :: frames => (d.push o rms).1.toList ++ transitions o (d.push o rms).2 frames

/-! ## Frames -/

structure FrameAccumulator where
  frameSamples : ℕ+
  pending : List ℚ := []

/-- The whole frames of a text of samples, and what is left of it. -/
def takeFrames (frameSamples : ℕ+) (joined : List ℚ) : List (List ℚ) × List ℚ :=
  if frameSamples ≤ joined.length then
    let rest := takeFrames frameSamples (joined.drop frameSamples)
    (joined.take frameSamples :: rest.1, rest.2)
  else ([], joined)
termination_by joined.length
decreasing_by
  have := frameSamples.pos
  rw [List.length_drop]
  omega

def FrameAccumulator.push (a : FrameAccumulator) (samples : List ℚ) : List (List ℚ) × FrameAccumulator :=
  if samples = [] then ([], a)
  else
    let (frames, pending) := takeFrames a.frameSamples (a.pending ++ samples)
    (frames, { a with pending })

/-- The tail, padded with zeros to a frame. -/
def FrameAccumulator.flushPadded (a : FrameAccumulator) : Option (List ℚ) × FrameAccumulator :=
  if a.pending = [] then (none, a)
  else (some (a.pending ++ List.replicate (a.frameSamples - a.pending.length) 0), { a with pending := [] })

/-- One call of `push` after another. -/
def FrameAccumulator.pushAll (a : FrameAccumulator) : List (List ℚ) → List (List ℚ) × FrameAccumulator
  | [] => ([], a)
  | samples :: rest => ((a.push samples).1 ++ ((a.push samples).2.pushAll rest).1, ((a.push samples).2.pushAll rest).2)

end PiWebUi.VoiceLive
