/-
  PiWebUi.Goal.ContinueMarker — the once-markers of automatic continues (continue-marker.ts).

  A marker is a file named after its session and the fingerprint of its goal, the hash of
  objective and start. `claim` creates it exclusively, `commit` marks the continue delivered
  (count 1), `confirm` verified, `release` removes a claim that was refused, and
  `pruneOtherFingerprints` removes the markers of the session's other goals. A file that is
  not a marker (created and not yet written, or half written) reads as none, and cannot be
  claimed.
-/

import PiWebUi.Lib.JsNumber
import PiWebUi.Lib.JsMap

namespace PiWebUi.Goal

open Lib

inductive InterruptionCause where
  | restart_interruption
  | rehydrate_pause
  | provider_abort
  | second_transient
  | limit
  | question
  | unsupported_runtime
  | continue_failed
  deriving DecidableEq

inductive InterruptionSource where
  | receipt
  | drain
  | boot_orphan
  | rehydrate_pause
  | provider_abort
  deriving DecidableEq

inductive ContinueMarkerState where
  | claimed
  | delivered
  | confirmed
  deriving DecidableEq

structure ContinueMarker where
  sessionId : JsString
  fingerprint : JsString
  cause : InterruptionCause
  source : InterruptionSource
  /-- 0 = claimed, 1 = dispatched. -/
  count : ℕ
  claimedAt : ℕ
  continuedAt : Option ℕ := none
  state : ContinueMarkerState
  deriving DecidableEq

/-- What a marker file holds; `torn` is anything that `readMarker` does not accept. -/
inductive MarkerFile where
  | marker (m : ContinueMarker)
  | torn
  deriving DecidableEq

abbrev MarkerDir := JsMap JsString MarkerFile

section Names

variable (sha256 : JsString → JsString)

def goalFingerprint (objective : Option JsString) (startedAt : Option JsNumber) : JsString :=
  sha256 (objective.getD [] ++ newline :: ((startedAt.map JsNumber.toText).getD []))

end Names

def isSafeUnit (u : UInt16) : Bool :=
  (65 ≤ u && u ≤ 90) || (97 ≤ u && u ≤ 122) || isDigit u || u = unit '.' || u = unit '_' || u = unit '-'

def safeName (part : JsString) : JsString :=
  (part.map fun u => if isSafeUnit u then u else unit '_').take 120

def jsonSuffix : JsString := js ".json"

def markerPath (sessionId fingerprint : JsString) : JsString :=
  safeName sessionId ++ unit '.' :: (fingerprint.take 16 ++ jsonSuffix)

def readMarker (dir : MarkerDir) (file : JsString) : Option ContinueMarker :=
  match dir.get file with
  | some (.marker m) => some m
  | _ => none

/-- What `claim` writes into the file it has created. -/
def claimed (sessionId fingerprint : JsString) (cause : InterruptionCause) (source : InterruptionSource) (now : ℕ) :
    ContinueMarker :=
  { sessionId, fingerprint, cause, source, count := 0, claimedAt := now, state := .claimed }

/-- What `commit` writes, if it writes. -/
def committed (m : ContinueMarker) (now : ℕ) : Option ContinueMarker :=
  if 1 ≤ m.count ∧ m.state = .delivered then none
  else some { m with count := 1, continuedAt := some (m.continuedAt.getD now), state := .delivered }

/-- What `confirm` writes, if it writes. -/
def confirmed (m : ContinueMarker) (now : ℕ) : Option ContinueMarker :=
  if m.state = .confirmed then none
  else some { m with count := max m.count 1, continuedAt := some (m.continuedAt.getD now), state := .confirmed }

def releasable (m : ContinueMarker) : Bool := !(1 ≤ m.count || m.state = .confirmed)

/-- The files that `listForSession` reads. -/
def sessionFiles (dir : MarkerDir) (sessionId : JsString) : List JsString :=
  dir.keys.filter fun f => (safeName sessionId ++ [unit '.']).isPrefixOf f && jsonSuffix.isSuffixOf f

/-! ## Names -/

/-- An id that is its own file name. -/
def SafeId (sessionId : JsString) : Prop := safeName sessionId = sessionId

instance (sessionId : JsString) : Decidable (SafeId sessionId) := inferInstanceAs (Decidable (_ = _))

/-- Sessions with safe ids share no marker file. -/
theorem markerPath_inj {s t f g : JsString} (hs : SafeId s) (ht : SafeId t) (hf : 16 ≤ f.length) (hg : 16 ≤ g.length)
    (h : markerPath s f = markerPath t g) : s = t ∧ f.take 16 = g.take 16 := by
  unfold markerPath at h
  rw [hs, ht] at h
  have tails : (unit '.' :: (f.take 16 ++ jsonSuffix)).length = (unit '.' :: (g.take 16 ++ jsonSuffix)).length := by
    simp only [List.length_cons, List.length_append, List.length_take]
    omega
  obtain ⟨hst, hfg⟩ := List.append_inj' h tails
  have hfg := List.cons.inj hfg
  exact ⟨hst, (List.append_inj' hfg.2 rfl).1⟩

end PiWebUi.Goal
