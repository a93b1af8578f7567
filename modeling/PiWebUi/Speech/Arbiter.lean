/-
  PiWebUi.Speech.Arbiter — the playback scheduler of spoken output: intents of three tiers,
  played chunk by chunk by one loop.

  `drive` is the loop from where it starts or goes on to where it waits for a chunk or
  leaves; a chunk it waits for is one entry of `flights`, with the generation and the entry
  the loop was called with. A chunk cut by `stopAll` stays there until its promise settles.
  Calls come while the loop waits. Listeners, the rate and the telemetry decide nothing here.
  `notes`, `accepted` and `couldStart` are read by nothing.
-/

import PiWebUi.Lib.JsText

namespace PiWebUi.Speech

open PiWebUi.Lib

/-! ## Chunks -/

/-- `TERMINATORS`: full stop, exclamation mark, question mark, ellipsis. -/
def isTerminator (u : UInt16) : Bool := u = unit '.' || u = unit '!' || u = unit '?' || u = 0x2026

/-- `CLOSERS`. -/
def isCloser (u : UInt16) : Bool := u = 34 || u = 39 || u = unit ')' || u = unit ']' || u = 0x201D || u = 0x2019

/-- A piece is kept if it is not empty. -/
def kept (piece : JsString) : List JsString := if piece = [] then [] else [piece]

/-- The pieces of a text, `piece` being what was read since the last one ended. -/
def splitFrom (piece : JsString) (text : JsString) : List JsString :=
  match text with
  | [] => kept (trim piece)
  | c :: rest =>
    let after := (rest.dropWhile isTerminator).dropWhile isCloser
    if isTerminator c && after.head?.all isWhiteSpace then
      kept (trim (piece ++ c :: (rest.takeWhile isTerminator ++ (rest.dropWhile isTerminator).takeWhile isCloser))) ++
        splitFrom [] after
    else splitFrom (piece ++ [c]) rest
termination_by text.length
decreasing_by
  · have h1 := (List.dropWhile_sublist isCloser (l := rest.dropWhile isTerminator)).length_le
    have h2 := (List.dropWhile_sublist isTerminator (l := rest)).length_le
    simp only [List.length_cons]
    omega
  · simp

def maxLen : ℕ := 280

/-- Where an overlong text is cut: at its last space before `maxLen`, if that is not too early. -/
def cutAt (text : JsString) : ℕ :=
  match (List.range (maxLen + 1)).reverse.find? fun i => text[i]? = some 32 with
  | some cut => if cut < maxLen / 2 then maxLen else cut
  | none => maxLen

theorem cutAt_pos (text : JsString) : 0 < cutAt text := by
  unfold cutAt maxLen
  split
  · split <;> omega
  · omega

theorem length_trim_le (s : JsString) : (trim s).length ≤ s.length := by
  have h1 := (List.dropWhile_sublist isWhiteSpace (l := (s.dropWhile isWhiteSpace).reverse)).length_le
  have h2 := (List.dropWhile_sublist isWhiteSpace (l := s)).length_le
  simp only [trim, List.length_reverse] at h1 ⊢
  omega

def hardSplit (text : JsString) : List JsString :=
  if text.length ≤ maxLen then kept text
  else trim (text.take (cutAt text)) :: hardSplit (trim (text.drop (cutAt text)))
termination_by text.length
decreasing_by
  have h1 := length_trim_le (text.drop (cutAt text))
  have h2 := cutAt_pos text
  have h3 : (text.drop (cutAt text)).length = text.length - cutAt text := List.length_drop
  unfold maxLen at *
  omega

def chunkIntoSentences (text : JsString) : List JsString := (splitFrom [] (trim text)).flatMap hardSplit

/-! ## The arbiter -/

def TIER_RECEIPT_ACK : ℕ := 2

def TIER_ANSWER : ℕ := 3

def TIER_CHATTER : ℕ := 4

def NORMAL_VOLUME : ℚ := 1

def DUCKED_VOLUME : ℚ := 15 / 100

structure SpeechIntentInput where
  id : Option JsString
  tier : ℕ
  chunks : Option (List JsString)
  text : Option JsString
deriving DecidableEq

structure SpeechIntent where
  id : JsString
  tier : ℕ
  chunks : List JsString
deriving DecidableEq

structure QueueEntry where
  intent : SpeechIntent
  nextChunk : ℕ
  seq : ℕ
  /-- When it was submitted it could have been played at once. -/
  couldStart : Bool
deriving DecidableEq

/-- A call of `playChunk` whose promise is not settled. -/
structure Flight where
  generation : ℕ
  entry : QueueEntry
  volume : ℚ
deriving DecidableEq

inductive Note where
  /-- A chunk starts: whether the operator speaks, whether a higher tier waits, and whether
      its entry was the current one already. -/
  | started (entry : QueueEntry) (operatorSpeaking higherWaiting goesOn : Bool)
  | finished (seq : ℕ) (chunk : ℕ)
  | failed (seq : ℕ)
deriving DecidableEq

structure Accepted where
  seq : ℕ
  tier : ℕ
  chunks : List JsString
  generation : ℕ
deriving DecidableEq

structure SpeechArbiter where
  hasPlayer : Bool
  queue : List QueueEntry
  current : Option QueueEntry
  playingChunk : Bool
  paused : Bool
  operatorSpeaking : Bool
  ducked : Bool
  seqCounter : ℕ
  generation : ℕ
  running : Bool
  flights : List Flight
  notes : List Note
  accepted : List Accepted
deriving DecidableEq

inductive ArbiterEvent where
  | attachPlayer
  | submit (input : SpeechIntentInput)
  | setOperatorSpeaking (speaking : Bool)
  | pause
  | resume
  | stopAll
  /-- The promise of a chunk settles. -/
  | settled (i : ℕ) (ok : Bool)
deriving DecidableEq

/-- The comparator of the queue: by tier, then by age. -/
def QueueEntry.before (a b : QueueEntry) : Bool :=
  a.intent.tier < b.intent.tier || (a.intent.tier = b.intent.tier && a.seq ≤ b.seq)

def QueueEntry.finished (e : QueueEntry) : Bool := e.intent.chunks.length ≤ e.nextChunk

namespace SpeechArbiter

def createSpeechArbiter : SpeechArbiter := ⟨false, [], none, false, false, false, false, 0, 0, false, [], [], []⟩

def peekHighestTier (queue : List QueueEntry) : Option ℕ :=
  if queue = [] then none else some (queue.foldl (fun min e => if e.intent.tier < min then e.intent.tier else min) TIER_CHATTER)

/-- The first entry of the queue becomes the current one. -/
def takeNext (s : SpeechArbiter) (queue : List QueueEntry) : SpeechArbiter × Option QueueEntry :=
  match queue.mergeSort QueueEntry.before with
  | [] => ({ s with queue := [], current := none }, none)
  | next :: rest => ({ s with queue := rest, current := some next }, some next)

/-- What the loop goes on with at a chunk boundary, if anything: nothing new over the
    operator, a waiting entry of a strictly higher tier instead of the current one. -/
def select (s : SpeechArbiter) : SpeechArbiter × Option QueueEntry :=
  match s.current with
  | none =>
    if s.operatorSpeaking then
      match s.queue.mergeSort QueueEntry.before with
      | [] => (s, none)
      | next :: rest => ({ s with queue := rest ++ [next] }, none)
    else s.takeNext s.queue
  | some current =>
    if s.queue ≠ [] ∧ s.operatorSpeaking = false then
      match peekHighestTier s.queue with
      | some waiting =>
        if waiting < current.intent.tier then
          -- a chatter that is preempted is dropped, any other goes on later
          s.takeNext (if current.intent.tier = TIER_CHATTER then s.queue else s.queue ++ [current])
        else (s, some current)
      | none => (s, some current)
    else (s, some current)

def play (s : SpeechArbiter) (e : QueueEntry) (goesOn : Bool) : SpeechArbiter :=
  { s with
    ducked := s.operatorSpeaking
    playingChunk := true
    flights := s.flights ++ [⟨s.generation, e, if s.operatorSpeaking then DUCKED_VOLUME else NORMAL_VOLUME⟩]
    notes := s.notes ++ [.started e s.operatorSpeaking (s.queue.any fun w => w.intent.tier < e.intent.tier) goesOn] }

def leave (s : SpeechArbiter) : SpeechArbiter := { s with running := false }

/-- The loop, for as many rounds; a round that neither plays nor leaves takes an entry away. -/
def driveFor : ℕ → SpeechArbiter → SpeechArbiter
  | 0, s => s
  | rounds + 1, s =>
    if s.paused then s.leave
    else match s.select with
      | (s', none) => s'.leave
      | (s', some e) => if e.finished then driveFor rounds { s' with current := none } else s'.play e (s.current = some e)

def drive (s : SpeechArbiter) : SpeechArbiter := driveFor (s.queue.length + 2) s

def pump (s : SpeechArbiter) : SpeechArbiter :=
  if s.running then s else if s.hasPlayer = false then s else { s with running := true }.drive

def stopAll (s : SpeechArbiter) : SpeechArbiter :=
  { s with
    generation := s.generation + 1
    queue := []
    current := none
    playingChunk := false
    paused := false
    ducked := false
    running := false }

def attachPlayer (s : SpeechArbiter) : SpeechArbiter :=
  { (if s.running then s.stopAll else s) with hasPlayer := true }.pump

def chunksOf (input : SpeechIntentInput) : List JsString :=
  ((input.chunks.getD ((input.text.map chunkIntoSentences).getD [])).map trim).filter (· ≠ [])

def validTier (tier : ℕ) : Bool := tier = TIER_RECEIPT_ACK || tier = TIER_ANSWER || tier = TIER_CHATTER

/-- Chatter is not accepted now. -/
def busy (s : SpeechArbiter) : Bool := s.operatorSpeaking || s.paused || s.current.isSome || s.queue ≠ []

/-- Why an intent is dropped, if it is. -/
def drops (s : SpeechArbiter) (input : SpeechIntentInput) : Bool :=
  !validTier input.tier || chunksOf input = [] || (input.tier = TIER_CHATTER && s.busy)

def submit (s : SpeechArbiter) (input : SpeechIntentInput) : SpeechArbiter :=
  if s.drops input then s
  else
    let intent : SpeechIntent := ⟨input.id.getD (js "intent-" ++ JsNumber.natText s.seqCounter), input.tier, chunksOf input⟩
    let couldStart := s.hasPlayer && !s.running && !s.busy
    ({ s with
      queue := s.queue ++ [⟨intent, 0, s.seqCounter, couldStart⟩]
      seqCounter := s.seqCounter + 1
      accepted := s.accepted ++ [⟨s.seqCounter, input.tier, chunksOf input, s.generation⟩] } : SpeechArbiter).pump

/-- `player.setVolume`, of the chunk the player is at. -/
def setVolume (s : SpeechArbiter) (volume : ℚ) : SpeechArbiter :=
  { s with flights := s.flights.map fun f => if f.generation = s.generation then { f with volume := volume } else f }

def setOperatorSpeaking (s : SpeechArbiter) (speaking : Bool) : SpeechArbiter :=
  if s.operatorSpeaking = speaking then s
  else if speaking then
    let ducks := if s.playingChunk && s.hasPlayer then { s with ducked := true }.setVolume DUCKED_VOLUME else s
    { ducks with operatorSpeaking := true, queue := s.queue.filter (·.intent.tier ≠ TIER_CHATTER) }
  else { s with operatorSpeaking := false }.pump

def pause (s : SpeechArbiter) : SpeechArbiter := { s with paused := true }

def resume (s : SpeechArbiter) : SpeechArbiter := if s.paused then { s with paused := false }.pump else s

/-- The loop goes on after its chunk; one of an older generation only leaves. -/
def settled (s : SpeechArbiter) (i : ℕ) (ok : Bool) : SpeechArbiter :=
  match s.flights[i]? with
  | none => s
  | some f =>
    let s := { s with flights := s.flights.eraseIdx i, playingChunk := false }
    if f.generation ≠ s.generation then s
    else if ok then
      let e := { f.entry with nextChunk := f.entry.nextChunk + 1 }
      ({ s with
        current := if e.finished then none else some e
        notes := s.notes ++ [.finished e.seq f.entry.nextChunk] } : SpeechArbiter).drive
    else ({ s with current := none, notes := s.notes ++ [.failed f.entry.seq] } : SpeechArbiter).drive

def step (s : SpeechArbiter) : ArbiterEvent → SpeechArbiter
  | .attachPlayer => s.attachPlayer
  | .submit input => s.submit input
  | .setOperatorSpeaking speaking => s.setOperatorSpeaking speaking
  | .pause => s.pause
  | .resume => s.resume
  | .stopAll => s.stopAll
  | .settled i ok => s.settled i ok

end SpeechArbiter

end PiWebUi.Speech
