/-
  PiWebUi.VoiceLive.CaptureBlocks — capture does not depend on where its blocks end.

  Output `n` stands at the position `n * ratio` of the input, and is there when that is at
  most the last sample (`lt_outputCount`). `Follows` is the state after a past: the next
  position is that of the next output of the past. A block gives the outputs that its
  samples add, each the interpolation in the whole input, and none is read outside
  (`resampleMono_follows`); so any blocks give the outputs of their concatenation.
-/

import Mathlib.Data.List.GetD
import PiWebUi.VoiceLive.CaptureDsp

namespace PiWebUi.VoiceLive

open PiWebUi.Lib List

/-! ## Interpolation -/

/-- The linear interpolation of the samples at a position. -/
def interpolate (samples : List ℚ) (x : ℚ) : ℚ :=
  samples.getD ⌊x⌋.toNat 0 * (1 - Int.fract x) + samples.getD (⌊x⌋.toNat + 1) 0 * Int.fract x

/-- More samples do not change it before the last. -/
theorem interpolate_append (past more : List ℚ) {x : ℚ} (h0 : 0 ≤ x) (hx : x ≤ past.length - 1) :
    interpolate (past ++ more) x = interpolate past x := by
  have hfloor : 0 ≤ ⌊x⌋ := Int.floor_nonneg.mpr h0
  have hlast : ⌊x⌋ ≤ (past.length : ℤ) - 1 := by
    have : x < ((past.length : ℤ) - 1 : ℤ) + 1 := by
      push_cast
      linarith
    exact Int.le_of_lt_add_one (Int.floor_lt.mpr (by exact_mod_cast this))
  have hindex : ⌊x⌋.toNat < past.length := by omega
  rw [interpolate, interpolate, getD_append _ _ _ _ hindex]
  by_cases hnext : ⌊x⌋.toNat + 1 < past.length
  · rw [getD_append _ _ _ _ hnext]
  · have hwhole : x = (⌊x⌋ : ℤ) := by
      have heq : (⌊x⌋ : ℤ) = (past.length : ℤ) - 1 := by omega
      have hle : (⌊x⌋ : ℚ) ≤ x := Int.floor_le x
      rw [heq] at hle ⊢
      push_cast at hle ⊢
      linarith
    have hfract : Int.fract x = 0 := by
      rw [hwhole, Int.fract_intCast]
    rw [hfract, mul_zero, mul_zero]

/-! ## One output -/

section

variable {past input : List ℚ} {anchor : ℚ}

/-- The stream's places are those of the input from the sample before the block on. -/
theorem read_stream (hanchor : ∀ h : past ≠ [], anchor = past.getLast h) {i : ℕ}
    (hlow : past.length ≤ i ∨ past ≠ [] ∧ past.length = i + 1) (hi : i < past.length + input.length) :
    readAt (anchor :: input) ((i : ℤ) - past.length + 1) = some ((past ++ input).getD i 0) := by
  rcases hlow with hlow | ⟨hpast, hlow⟩
  · have hplace : ((i : ℤ) - past.length + 1).toNat = i - past.length + 1 := by omega
    rw [readAt, if_pos (by omega), hplace, getElem?_cons_succ, getD_append_right _ _ _ _ hlow,
      getD_eq_getElem _ _ (by omega)]
    exact getElem?_eq_getElem _
  · have hplace : ((i : ℤ) - past.length + 1).toNat = 0 := by omega
    rw [readAt, if_pos (by omega), hplace, getElem?_cons_zero, getD_append _ _ _ _ (by omega), hanchor hpast,
      getLast_eq_getElem, getD_eq_getElem _ _ (by omega)]
    congr 2
    omega

theorem outputAt_stream (hanchor : ∀ h : past ≠ [], anchor = past.getLast h) {x : ℚ} (h0 : 0 ≤ x)
    (hlow : past ≠ [] → (past.length : ℚ) - 1 ≤ x) (hx : x ≤ past.length + input.length - 1) :
    outputAt (anchor :: input) (x - past.length + 1) = some (interpolate (past ++ input) x) := by
  have hfloor : 0 ≤ ⌊x⌋ := Int.floor_nonneg.mpr h0
  have hplace : ⌊x - past.length + 1⌋ = ⌊x⌋ - past.length + 1 := by
    rw [Int.floor_add_one, Int.floor_sub_natCast]
  have hfrac : x - past.length + 1 - (⌊x⌋ - past.length + 1 : ℤ) = Int.fract x := by
    rw [Int.fract]
    push_cast
    ring
  have hlast : ⌊x⌋ ≤ (past.length : ℤ) + input.length - 1 := by
    have : x < ((past.length : ℤ) + input.length - 1 : ℤ) + 1 := by
      push_cast
      linarith
    exact Int.le_of_lt_add_one (Int.floor_lt.mpr (by exact_mod_cast this))
  have hfrom : (past.length : ℤ) ≤ ⌊x⌋ ∨ past ≠ [] ∧ (past.length : ℤ) ≤ ⌊x⌋ + 1 := by
    by_cases hpast : past = []
    · left
      simpa [hpast] using hfloor
    · right
      refine ⟨hpast, ?_⟩
      have : (((past.length : ℤ) - 1 : ℤ) : ℚ) ≤ x := by
        push_cast
        exact hlow hpast
      have := Int.le_floor.mpr this
      omega
  have hread : ∀ i : ℕ, past.length ≤ i + 1 → (past = [] → past.length ≤ i) → i < past.length + input.length →
      readAt (anchor :: input) ((i : ℤ) - past.length + 1) = some ((past ++ input).getD i 0) := by
    intro i hi hempty hbound
    apply read_stream hanchor _ hbound
    by_cases hpast : past = []
    · exact .inl (hempty hpast)
    · rcases Nat.lt_or_ge i past.length with h | h
      · exact .inr ⟨hpast, by omega⟩
      · exact .inl h
  obtain ⟨n, hn⟩ := Int.eq_ofNat_of_zero_le hfloor
  have hempty : past = [] → past.length ≤ n := by
    intro h
    simp [h]
  have hhere := hread n (by omega) hempty (by omega)
  simp only [outputAt, interpolate]
  rw [hplace, hfrac, hn, Int.toNat_natCast, hhere]
  by_cases hnext : (n : ℤ) - past.length + 1 + 1 < (anchor :: input).length
  · rw [length_cons] at hnext
    have hthere := hread (n + 1) (by omega) (fun h => (hempty h).trans (Nat.le_succ n)) (by push_cast at hnext; omega)
    have heq : ((n + 1 : ℕ) : ℤ) - past.length + 1 = (n : ℤ) - past.length + 1 + 1 := by omega
    rw [heq] at hthere
    rw [if_pos (by rw [length_cons]; exact hnext), hthere]
    rfl
  · rw [if_neg hnext, hhere]
    rw [length_cons] at hnext
    have hwhole : Int.fract x = 0 := by
      have hle : (⌊x⌋ : ℚ) ≤ x := Int.floor_le x
      have heq : (⌊x⌋ : ℤ) = (past.length : ℤ) + input.length - 1 := by push_cast at hnext; omega
      rw [Int.fract, sub_eq_zero]
      rw [heq] at hle ⊢
      push_cast at hle ⊢
      linarith
    rw [hwhole]
    show some _ = some _
    congr 1
    ring

end

/-! ## The outputs of a block -/

theorem left_zero (ratio : Rate) {lastAvailable x : ℚ} (h : ¬ x ≤ lastAvailable) : left ratio lastAvailable x = 0 := by
  have hneg : (lastAvailable - x) / (ratio : ℚ) < 0 := div_neg_of_neg_of_pos (by linarith [not_le.mp h]) ratio.2
  have hfloor : ⌊(lastAvailable - x) / (ratio : ℚ)⌋ < 0 := Int.floor_lt.mpr (by exact_mod_cast hneg)
  rw [left]
  omega

theorem outputs_eq {past input : List ℚ} {anchor : ℚ} (hanchor : ∀ h : past ≠ [], anchor = past.getLast h) (ratio : Rate) (n : ℕ) :
    ∀ x : ℚ, 0 ≤ x → (past ≠ [] → (past.length : ℚ) - 1 ≤ x) → left ratio (past.length + input.length - 1) x = n →
    outputs (anchor :: input) ratio past.length (past.length + input.length - 1) x =
      some ((List.range n).map fun k : ℕ => interpolate (past ++ input) (x + (k : ℚ) * ratio), x + n * ratio) := by
  induction n with
  | zero =>
    intro x _ _ hn
    have hx : ¬ x ≤ past.length + input.length - 1 := by
      intro hx
      rw [left_succ ratio hx] at hn
      omega
    rw [outputs, dif_neg hx]
    simp
  | succ n ih =>
    intro x h0 hlow hn
    have hx : x ≤ past.length + input.length - 1 := by
      by_contra hx
      rw [left_zero ratio hx] at hn
      omega
    have hratio : (0 : ℚ) < ratio := ratio.2
    have hrest : left ratio (past.length + input.length - 1) (x + ratio) = n := by
      rw [left_succ ratio hx] at hn
      omega
    have hnext := ih (x + ratio) (by linarith) (fun hpast => by linarith [hlow hpast]) hrest
    rw [outputs, dif_pos hx, outputAt_stream hanchor h0 hlow hx, hnext]
    show some _ = some _
    congr 2
    · rw [range_succ_eq_map, map_cons, List.map_map]
      congr 1
      · simp
      · apply map_congr_left
        intro k _
        simp only [Function.comp_apply, Nat.succ_eq_add_one]
        congr 1
        push_cast
        ring
    · push_cast
      ring

/-! ## Blocks -/

/-- How many outputs stand at or before the last of so many samples. -/
def outputCount (ratio : Rate) (samples : ℕ) : ℕ := left ratio (samples - 1) 0

theorem lt_outputCount {ratio : Rate} {samples n : ℕ} : n < outputCount ratio samples ↔ (n * ratio : ℚ) ≤ samples - 1 := by
  rw [outputCount, left, sub_zero, ← le_div_iff₀ ratio.2]
  constructor
  · intro h
    have hn : (n : ℤ) ≤ ⌊((samples : ℚ) - 1) / ratio⌋ := by omega
    exact_mod_cast Int.le_floor.mp hn
  · intro h
    have hn : (n : ℤ) ≤ ⌊((samples : ℚ) - 1) / ratio⌋ := Int.le_floor.mpr (by exact_mod_cast h)
    omega

theorem outputCount_mono (ratio : Rate) {m n : ℕ} (h : m ≤ n) : outputCount ratio m ≤ outputCount ratio n := by
  by_contra hlt
  have hlast := lt_outputCount.mp (not_le.mp hlt)
  have hmn : (m : ℚ) ≤ n := by exact_mod_cast h
  exact lt_irrefl _ (lt_outputCount.mpr (hlast.trans (by linarith)))

theorem outputCount_zero (ratio : Rate) : outputCount ratio 0 = 0 := by
  by_contra h
  have := lt_outputCount.mp (Nat.pos_of_ne_zero h)
  norm_num at this

/-- From the output `n` on. -/
theorem left_from (ratio : Rate) {samples n : ℕ} (h : n ≤ outputCount ratio samples) :
    left ratio (samples - 1) (n * ratio) = outputCount ratio samples - n := by
  have hratio : (ratio : ℚ) ≠ 0 := ratio.2.ne'
  have hstep : ((samples : ℚ) - 1 - n * ratio) / ratio = ((samples : ℚ) - 1) / ratio - n := by
    field_simp
  have hall : outputCount ratio samples = (⌊((samples : ℚ) - 1) / ratio⌋ + 1).toNat := by
    rw [outputCount, left, sub_zero]
  rw [left, hstep, Int.floor_sub_natCast, hall]
  omega

/-- The state after the samples of a past. -/
structure Follows (s : ResamplerState) (past : List ℚ) : Prop where
  consumed : s.consumed = past.length
  started : s.started = !past.isEmpty
  prev : ∀ h : past ≠ [], s.prev = past.getLast h
  nextIndex : s.nextIndex = outputCount s.ratio past.length * s.ratio

theorem follows_new (inputRate outputRate : Rate) : Follows (createResamplerState inputRate outputRate) [] where
  consumed := rfl
  started := rfl
  prev := fun h => absurd rfl h
  nextIndex := by
    rw [length_nil, outputCount_zero]
    simp [createResamplerState]

/-- The outputs of a whole input. -/
def wholeOutput (ratio : Rate) (samples : List ℚ) : List ℚ :=
  (List.range (outputCount ratio samples.length)).map fun n : ℕ => interpolate samples ((n : ℚ) * ratio)

theorem resampleMono_follows {s : ResamplerState} {past : List ℚ} (h : Follows s past) (input : List ℚ) :
    ∃ out s', resampleMono input s = some (out, s') ∧ Follows s' (past ++ input) ∧ s'.ratio = s.ratio ∧
      wholeOutput s.ratio past ++ out = wholeOutput s.ratio (past ++ input) := by
  cases input with
  | nil =>
    refine ⟨[], s, rfl, ?_, rfl, ?_⟩
    · rw [append_nil]
      exact h
    · rw [append_nil, append_nil]
  | cons first rest =>
    have hmore : outputCount s.ratio past.length ≤ outputCount s.ratio (past.length + (first :: rest).length) :=
      outputCount_mono _ (Nat.le_add_right _ _)
    have hanchor : ∀ hpast : past ≠ [], (if s.started then s.prev else first) = past.getLast hpast := by
      intro hpast
      have hstarted : s.started = true := by
        rw [h.started, isEmpty_eq_false_iff.mpr hpast]
        rfl
      rw [if_pos hstarted]
      exact h.prev hpast
    have hratio : (0 : ℚ) < s.ratio := s.ratio.2
    have hlow : past ≠ [] → (past.length : ℚ) - 1 ≤ s.nextIndex := by
      intro _
      have hnext : ¬ (outputCount s.ratio past.length * s.ratio : ℚ) ≤ past.length - 1 := fun hle =>
        lt_irrefl _ (lt_outputCount.mpr hle)
      rw [h.nextIndex]
      exact (not_le.mp hnext).le
    have hleft : left s.ratio (past.length + (first :: rest).length - 1) s.nextIndex =
        outputCount s.ratio (past.length + (first :: rest).length) - outputCount s.ratio past.length := by
      have hfrom := left_from s.ratio hmore
      rw [Nat.cast_add] at hfrom
      rw [h.nextIndex, hfrom]
    have hout := outputs_eq hanchor s.ratio _ s.nextIndex (by rw [h.nextIndex]; positivity) hlow hleft
    have hcount : outputCount s.ratio past.length +
        (outputCount s.ratio (past.length + (first :: rest).length) - outputCount s.ratio past.length) =
          outputCount s.ratio (past ++ first :: rest).length := by
      rw [length_append]
      omega
    have hafter : s.nextIndex + ((outputCount s.ratio (past.length + (first :: rest).length) - outputCount s.ratio past.length : ℕ) : ℚ) *
        s.ratio = outputCount s.ratio (past ++ first :: rest).length * s.ratio := by
      rw [h.nextIndex, ← hcount]
      push_cast
      ring
    rw [hafter] at hout
    generalize hadded : (List.range _).map _ = added at hout
    have hcall : resampleMono (first :: rest) s = some (added, {
        s with
        prev := (first :: rest).getLast (cons_ne_nil _ _)
        nextIndex := outputCount s.ratio (past ++ first :: rest).length * s.ratio
        consumed := past.length + (first :: rest).length
        started := true }) := by
      rw [resampleMono]
      simp only [h.consumed]
      rw [hout]
      rfl
    refine ⟨_, _, hcall, ?_, rfl, ?_⟩
    · exact {
        consumed := (length_append).symm
        started := by simp
        prev := fun _ => (getLast_append_of_ne_nil _ (cons_ne_nil _ _)).symm
        nextIndex := rfl }
    · rw [wholeOutput, wholeOutput, ← hcount, range_add, map_append, List.map_map, ← hadded]
      congr 1
      · apply map_congr_left
        intro n hn
        have hlast := lt_outputCount.mp (mem_range.mp hn)
        exact (interpolate_append past (first :: rest) (by positivity) hlast).symm
      · apply map_congr_left
        intro k _
        simp only [Function.comp_apply]
        rw [h.nextIndex]
        congr 1
        push_cast
        ring

/-- Any blocks give the outputs of their concatenation. -/
theorem resampleBlocks_follows (blocks : List (List ℚ)) : ∀ {s : ResamplerState} {past : List ℚ}, Follows s past →
    ∃ outs s', resampleBlocks blocks s = some (outs, s') ∧ Follows s' (past ++ blocks.flatten) ∧
      wholeOutput s.ratio past ++ outs.flatten = wholeOutput s.ratio (past ++ blocks.flatten) := by
  induction blocks with
  | nil =>
    intro s past h
    refine ⟨[], s, rfl, ?_, ?_⟩
    · simpa using h
    · simp
  | cons block blocks ih =>
    intro s past h
    obtain ⟨out, s', hout, hfollows, hratio, hwhole⟩ := resampleMono_follows h block
    obtain ⟨outs, s'', houts, hfollows', hwhole'⟩ := ih hfollows
    refine ⟨out :: outs, s'', ?_, ?_, ?_⟩
    · rw [resampleBlocks, hout]
      show (resampleBlocks blocks s').bind _ = _
      rw [houts]
      rfl
    · rw [flatten_cons, ← append_assoc]
      exact hfollows'
    · rw [hratio] at hwhole'
      rw [flatten_cons, flatten_cons, ← append_assoc, hwhole, hwhole', append_assoc]

/-- The output of an input: one for each position that is at most its last sample. -/
structure Resampled (ratio : Rate) (samples out : List ℚ) : Prop where
  present : ∀ n, n < out.length ↔ (n * ratio : ℚ) ≤ samples.length - 1
  interpolated : ∀ n, ∀ h : n < out.length, out[n] = interpolate samples (n * ratio)

theorem resampled_wholeOutput (ratio : Rate) (samples : List ℚ) : Resampled ratio samples (wholeOutput ratio samples) where
  present := by
    intro n
    rw [wholeOutput, length_map, length_range, lt_outputCount]
  interpolated := by
    intro n h
    rw [wholeOutput] at h
    simp only [wholeOutput, getElem_map, getElem_range]

/-! ## Frames -/

/-- The frames of some samples: all of one size, the last one filled up with zeros. -/
structure FramesOf (frameSamples : ℕ+) (samples : List ℚ) (frames : List (List ℚ)) : Prop where
  size : ∀ frame ∈ frames, frame.length = frameSamples
  content : ∃ k < (frameSamples : ℕ), frames.flatten = samples ++ List.replicate k 0

theorem takeFrames_spec (frameSamples : ℕ+) (joined : List ℚ) :
    (∀ frame ∈ (takeFrames frameSamples joined).1, frame.length = frameSamples) ∧
      (takeFrames frameSamples joined).1.flatten ++ (takeFrames frameSamples joined).2 = joined ∧
      (takeFrames frameSamples joined).2.length < frameSamples := by
  induction joined using takeFrames.induct frameSamples with
  | case1 joined h ih =>
    obtain ⟨hsize, hcontent, hleft⟩ := ih
    rw [takeFrames, if_pos h]
    refine ⟨?_, ?_, hleft⟩
    · intro frame hframe
      rcases mem_cons.mp hframe with rfl | hframe
      · rw [length_take]
        omega
      · exact hsize frame hframe
    · show joined.take frameSamples ++ (takeFrames frameSamples (joined.drop frameSamples)).1.flatten ++ _ = _
      rw [append_assoc, hcontent, take_append_drop]
  | case2 joined h =>
    rw [takeFrames, if_neg h]
    refine ⟨?_, rfl, not_le.mp h⟩
    intro frame hframe
    cases hframe

theorem pushAll_spec (pieces : List (List ℚ)) : ∀ a : FrameAccumulator, a.pending.length < a.frameSamples →
    (∀ frame ∈ (a.pushAll pieces).1, frame.length = a.frameSamples) ∧
      (a.pushAll pieces).1.flatten ++ (a.pushAll pieces).2.pending = a.pending ++ pieces.flatten ∧
      (a.pushAll pieces).2.pending.length < a.frameSamples ∧ (a.pushAll pieces).2.frameSamples = a.frameSamples := by
  induction pieces with
  | nil =>
    intro a ha
    refine ⟨?_, ?_, ha, rfl⟩
    · intro frame hframe
      cases hframe
    · simp [FrameAccumulator.pushAll]
  | cons samples pieces ih =>
    intro a ha
    -- one push keeps the size, and what it gives and keeps is what there was
    obtain ⟨hsize, hcontent, hleft, hsame⟩ : (∀ frame ∈ (a.push samples).1, frame.length = a.frameSamples) ∧
        (a.push samples).1.flatten ++ (a.push samples).2.pending = a.pending ++ samples ∧
        (a.push samples).2.pending.length < a.frameSamples ∧ (a.push samples).2.frameSamples = a.frameSamples := by
      rw [FrameAccumulator.push]
      by_cases hsamples : samples = []
      · rw [if_pos hsamples]
        refine ⟨?_, ?_, ha, rfl⟩
        · intro frame hframe
          cases hframe
        · simp [hsamples]
      · rw [if_neg hsamples]
        obtain ⟨h1, h2, h3⟩ := takeFrames_spec a.frameSamples (a.pending ++ samples)
        exact ⟨h1, h2, h3, rfl⟩
    obtain ⟨hsize', hcontent', hleft', hsame'⟩ := ih (a.push samples).2 (by rw [hsame]; exact hleft)
    rw [hsame] at hsize' hleft' hsame'
    refine ⟨?_, ?_, hleft', hsame'⟩
    · intro frame hframe
      rcases mem_append.mp hframe with hframe | hframe
      · exact hsize frame hframe
      · exact hsize' frame hframe
    · show ((a.push samples).1 ++ ((a.push samples).2.pushAll pieces).1).flatten ++ _ = _
      rw [flatten_append, append_assoc]
      calc (a.push samples).1.flatten ++ (((a.push samples).2.pushAll pieces).1.flatten ++ ((a.push samples).2.pushAll pieces).2.pending)
          = (a.push samples).1.flatten ++ ((a.push samples).2.pending ++ pieces.flatten) := by rw [hcontent']
        _ = a.pending ++ samples ++ pieces.flatten := by rw [← append_assoc, hcontent]
        _ = a.pending ++ (samples :: pieces).flatten := by rw [flatten_cons, append_assoc]

/-- The frames of a run, followed by the padded tail. -/
theorem framesOf_pushAll (frameSamples : ℕ+) (pieces : List (List ℚ)) : FramesOf frameSamples pieces.flatten
      ((FrameAccumulator.pushAll { frameSamples } pieces).1 ++
        ((FrameAccumulator.pushAll { frameSamples } pieces).2.flushPadded.1).toList) := by
  obtain ⟨hsize, hcontent, hleft, hsame⟩ := pushAll_spec pieces { frameSamples } frameSamples.pos
  rw [nil_append] at hcontent
  generalize FrameAccumulator.pushAll { frameSamples } pieces = pushed at *
  rw [FrameAccumulator.flushPadded]
  by_cases hpending : pushed.2.pending = []
  · rw [if_pos hpending]
    rw [hpending, append_nil] at hcontent
    refine ⟨?_, 0, frameSamples.pos, ?_⟩
    · intro frame hframe
      exact hsize frame (by simpa using hframe)
    · simpa using hcontent
  · rw [if_neg hpending]
    have hpos := length_pos_of_ne_nil hpending
    refine ⟨?_, frameSamples - pushed.2.pending.length, Nat.sub_lt frameSamples.pos hpos, ?_⟩
    · intro frame hframe
      rcases mem_append.mp hframe with hframe | hframe
      · exact hsize frame hframe
      · cases mem_singleton.mp hframe
        rw [length_append, length_replicate, hsame]
        exact Nat.add_sub_of_le hleft.le
    · show (pushed.1 ++ [_]).flatten = _
      rw [flatten_append, flatten_singleton, ← hcontent, hsame, append_assoc]

/-! ## Transitions -/

/-- Starts and ends take turns; the first of them ends a speech if there is one. -/
def Alternating : Bool → List VoiceActivityTransition → Prop
  | _, [] => True
  | speaking, t :: ts => t = (if speaking then .speech_end else .speech_start) ∧ Alternating (!speaking) ts

/-- A frame completes no transition, or the one that is due. -/
theorem push_transition (o : VoiceActivityOptions) (d : VoiceActivityDetector) (rms : JsNumber) :
    ((d.push o rms).1 = none ∧ (d.push o rms).2.speakingNow = d.speakingNow) ∨
      ((d.push o rms).1 = some (if d.speakingNow then .speech_end else .speech_start) ∧ (d.push o rms).2.speakingNow = !d.speakingNow) := by
  unfold VoiceActivityDetector.push
  cases hspeaking : d.speakingNow with
  | false =>
    simp only [Bool.not_false, if_true]
    generalize (if o.startRms.le rms = true then d.above + 1 else 0) = above
    by_cases hdue : o.attackFrames.le (.fin above) = true
    · right
      rw [if_pos hdue]
      exact ⟨rfl, rfl⟩
    · left
      rw [if_neg hdue]
      exact ⟨rfl, rfl⟩
  | true =>
    simp only [Bool.not_true, Bool.false_eq_true, if_false]
    generalize (if rms.lt o.endRms = true then d.below + 1 else 0) = below
    by_cases hdue : o.hangoverFrames.le (.fin below) = true
    · right
      rw [if_pos hdue]
      exact ⟨rfl, rfl⟩
    · left
      rw [if_neg hdue]
      exact ⟨rfl, rfl⟩

theorem alternating_transitions (o : VoiceActivityOptions) (frames : List JsNumber) :
    ∀ d : VoiceActivityDetector, Alternating d.speakingNow (transitions o d frames) := by
  induction frames with
  | nil =>
    intro d
    trivial
  | cons rms frames ih =>
    intro d
    have hrest := ih (d.push o rms).2
    rw [transitions]
    rcases push_transition o d rms with ⟨hnone, hsame⟩ | ⟨hsome, hturned⟩
    · rw [hnone]
      rw [hsame] at hrest
      exact hrest
    · rw [hsome]
      rw [hturned] at hrest
      exact ⟨rfl, hrest⟩

/-! ## Capture -/

/-- Whatever blocks the input comes in, and whatever frames are told apart in it. -/
theorem capture_blocks_do_not_show (inputRate outputRate : Rate) (blocks : List (List ℚ)) (frameSamples : ℕ+)
    (o : VoiceActivityOptions) (frames : List JsNumber) :
    (∃ outs whole s s', resampleBlocks blocks (createResamplerState inputRate outputRate) = some (outs, s) ∧
      resampleMono blocks.flatten (createResamplerState inputRate outputRate) = some (whole, s') ∧ outs.flatten = whole ∧
      Resampled (createResamplerState inputRate outputRate).ratio blocks.flatten whole ∧
      FramesOf frameSamples whole ((FrameAccumulator.pushAll { frameSamples } outs).1 ++
        ((FrameAccumulator.pushAll { frameSamples } outs).2.flushPadded.1).toList)) ∧
    Alternating false (transitions o {} frames) := by
  have hnew := follows_new inputRate outputRate
  have hnothing : wholeOutput (createResamplerState inputRate outputRate).ratio [] = [] := by
    rw [wholeOutput, length_nil, outputCount_zero]
    rfl
  obtain ⟨outs, s, houts, _, hblocks⟩ := resampleBlocks_follows blocks hnew
  obtain ⟨whole, s', hwhole, _, _, hout⟩ := resampleMono_follows hnew blocks.flatten
  rw [hnothing, nil_append, nil_append] at hblocks hout
  have hsame : outs.flatten = whole := hblocks.trans hout.symm
  refine ⟨⟨outs, whole, s, s', houts, hwhole, hsame, ?_, ?_⟩, alternating_transitions o frames {}⟩
  · rw [hout]
    exact resampled_wholeOutput _ _
  · rw [← hsame]
    exact framesOf_pushAll frameSamples outs

end PiWebUi.VoiceLive
