/-
  PiWebUi.Speech.Ladder — what is played, in which order, and that nothing stalls.

  Along a run in which no chunk cut by `stopAll` settles while a later one plays, and no
  chatter is submitted before there is a player, every state is on the ladder (`on_the_ladder`):
  one chunk at a time, the chunks of an accepted intent in order and each once, nothing new
  over the operator, nothing below a waiting tier, chatter only at once or not at all, the
  chunk in flight ducked while the operator speaks, and the loop running whenever it can.
-/

import PiWebUi.Speech.Arbiter
import PiWebUi.Lib.InFlight
import PiWebUi.Lib.Run

namespace PiWebUi.Speech

open PiWebUi.Lib List Option

namespace SpeechArbiter

/-! ## What is claimed of a state -/

/-- The chunks of the current generation that are being played. -/
def inFlight (s : SpeechArbiter) : List Flight := s.flights.filter (·.generation = s.generation)

def entries (s : SpeechArbiter) : List QueueEntry := s.current.toList ++ s.queue

def startOf (seq : ℕ) : Note → Option (ℕ × Option JsString)
  | .started e _ _ _ => if e.seq = seq then some (e.nextChunk, e.intent.chunks[e.nextChunk]?) else none
  | _ => none

def finishOf (seq : ℕ) : Note → Option ℕ
  | .finished q chunk => if q = seq then some chunk else none
  | _ => none

/-- The chunks of an intent that were started, in the order they were. -/
def starts (s : SpeechArbiter) (seq : ℕ) : List (ℕ × Option JsString) := s.notes.filterMap (startOf seq)

def finishes (s : SpeechArbiter) (seq : ℕ) : List ℕ := s.notes.filterMap (finishOf seq)

/-- The first `m` chunks, in order. -/
def startsTo (chunks : List JsString) (m : ℕ) : List (ℕ × Option JsString) := (List.range m).map fun i => (i, chunks[i]?)

/-- The intent has been played from its first chunk on, in order and each chunk once; and
    unless a chunk failed or `stopAll` was called since it came, it has been played to the
    end or is still held. -/
structure PlayedInOrder (s : SpeechArbiter) (a : Accepted) : Prop where
  order : ∃ m k, s.starts a.seq = startsTo a.chunks m ∧ m ≤ a.chunks.length ∧ s.finishes a.seq = List.range k ∧ k ≤ m ∧ m ≤ k + 1
  held : a.generation = s.generation → Note.failed a.seq ∉ s.notes →
    s.finishes a.seq = List.range a.chunks.length ∨
      ∃ e ∈ s.entries, e.seq = a.seq ∧ e.intent.chunks = a.chunks ∧ s.finishes a.seq = List.range e.nextChunk

structure OnLadder (s : SpeechArbiter) : Prop where
  single : s.inFlight.length ≤ 1
  played : ∀ a ∈ s.accepted, a.tier ≠ TIER_CHATTER → s.PlayedInOrder a
  silent : ∀ e higher goesOn, Note.started e true higher goesOn ∈ s.notes → goesOn = true ∧ 0 < e.nextChunk
  highest : ∀ e goesOn, Note.started e false true goesOn ∉ s.notes
  chatter : ∀ e speaking higher goesOn, Note.started e speaking higher goesOn ∈ s.notes →
    e.intent.tier = TIER_CHATTER → e.couldStart = true
  ducked : s.operatorSpeaking = true → ∀ f ∈ s.inFlight, f.volume = DUCKED_VOLUME
  driven : s.hasPlayer = true → s.paused = false → s.operatorSpeaking = false → s.entries ≠ [] →
    s.running = true ∧ s.inFlight ≠ []

/-- Where no cut chunk settles while another plays, and no chatter is accepted without a player. -/
def Timely (s : SpeechArbiter) : ArbiterEvent → Prop
  | .settled i _ => ∀ f ∈ s.flights[i]?, f.generation = s.generation ∨ s.inFlight = []
  | .submit input => input.tier = TIER_CHATTER → s.hasPlayer = true ∨ s.drops input = true
  | _ => True

/-! ## What the loop picks -/

/-- The entry a round of the loop plays, and the queue it leaves. -/
inductive Picks (s : SpeechArbiter) : QueueEntry → List QueueEntry → Prop
  | goesOn (e : QueueEntry) (hc : s.current = some e)
      (hh : s.operatorSpeaking = true ∨ ∀ w ∈ s.queue, ¬ w.intent.tier < e.intent.tier) : Picks s e s.queue
  | starts (e : QueueEntry) (rest : List QueueEntry) (hc : s.current = none) (hs : s.operatorSpeaking = false)
      (hp : (e :: rest).Perm s.queue) (hh : ∀ w ∈ rest, ¬ w.intent.tier < e.intent.tier) : Picks s e rest
  | preempts (e c : QueueEntry) (rest : List QueueEntry) (hc : s.current = some c) (hs : s.operatorSpeaking = false)
      (hlt : e.intent.tier < c.intent.tier)
      (hp : (e :: rest).Perm (if c.intent.tier = TIER_CHATTER then s.queue else s.queue ++ [c]))
      (hh : ∀ w ∈ rest, ¬ w.intent.tier < e.intent.tier) : Picks s e rest

/-- Why a round of the loop picks nothing, and the queue it leaves. -/
inductive PicksNone (s : SpeechArbiter) : List QueueEntry → Prop
  | empty (hc : s.current = none) (hq : s.queue = []) : PicksNone s []
  | floor (rest : List QueueEntry) (hc : s.current = none) (hs : s.operatorSpeaking = true) (hp : rest.Perm s.queue) :
      PicksNone s rest

theorem before_trans (a b c : QueueEntry) (h1 : a.before b = true) (h2 : b.before c = true) : a.before c = true := by
  simp only [QueueEntry.before, Bool.or_eq_true, Bool.and_eq_true, decide_eq_true_eq] at *
  omega

theorem before_total (a b : QueueEntry) : (a.before b || b.before a) = true := by
  simp only [QueueEntry.before, Bool.or_eq_true, Bool.and_eq_true, decide_eq_true_eq]
  omega

variable {e : QueueEntry} {queue : List QueueEntry} {s s' : SpeechArbiter}

/-- The first entry of the sorted queue is of the highest tier. -/
theorem mergeSort_cons {rest : List QueueEntry} (h : queue.mergeSort QueueEntry.before = e :: rest) :
    (e :: rest).Perm queue ∧ ∀ w ∈ rest, ¬ w.intent.tier < e.intent.tier := by
  have hperm := mergeSort_perm queue QueueEntry.before
  have hsorted := pairwise_mergeSort before_trans before_total queue
  rw [h] at hperm hsorted
  refine ⟨hperm, fun w hw hlt => ?_⟩
  have hle := (pairwise_cons.mp hsorted).1 w hw
  simp only [QueueEntry.before, Bool.or_eq_true, Bool.and_eq_true, decide_eq_true_eq] at hle
  omega

theorem foldl_min_le (queue : List QueueEntry) : ∀ n : ℕ,
    (queue.foldl (fun min e => if e.intent.tier < min then e.intent.tier else min) n ≤ n ∧
      ∀ e ∈ queue, queue.foldl (fun min e => if e.intent.tier < min then e.intent.tier else min) n ≤ e.intent.tier) ∧
    (queue.foldl (fun min e => if e.intent.tier < min then e.intent.tier else min) n = n ∨
      ∃ e ∈ queue, e.intent.tier = queue.foldl (fun min e => if e.intent.tier < min then e.intent.tier else min) n) := by
  induction queue with
  | nil => intro n; simp
  | cons x queue ih =>
    intro n
    rw [foldl_cons]
    obtain ⟨⟨hle, hall⟩, hex⟩ := ih (if x.intent.tier < n then x.intent.tier else n)
    have hx : (if x.intent.tier < n then x.intent.tier else n) ≤ n ∧ (if x.intent.tier < n then x.intent.tier else n) ≤ x.intent.tier := by
      split <;> omega
    refine ⟨⟨hle.trans hx.1, ?_⟩, ?_⟩
    · intro e he
      rcases mem_cons.mp he with rfl | he
      · exact hle.trans hx.2
      · exact hall e he
    · rcases hex with hn | ⟨e, he, heq⟩
      · rw [hn]
        by_cases hlt : x.intent.tier < n
        · rw [if_pos hlt]
          exact .inr ⟨x, mem_cons_self, rfl⟩
        · rw [if_neg hlt]
          exact .inl rfl
      · exact .inr ⟨e, mem_cons_of_mem _ he, heq⟩

/-- `peekHighestTier` below a tier: some waiting entry is of a higher one; else none is. -/
theorem peekHighestTier_spec {waiting : ℕ} (h : peekHighestTier queue = some waiting) (tier : ℕ)
    (ht : tier ≤ TIER_CHATTER) : waiting < tier ↔ ∃ w ∈ queue, w.intent.tier < tier := by
  unfold peekHighestTier at h
  split at h
  · cases h
  · have hw := some.inj h
    obtain ⟨⟨hle, hall⟩, hex⟩ := foldl_min_le queue TIER_CHATTER
    rw [hw] at hle hall hex
    constructor
    · intro hlt
      rcases hex with hn | ⟨e, he, heq⟩
      · omega
      · exact ⟨e, he, by omega⟩
    · rintro ⟨w, hwq, hlt⟩
      have := hall w hwq
      omega

theorem takeNext_spec (h : queue ≠ []) :
    ∃ e rest, s.takeNext queue = ({ s with queue := rest, current := some e }, some e) ∧ (e :: rest).Perm queue ∧
      ∀ w ∈ rest, ¬ w.intent.tier < e.intent.tier := by
  unfold takeNext
  cases hq : queue.mergeSort QueueEntry.before with
  | nil =>
    have := (mergeSort_perm queue QueueEntry.before).length_eq
    rw [hq] at this
    exact absurd (length_eq_zero_iff.mp this.symm) h
  | cons e rest => exact ⟨e, rest, rfl, mergeSort_cons hq⟩

theorem select_spec (ht : ∀ e ∈ s.entries, e.intent.tier ≤ TIER_CHATTER) :
    (∃ e rest, s.select = ({ s with queue := rest, current := some e }, some e) ∧ s.Picks e rest) ∨
      ∃ rest, s.select = ({ s with queue := rest }, none) ∧ s.PicksNone rest := by
  unfold select
  split
  · next hc =>
    by_cases hs : s.operatorSpeaking = true
    · right
      rw [if_pos hs]
      split
      · next hq =>
        have hlen := (mergeSort_perm s.queue QueueEntry.before).length_eq
        rw [hq] at hlen
        have hempty : s.queue = [] := length_eq_zero_iff.mp hlen.symm
        refine ⟨s.queue, rfl, ?_⟩
        rw [hempty]
        exact .empty hc hempty
      · next next rest hq =>
        refine ⟨rest ++ [next], rfl, .floor _ hc hs ?_⟩
        exact (@perm_append_comm _ rest [next]).trans (mergeSort_cons hq).1
    · have hs : s.operatorSpeaking = false := by simpa using hs
      rw [if_neg (by rw [hs]; nofun)]
      by_cases hq : s.queue = []
      · right
        refine ⟨[], ?_, .empty hc hq⟩
        rw [takeNext, hq, mergeSort_nil]
        simp only [← hc]
      · left
        obtain ⟨e, rest, heq, hp, hh⟩ := takeNext_spec (s := s) hq
        exact ⟨e, rest, heq, .starts e rest hc hs hp hh⟩
  · next c hc =>
    left
    have hct : c.intent.tier ≤ TIER_CHATTER := ht c (by simp [entries, hc])
    have hstay : ∀ (_ : s.operatorSpeaking = true ∨ ∀ w ∈ s.queue, ¬ w.intent.tier < c.intent.tier),
        ∃ e rest, (s, some c) = (({ s with queue := rest, current := some e } : SpeechArbiter), some e) ∧ s.Picks e rest := fun hh =>
      ⟨c, s.queue, by rw [← hc], .goesOn c hc hh⟩
    split
    · next hif =>
      obtain ⟨hq, hs⟩ := hif
      split
      · next waiting hw =>
        have hspec := peekHighestTier_spec hw c.intent.tier hct
        split
        · next hlt =>
          obtain ⟨w, hwq, hwlt⟩ := hspec.mp hlt
          have hne : (if c.intent.tier = TIER_CHATTER then s.queue else s.queue ++ [c]) ≠ [] := by
            split <;> simp [hq]
          obtain ⟨e, rest, heq, hp, hh⟩ := takeNext_spec (s := s) hne
          refine ⟨e, rest, heq, .preempts e c rest hc hs ?_ hp hh⟩
          -- the waiting entry is there, and the one taken is not of a lower tier
          have hwm : w ∈ e :: rest := hp.mem_iff.mpr (by split <;> simp [hwq])
          rcases mem_cons.mp hwm with rfl | hwm
          · exact hwlt
          · have := hh w hwm
            omega
        · next hge =>
          exact hstay (.inr fun w hwq hwlt => hge (hspec.mpr ⟨w, hwq, hwlt⟩))
      · next hnone =>
        unfold peekHighestTier at hnone
        rw [if_neg hq] at hnone
        cases hnone
    · next hif =>
      refine hstay ?_
      by_cases hs : s.operatorSpeaking = true
      · exact .inl hs
      · right
        have hq : s.queue = [] := by
          by_contra hq
          exact hif ⟨hq, by simpa using hs⟩
        rw [hq]
        exact fun _ h => absurd h not_mem_nil

/-- An entry is picked from those there are; only a chatter is dropped for it. -/
theorem Picks.entries {rest : List QueueEntry} (h : s.Picks e rest) :
    (e :: rest).Subperm s.entries ∧ ∀ x ∈ s.entries, x.intent.tier ≠ TIER_CHATTER → x ∈ e :: rest := by
  cases h with
  | goesOn hc hh =>
    have he : s.entries = e :: s.queue := by simp [SpeechArbiter.entries, hc]
    rw [he]
    exact ⟨List.Subperm.refl _, fun _ hx _ => hx⟩
  | starts _ hc hs hp hh =>
    have he : s.entries = s.queue := by simp [SpeechArbiter.entries, hc]
    rw [he]
    exact ⟨hp.subperm, fun x hx _ => hp.mem_iff.mpr hx⟩
  | preempts c _ hc hs hlt hp hh =>
    have he : s.entries = c :: s.queue := by simp [SpeechArbiter.entries, hc]
    rw [he]
    by_cases hct : c.intent.tier = TIER_CHATTER
    · rw [if_pos hct] at hp
      refine ⟨hp.subperm.trans (sublist_cons_self c s.queue).subperm, fun x hx hxt => hp.mem_iff.mpr ?_⟩
      rcases mem_cons.mp hx with rfl | hx
      · exact absurd hct hxt
      · exact hx
    · rw [if_neg hct] at hp
      have hp := hp.trans (@perm_append_comm _ s.queue [c])
      exact ⟨hp.subperm, fun x hx _ => hp.mem_iff.mpr hx⟩

/-! ## The books -/

/-- What was accepted, started and finished, against what is held; `flying`: the loop waits
    for a chunk of its current entry. -/
structure Book (s : SpeechArbiter) (flying : Bool) : Prop where
  flight : flying = true → ∃ e, s.current = some e ∧ s.inFlight.map Flight.entry = [e]
  still : flying = false → s.inFlight.map Flight.entry = []
  old : ∀ f ∈ s.flights, f.generation ≤ s.generation
  unfinished : ∀ e ∈ s.entries, e.nextChunk < e.intent.chunks.length
  tiers : ∀ e ∈ s.entries, e.intent.tier ≤ TIER_CHATTER
  counted : s.seqCounter = s.accepted.length
  numbered : ∀ (i : ℕ) (a : Accepted), s.accepted[i]? = some a → a.seq = i
  dated : ∀ a ∈ s.accepted, a.generation ≤ s.generation
  distinct : (s.entries.map QueueEntry.seq).Nodup
  backed : ∀ e ∈ s.entries, s.accepted[e.seq]? = some ⟨e.seq, e.intent.tier, e.intent.chunks, s.generation⟩
  finishes : ∀ e ∈ s.entries, s.finishes e.seq = List.range e.nextChunk
  starts : ∀ e ∈ s.entries, s.starts e.seq =
    startsTo e.intent.chunks (e.nextChunk + if flying = true ∧ s.current = some e then 1 else 0)
  told : ∀ a ∈ s.accepted, ∃ m k, s.starts a.seq = startsTo a.chunks m ∧ m ≤ a.chunks.length ∧
    s.finishes a.seq = List.range k ∧ k ≤ m ∧ m ≤ k + 1
  kept : ∀ a ∈ s.accepted, a.tier ≠ TIER_CHATTER → a.generation = s.generation → Note.failed a.seq ∉ s.notes →
    s.finishes a.seq = List.range a.chunks.length ∨ ∃ e ∈ s.entries, e.seq = a.seq
  fresh : ∀ q, s.seqCounter ≤ q → s.starts q = [] ∧ s.finishes q = []

theorem startsTo_succ (chunks : List JsString) (m : ℕ) : startsTo chunks (m + 1) = startsTo chunks m ++ [(m, chunks[m]?)] := by
  simp [startsTo, List.range_succ]

namespace Book

variable {s s' : SpeechArbiter} {flying : Bool}

theorem accepted_mem (h : s.Book flying) {e : QueueEntry} (he : e ∈ s.entries) {a : Accepted} (ha : a ∈ s.accepted)
    (hseq : a.seq = e.seq) : a = ⟨e.seq, e.intent.tier, e.intent.chunks, s.generation⟩ := by
  obtain ⟨i, hi⟩ := mem_iff_getElem?.mp ha
  have hn := h.numbered i a hi
  rw [← hn, hseq, h.backed e he] at hi
  exact (some.inj hi).symm

theorem seq_lt (h : s.Book flying) {e : QueueEntry} (he : e ∈ s.entries) : e.seq < s.seqCounter := by
  obtain ⟨hlt, -⟩ := List.getElem?_eq_some_iff.mp (h.backed e he)
  rw [h.counted]
  exact hlt

theorem eq_of_seq (h : s.Book flying) {x y : QueueEntry} (hx : x ∈ s.entries) (hy : y ∈ s.entries) (hxy : x.seq = y.seq) : x = y :=
  inj_on_of_nodup_map h.distinct hx hy hxy

/-- The entries are shuffled, and of those that go none is of an answer or an acknowledgement. -/
theorem shuffle (h : s.Book flying) (hsub : s'.entries.Subperm s.entries)
    (hkeep : ∀ x ∈ s.entries, x.intent.tier ≠ TIER_CHATTER → x ∈ s'.entries) (hcur : flying = true → s'.current = s.current)
    (hflights : s'.inFlight.map Flight.entry = s.inFlight.map Flight.entry) (hold : ∀ f ∈ s'.flights, f.generation ≤ s.generation)
    (hnotes : s'.notes = s.notes) (hacc : s'.accepted = s.accepted) (hseq : s'.seqCounter = s.seqCounter)
    (hgen : s'.generation = s.generation) : s'.Book flying := by
  have hmem : ∀ x ∈ s'.entries, x ∈ s.entries := fun x hx => hsub.subset hx
  have hst : ∀ q, s'.starts q = s.starts q := fun q => by rw [SpeechArbiter.starts, SpeechArbiter.starts, hnotes]
  have hfi : ∀ q, s'.finishes q = s.finishes q := fun q => by rw [SpeechArbiter.finishes, SpeechArbiter.finishes, hnotes]
  refine
    { flight := fun hf => ?_, still := fun hf => by rw [hflights, h.still hf], old := fun f hf => by rw [hgen]; exact hold f hf,
      unfinished := fun x hx => h.unfinished x (hmem x hx), tiers := fun x hx => h.tiers x (hmem x hx),
      counted := by rw [hseq, hacc, h.counted], numbered := by rw [hacc]; exact h.numbered,
      dated := by rw [hacc, hgen]; exact h.dated, distinct := ?_, backed := fun x hx => by rw [hacc, hgen]; exact h.backed x (hmem x hx),
      finishes := fun x hx => by rw [hfi]; exact h.finishes x (hmem x hx), starts := fun x hx => ?_, told := ?_, kept := ?_, fresh := ?_ }
  · obtain ⟨e, he, hmap⟩ := h.flight hf
    exact ⟨e, (hcur hf).trans he, hflights.trans hmap⟩
  · obtain ⟨l, hp, hl⟩ := hsub
    exact (hp.map QueueEntry.seq).nodup_iff.mp (h.distinct.sublist (hl.map QueueEntry.seq))
  · rw [hst, h.starts x (hmem x hx)]
    cases flying with
    | false => simp
    | true => rw [hcur rfl]
  · rw [hacc]
    intro a ha
    rw [hst, hfi]
    exact h.told a ha
  · rw [hacc, hgen, hnotes]
    intro a ha htier hg hno
    rw [hfi]
    refine (h.kept a ha htier hg hno).imp_right fun ⟨e, he, hes⟩ => ⟨e, hkeep e he ?_, hes⟩
    rw [h.accepted_mem he ha hes.symm] at htier
    exact htier
  · intro q hq
    rw [hst, hfi]
    exact h.fresh q (hseq ▸ hq)

end Book

@[simp] theorem inFlight_play (s : SpeechArbiter) (e : QueueEntry) (g : Bool) :
    (s.play e g).inFlight = s.inFlight ++ [⟨s.generation, e, if s.operatorSpeaking then DUCKED_VOLUME else NORMAL_VOLUME⟩] := by
  show (s.flights ++ [_]).filter (fun f : Flight => decide (f.generation = s.generation)) = _
  rw [filter_append, inFlight]
  simp

theorem starts_play (s : SpeechArbiter) (e : QueueEntry) (g : Bool) (q : ℕ) :
    (s.play e g).starts q = s.starts q ++ if e.seq = q then [(e.nextChunk, e.intent.chunks[e.nextChunk]?)] else [] := by
  simp only [starts, play, filterMap_append]
  congr 1
  simp only [filterMap_cons, filterMap_nil, startOf]
  split
  all_goals
    next h => split at h <;> simp_all

@[simp] theorem finishes_play (s : SpeechArbiter) (e : QueueEntry) (g : Bool) (q : ℕ) : (s.play e g).finishes q = s.finishes q := by
  simp [finishes, play, filterMap_append, finishOf]

/-- The chunk of the current entry is played. -/
theorem book_play (h : s.Book false) (hc : s.current = some e) (g : Bool) : (s.play e g).Book true := by
  have he : e ∈ s.entries := by simp [entries, hc]
  have hnext : s.starts e.seq = startsTo e.intent.chunks e.nextChunk := by
    simpa using h.starts e he
  refine
    { flight := fun _ => ⟨e, hc, by rw [inFlight_play, map_append, h.still rfl]; rfl⟩, still := nofun, old := ?_,
      unfinished := h.unfinished, tiers := h.tiers, counted := h.counted, numbered := h.numbered, dated := h.dated,
      distinct := h.distinct, backed := h.backed, finishes := fun x hx => by rw [finishes_play]; exact h.finishes x hx,
      starts := ?_, told := ?_, kept := ?_, fresh := ?_ }
  · exact forall_mem_append.mpr ⟨h.old, forall_mem_singleton.mpr (Nat.le_refl _)⟩
  · intro x hx
    rw [starts_play, h.starts x hx]
    by_cases hxe : x = e
    · subst hxe
      have hcur : (s.play x g).current = some x := hc
      simp [hcur, startsTo_succ]
    · have hseq : e.seq ≠ x.seq := fun hs => hxe (h.eq_of_seq hx he hs.symm)
      have hcur : (s.play e g).current ≠ some x := by
        show s.current ≠ some x
        rw [hc]
        exact fun hh => hxe (some.inj hh).symm
      simp [hseq, hcur]
  · intro a ha
    obtain ⟨m, k, hm, hml, hk, hkm, hmk⟩ := h.told a ha
    rw [starts_play, finishes_play]
    by_cases hs : e.seq = a.seq
    · have hae := h.accepted_mem he ha hs.symm
      rw [if_pos hs, ← hs, hnext, h.finishes e he, hae]
      exact ⟨e.nextChunk + 1, e.nextChunk, (startsTo_succ _ _).symm, h.unfinished e he, rfl, by omega, Nat.le_refl _⟩
    · rw [if_neg hs, append_nil]
      exact ⟨m, k, hm, hml, hk, hkm, hmk⟩
  · intro a ha htier hg hno
    rw [finishes_play]
    refine h.kept a ha htier hg fun hin => hno ?_
    exact mem_append_left _ hin
  · intro q hq
    have hlt : e.seq ≠ q := by
      have := h.seq_lt he
      have hq : s.seqCounter ≤ q := hq
      omega
    rw [starts_play, finishes_play, if_neg hlt, append_nil]
    exact h.fresh q hq

/-! ### A chunk settles -/

theorem filter_eraseIdx {α : Type} {l : List α} {i : ℕ} {a : α} (h : l[i]? = some a) (p : α → Bool) :
    ((l.eraseIdx i).filter p).length + (if p a then 1 else 0) = (l.filter p).length := by
  obtain ⟨hlt, rfl⟩ := List.getElem?_eq_some_iff.mp h
  rw [← ((getElem_cons_eraseIdx_perm hlt).filter p).length_eq, filter_cons]
  split <;> simp

theorem filter_eraseIdx_of_not {α : Type} {l : List α} {i : ℕ} {a : α} (h : l[i]? = some a) {p : α → Bool} (hp : p a = false) :
    (l.eraseIdx i).filter p = l.filter p := by
  induction l generalizing i with
  | nil => rfl
  | cons b l ih =>
    cases i with
    | zero => cases h; simp [hp]
    | succ i => simp only [eraseIdx_cons_succ, filter_cons, ih h]

/-- The chunk the loop waits for is that of the current entry, and the only one. -/
theorem flight_of_generation {flying : Bool} (h : s.Book flying) {i : ℕ} {f : Flight} (hf : s.flights[i]? = some f)
    (hg : f.generation = s.generation) :
    flying = true ∧ s.current = some f.entry ∧ (s.flights.eraseIdx i).filter (fun f => f.generation = s.generation) = [] := by
  have hmem : f ∈ s.inFlight := mem_filter.mpr ⟨mem_of_getElem? hf, by simp [hg]⟩
  cases flying with
  | false =>
    have hnil := map_eq_nil_iff.mp (h.still rfl)
    rw [hnil] at hmem
    cases hmem
  | true =>
    obtain ⟨e, he, hmap⟩ := h.flight rfl
    have hfe : f.entry ∈ s.inFlight.map Flight.entry := mem_map_of_mem hmem
    rw [hmap, mem_singleton] at hfe
    have hlen : s.inFlight.length = 1 := by
      rw [← length_map (f := Flight.entry), hmap]
      rfl
    have herase := filter_eraseIdx hf fun f => decide (f.generation = s.generation)
    rw [if_pos (by simp [hg])] at herase
    refine ⟨rfl, he.trans (congrArg some hfe.symm), length_eq_zero_iff.mp ?_⟩
    rw [inFlight] at hlen
    omega

/-- The loop is back from its chunk, with what the current entry became and a note of it. -/
structure Back (s s' : SpeechArbiter) (e : QueueEntry) (note : Note) : Prop where
  current : s.current = some e
  queue : s'.queue = s.queue
  flights : s'.inFlight = []
  old : ∀ f ∈ s'.flights, f.generation ≤ s.generation
  notes : s'.notes = s.notes ++ [note]
  accepted : s'.accepted = s.accepted
  seqCounter : s'.seqCounter = s.seqCounter
  generation : s'.generation = s.generation

theorem book_finished (h : s.Book true) (b : Back s s' e (.finished e.seq e.nextChunk))
    (hcur : s'.current = if ({ e with nextChunk := e.nextChunk + 1 } : QueueEntry).finished then none
      else some { e with nextChunk := e.nextChunk + 1 }) : s'.Book false := by
  have hse : s.entries = e :: s.queue := by simp [entries, b.current]
  have he : e ∈ s.entries := by rw [hse]; exact mem_cons_self
  have hst : ∀ q, s'.starts q = s.starts q := fun q => by
    simp [SpeechArbiter.starts, b.notes, filterMap_append, startOf]
  have hfi : ∀ q, s'.finishes q = s.finishes q ++ if e.seq = q then [e.nextChunk] else [] := fun q => by
    simp only [SpeechArbiter.finishes, b.notes, filterMap_append]
    congr 1
    by_cases hq : e.seq = q <;> simp [finishOf, hq]
  -- an entry is one of the queue as it was, or the current one past its chunk
  have hent : ∀ x ∈ s'.entries, (x ∈ s.queue ∧ x.seq ≠ e.seq) ∨
      (x = { e with nextChunk := e.nextChunk + 1 } ∧ e.nextChunk + 1 < e.intent.chunks.length) := by
    intro x hx
    rw [SpeechArbiter.entries, b.queue, hcur] at hx
    rcases mem_append.mp hx with hx | hx
    · right
      split at hx
      · cases hx
      · next hfin =>
        rw [QueueEntry.finished, decide_eq_true_eq] at hfin
        have hfin : ¬ e.intent.chunks.length ≤ e.nextChunk + 1 := hfin
        exact ⟨by simpa using hx, by omega⟩
    · left
      refine ⟨hx, fun hseq => ?_⟩
      have hnd := h.distinct
      rw [hse, map_cons, nodup_cons] at hnd
      exact hnd.1 (hseq ▸ mem_map_of_mem hx)
  have hold : s.starts e.seq = startsTo e.intent.chunks (e.nextChunk + 1) := by
    have := h.starts e he
    rwa [if_pos ⟨rfl, b.current⟩] at this
  have hqueue : ∀ x ∈ s.queue, x.seq ≠ e.seq → s.starts x.seq = startsTo x.intent.chunks x.nextChunk := by
    intro x hx hne
    have hx' : x ∈ s.entries := by rw [hse]; exact mem_cons_of_mem _ hx
    have hxe : ¬ (true = true ∧ s.current = some x) := by
      rintro ⟨-, hc⟩
      rw [b.current] at hc
      exact hne (congrArg QueueEntry.seq (some.inj hc).symm)
    have := h.starts x hx'
    rwa [if_neg hxe, Nat.add_zero] at this
  refine
    { flight := nofun, still := fun _ => by rw [b.flights]; rfl, old := fun f hf => by rw [b.generation]; exact b.old f hf,
      unfinished := ?_, tiers := ?_, counted := by rw [b.seqCounter, b.accepted, h.counted],
      numbered := by rw [b.accepted]; exact h.numbered, dated := by rw [b.accepted, b.generation]; exact h.dated, distinct := ?_,
      backed := ?_, finishes := ?_, starts := ?_, told := ?_, kept := ?_, fresh := ?_ }
  · intro x hx
    rcases hent x hx with ⟨hq, -⟩ | ⟨rfl, hlt⟩
    · exact h.unfinished x (by rw [hse]; exact mem_cons_of_mem _ hq)
    · exact hlt
  · intro x hx
    rcases hent x hx with ⟨hq, -⟩ | ⟨rfl, -⟩
    · exact h.tiers x (by rw [hse]; exact mem_cons_of_mem _ hq)
    · exact h.tiers e he
  · have hnd := h.distinct
    rw [hse, map_cons] at hnd
    rw [SpeechArbiter.entries, b.queue, hcur]
    split
    · exact (nodup_cons.mp hnd).2
    · exact hnd
  · rw [b.accepted, b.generation]
    intro x hx
    rcases hent x hx with ⟨hq, -⟩ | ⟨rfl, -⟩
    · exact h.backed x (by rw [hse]; exact mem_cons_of_mem _ hq)
    · exact h.backed e he
  · intro x hx
    rw [hfi]
    rcases hent x hx with ⟨hq, hne⟩ | ⟨rfl, -⟩
    · rw [if_neg (Ne.symm hne), append_nil]
      exact h.finishes x (by rw [hse]; exact mem_cons_of_mem _ hq)
    · show s.finishes e.seq ++ (if e.seq = e.seq then [e.nextChunk] else []) = List.range (e.nextChunk + 1)
      rw [if_pos rfl, h.finishes e he, List.range_succ]
  · intro x hx
    rw [hst]
    rcases hent x hx with ⟨hq, hne⟩ | ⟨rfl, -⟩
    · simpa using hqueue x hq hne
    · simpa using hold
  · rw [b.accepted]
    intro a ha
    rw [hst, hfi]
    by_cases hs : e.seq = a.seq
    · have hae := h.accepted_mem he ha hs.symm
      rw [if_pos hs, ← hs, hold, h.finishes e he, hae, ← List.range_succ]
      exact ⟨e.nextChunk + 1, e.nextChunk + 1, rfl, h.unfinished e he, rfl, Nat.le_refl _, by omega⟩
    · rw [if_neg hs, append_nil]
      exact h.told a ha
  · rw [b.accepted, b.generation, b.notes]
    intro a ha htier hg hno
    have hno : Note.failed a.seq ∉ s.notes := fun hin => hno (mem_append_left _ hin)
    rw [hfi]
    by_cases hs : e.seq = a.seq
    · have hae := h.accepted_mem he ha hs.symm
      by_cases hfin : ({ e with nextChunk := e.nextChunk + 1 } : QueueEntry).finished = true
      · left
        have hlen := h.unfinished e he
        rw [QueueEntry.finished, decide_eq_true_eq] at hfin
        have hfin : e.intent.chunks.length ≤ e.nextChunk + 1 := hfin
        have heq : e.intent.chunks.length = e.nextChunk + 1 := by omega
        rw [if_pos hs, ← hs, h.finishes e he, hae, heq, List.range_succ]
      · right
        refine ⟨{ e with nextChunk := e.nextChunk + 1 }, ?_, hs⟩
        rw [SpeechArbiter.entries, hcur, if_neg hfin]
        exact mem_append_left _ (by simp)
    · rw [if_neg hs, append_nil]
      refine (h.kept a ha htier hg hno).imp_right fun ⟨x, hx, hxs⟩ => ⟨x, ?_, hxs⟩
      rw [hse] at hx
      rcases mem_cons.mp hx with rfl | hx
      · exact absurd hxs hs
      · rw [SpeechArbiter.entries, b.queue]
        exact mem_append_right _ hx
  · intro q hq
    rw [b.seqCounter] at hq
    have hlt := h.seq_lt he
    rw [hst, hfi, if_neg (by omega), append_nil]
    exact h.fresh q hq

theorem book_failed (h : s.Book true) (b : Back s s' e (.failed e.seq)) (hcur : s'.current = none) : s'.Book false := by
  have hse : s.entries = e :: s.queue := by simp [entries, b.current]
  have hse' : s'.entries = s.queue := by simp [entries, hcur, b.queue]
  have he : e ∈ s.entries := by rw [hse]; exact mem_cons_self
  have hmem : ∀ x ∈ s'.entries, x ∈ s.entries := fun x hx => by
    rw [hse, ← hse']
    exact mem_cons_of_mem _ hx
  have hst : ∀ q, s'.starts q = s.starts q := fun q => by
    simp [SpeechArbiter.starts, b.notes, filterMap_append, startOf]
  have hfi : ∀ q, s'.finishes q = s.finishes q := fun q => by
    simp [SpeechArbiter.finishes, b.notes, filterMap_append, finishOf]
  have hnd := h.distinct
  rw [hse, map_cons, nodup_cons] at hnd
  refine
    { flight := nofun, still := fun _ => by rw [b.flights]; rfl, old := fun f hf => by rw [b.generation]; exact b.old f hf,
      unfinished := fun x hx => h.unfinished x (hmem x hx), tiers := fun x hx => h.tiers x (hmem x hx),
      counted := by rw [b.seqCounter, b.accepted, h.counted], numbered := by rw [b.accepted]; exact h.numbered,
      dated := by rw [b.accepted, b.generation]; exact h.dated, distinct := by rw [hse']; exact hnd.2,
      backed := fun x hx => by rw [b.accepted, b.generation]; exact h.backed x (hmem x hx),
      finishes := fun x hx => by rw [hfi]; exact h.finishes x (hmem x hx), starts := ?_, told := ?_, kept := ?_, fresh := ?_ }
  · intro x hx
    have hne : ¬ (true = true ∧ s.current = some x) := by
      rintro ⟨-, hc⟩
      rw [b.current] at hc
      cases hc
      rw [hse'] at hx
      exact hnd.1 (mem_map_of_mem hx)
    have := h.starts x (hmem x hx)
    rw [if_neg hne] at this
    rw [hst]
    simpa using this
  · rw [b.accepted]
    intro a ha
    rw [hst, hfi]
    exact h.told a ha
  · rw [b.accepted, b.generation, b.notes]
    intro a ha htier hg hno
    rw [hfi]
    refine (h.kept a ha htier hg fun hin => hno (mem_append_left _ hin)).imp_right fun ⟨x, hx, hxs⟩ => ⟨x, ?_, hxs⟩
    rw [hse] at hx
    rcases mem_cons.mp hx with rfl | hx
    · exact absurd (mem_append_right _ (by rw [hxs]; exact mem_singleton.mpr rfl)) hno
    · rwa [hse']
  · intro q hq
    rw [hst, hfi]
    exact h.fresh q (b.seqCounter ▸ hq)

/-! ## What a round of the loop keeps -/

/-- What was noted of the chunks that were started, and what will be of the chatter held. -/
structure Noted (s : SpeechArbiter) : Prop where
  silent : ∀ e higher goesOn, Note.started e true higher goesOn ∈ s.notes → goesOn = true ∧ 0 < e.nextChunk
  highest : ∀ e goesOn, Note.started e false true goesOn ∉ s.notes
  chatter : ∀ e speaking higher goesOn, Note.started e speaking higher goesOn ∈ s.notes →
    e.intent.tier = TIER_CHATTER → e.couldStart = true
  waiting : ∀ e ∈ s.entries, e.intent.tier = TIER_CHATTER → e.couldStart = true

structure Good (s : SpeechArbiter) : Prop where
  book : s.Book s.running
  noted : s.Noted
  resumed : s.running = false → ∀ e ∈ s.current, 0 < e.nextChunk
  waits : s.running = false → s.hasPlayer = true → s.paused = true ∨ s.operatorSpeaking = true ∨ s.entries = []
  playing : s.running = true → s.playingChunk = true ∧ s.hasPlayer = true
  ducked : s.operatorSpeaking = true → ∀ f ∈ s.inFlight, f.volume = DUCKED_VOLUME

/-- What is held is held of before, and nothing but ends of chunks is noted. -/
theorem Noted.of_entries (h : s.Noted) (hent : ∀ e ∈ s'.entries, e.intent.tier = TIER_CHATTER → e.couldStart = true)
    (hnotes : ∀ e speaking higher goesOn, Note.started e speaking higher goesOn ∈ s'.notes → Note.started e speaking higher goesOn ∈ s.notes) :
    s'.Noted where
  silent e higher goesOn he := h.silent e higher goesOn (hnotes _ _ _ _ he)
  highest e goesOn he := h.highest e goesOn (hnotes _ _ _ _ he)
  chatter e speaking higher goesOn he := h.chatter e speaking higher goesOn (hnotes _ _ _ _ he)
  waiting := hent

theorem Noted.play (h : s.Noted) (he : e ∈ s.entries) {goesOn : Bool}
    (hs : s.operatorSpeaking = true → goesOn = true ∧ 0 < e.nextChunk)
    (hh : s.operatorSpeaking = false → ∀ w ∈ s.queue, ¬ w.intent.tier < e.intent.tier) : (s.play e goesOn).Noted := by
  have hnote : ∀ n, n ∈ (s.play e goesOn).notes →
      n ∈ s.notes ∨ n = .started e s.operatorSpeaking (s.queue.any fun w => w.intent.tier < e.intent.tier) goesOn := by
    intro n hn
    exact (mem_append.mp hn).imp_right mem_singleton.mp
  constructor
  · intro x higher g hx
    rcases hnote _ hx with hx | hx
    · exact h.silent x higher g hx
    · injection hx with h1 h2 h3 h4
      subst h1 h4
      exact hs h2.symm
  · intro x g hx
    rcases hnote _ hx with hx | hx
    · exact h.highest x g hx
    · injection hx with h1 h2 h3 h4
      obtain ⟨w, hw, hlt⟩ := any_eq_true.mp h3.symm
      exact hh h2.symm w hw (of_decide_eq_true hlt)
  · intro x speaking higher g hx htier
    rcases hnote _ hx with hx | hx
    · exact h.chatter x speaking higher g hx htier
    · injection hx with h1 h2 h3 h4
      subst h1
      exact h.waiting x he htier
  · exact h.waiting

theorem book_leave (h : s.Book false) : s.leave.Book false :=
  h.shuffle (List.Subperm.refl _) (fun _ hx _ => hx) nofun rfl h.old rfl rfl rfl rfl

/-- One round decides: nothing held is finished. -/
theorem good_drive (h : s.Book false) (hn : s.Noted) (hc : ∀ e ∈ s.current, 0 < e.nextChunk)
    (hr : s.running = true) (hp : s.hasPlayer = true) : s.drive.Good := by
  have hstill : s.inFlight = [] := map_eq_nil_iff.mp (h.still rfl)
  rw [drive, driveFor]
  by_cases hpaused : s.paused = true
  · rw [if_pos hpaused]
    exact
      { book := book_leave h, noted := hn.of_entries hn.waiting fun _ _ _ _ hx => hx, resumed := fun _ => hc, waits := fun _ _ => .inl hpaused, playing := nofun,
        ducked := fun _ f hf => by
          have hf : f ∈ s.inFlight := hf
          rw [hstill] at hf
          cases hf }
  rw [if_neg hpaused]
  rcases select_spec h.tiers with ⟨e, rest, hsel, hpick⟩ | ⟨rest, hsel, hpick⟩
  · rw [hsel]
    obtain ⟨hsub, hkeep⟩ := hpick.entries
    have he : e ∈ s.entries := hsub.subset mem_cons_self
    have hfin : ¬ e.finished = true := by
      have := h.unfinished e he
      rw [QueueEntry.finished, decide_eq_true_eq]
      omega
    show SpeechArbiter.Good (if e.finished = true then _ else _)
    rw [if_neg hfin]
    have hbook : ({ s with queue := rest, current := some e } : SpeechArbiter).Book false :=
      h.shuffle hsub hkeep nofun rfl h.old rfl rfl rfl rfl
    have hplay := book_play hbook rfl (decide (s.current = some e))
    refine
      { book := ?_, noted := Noted.play ?_ mem_cons_self ?_ ?_, resumed := fun h0 => ?_, waits := fun h0 => ?_,
        playing := fun _ => ⟨rfl, hp⟩, ducked := ?_ }
    · have hrun : (({ s with queue := rest, current := some e } : SpeechArbiter).play e (decide (s.current = some e))).running = true := hr
      rw [hrun]
      exact hplay
    · exact hn.of_entries (fun x hx => hn.waiting x (hsub.subset hx)) fun _ _ _ _ hx => hx
    · intro (hs : s.operatorSpeaking = true)
      cases hpick with
      | goesOn hcur hh => exact ⟨decide_eq_true hcur, hc e hcur⟩
      | starts _ hcur hs' hperm hh | preempts c _ hcur hs' hlt hperm hh => rw [hs] at hs'; cases hs'
    · intro (hs : s.operatorSpeaking = false)
      cases hpick with
      | goesOn hcur hh =>
        rcases hh with hs' | hh
        · rw [hs] at hs'
          cases hs'
        · exact hh
      | starts _ hcur hs' hperm hh | preempts c _ hcur hs' hlt hperm hh => exact hh
    · have h0 : s.running = false := h0
      rw [hr] at h0
      cases h0
    · have h0 : s.running = false := h0
      rw [hr] at h0
      cases h0
    · intro (hs : s.operatorSpeaking = true) f hf
      rw [inFlight_play] at hf
      rcases mem_append.mp hf with hf | hf
      · have hf : f ∈ s.inFlight := hf
        rw [hstill] at hf
        cases hf
      · cases mem_singleton.mp hf
        exact if_pos hs
  · rw [hsel]
    have hent : ({ s with queue := rest } : SpeechArbiter).leave.entries.Perm s.entries := by
      cases hpick with
      | empty hcur hq => simp [entries, leave, hcur, hq]
      | floor _ hcur hs hperm =>
        simp only [entries, leave, hcur]
        exact hperm
    exact
      { book := h.shuffle hent.subperm (fun x hx _ => hent.mem_iff.mpr hx) nofun rfl h.old rfl rfl rfl rfl
        noted := hn.of_entries (fun x hx => hn.waiting x (hent.mem_iff.mp hx)) fun _ _ _ _ hx => hx
        resumed := fun _ => hc
        waits := fun _ _ => by
          cases hpick with
          | empty hcur hq => exact .inr (.inr (by simp [entries, leave, hcur]))
          | floor _ hcur hs hperm => exact .inr (.inl hs)
        playing := nofun
        ducked := fun _ f hf => by
          have hf : f ∈ s.inFlight := hf
          rw [hstill] at hf
          cases hf }

/-! ## The calls -/

theorem good_pump (hb : s.Book s.running) (hn : s.Noted) (hc : s.running = false → ∀ e ∈ s.current, 0 < e.nextChunk)
    (hp : s.running = true → s.playingChunk = true ∧ s.hasPlayer = true)
    (hd : s.operatorSpeaking = true → ∀ f ∈ s.inFlight, f.volume = DUCKED_VOLUME) : s.pump.Good := by
  unfold pump
  by_cases hr : s.running = true
  · rw [if_pos hr]
    exact ⟨hb, hn, hc, fun h0 => absurd h0 (by simp [hr]), hp, hd⟩
  have hr : s.running = false := by simpa using hr
  rw [if_neg (by simp [hr])]
  by_cases hplayer : s.hasPlayer = false
  · rw [if_pos hplayer]
    exact ⟨hb, hn, hc, fun _ h0 => absurd h0 (by simp [hplayer]), hp, hd⟩
  rw [if_neg hplayer]
  rw [hr] at hb
  refine good_drive ?_ (hn.of_entries hn.waiting fun _ _ _ _ hx => hx) (hc hr) rfl (by simpa using hplayer)
  exact hb.shuffle (List.Subperm.refl _) (fun _ hx _ => hx) nofun rfl hb.old rfl rfl rfl rfl

theorem book_stopAll {flying : Bool} (h : s.Book flying) : s.stopAll.Book false := by
  have hdated : ∀ a ∈ s.accepted, a.generation ≠ s.generation + 1 := fun a ha hg => by
    have := h.dated a ha
    omega
  refine
    { flight := nofun, still := fun _ => ?_, old := fun f hf => (h.old f hf).trans (Nat.le_succ _), unfinished := nofun, tiers := nofun,
      counted := h.counted, numbered := h.numbered, dated := fun a ha => (h.dated a ha).trans (Nat.le_succ _), distinct := nodup_nil,
      backed := nofun, finishes := nofun, starts := nofun, told := h.told, kept := fun a ha _ hg => absurd hg (hdated a ha),
      fresh := h.fresh }
  rw [map_eq_nil_iff, inFlight, filter_eq_nil_iff]
  intro f hf hg
  have hle := h.old f hf
  have hg : f.generation = s.generation + 1 := of_decide_eq_true hg
  omega

theorem good_stopAll (h : s.Good) : s.stopAll.Good :=
  have hb := book_stopAll h.book
  { book := hb
    noted := h.noted.of_entries nofun fun _ _ _ _ hx => hx
    resumed := fun _ => nofun
    waits := fun _ _ => .inr (.inr rfl)
    playing := nofun
    ducked := fun _ f hf => by
      rw [map_eq_nil_iff.mp (hb.still rfl)] at hf
      cases hf }

theorem good_attachPlayer (h : s.Good) : s.attachPlayer.Good := by
  have key : ∀ t : SpeechArbiter, t.Good → t.running = false → ({ t with hasPlayer := true } : SpeechArbiter).pump.Good := by
    intro t ht hr
    have hb : ({ t with hasPlayer := true } : SpeechArbiter).Book t.running :=
      ht.book.shuffle (List.Subperm.refl _) (fun _ hx _ => hx) (fun _ => rfl) rfl ht.book.old rfl rfl rfl rfl
    exact good_pump hb (ht.noted.of_entries ht.noted.waiting fun _ _ _ _ hx => hx) ht.resumed
      (fun hp => ⟨(ht.playing hp).1, rfl⟩) ht.ducked
  unfold attachPlayer
  by_cases hr : s.running = true
  · rw [if_pos hr]
    exact key _ (good_stopAll h) rfl
  · rw [if_neg hr]
    exact key s h (by simpa using hr)

theorem book_submit {flying : Bool} (h : s.Book flying) (hseq : e.seq = s.seqCounter)
    (hnext : e.nextChunk = 0) (hlen : 0 < e.intent.chunks.length) (htier : e.intent.tier ≤ TIER_CHATTER) : ({ s with
      queue := s.queue ++ [e]
      seqCounter := s.seqCounter + 1
      accepted := s.accepted ++ [⟨s.seqCounter, e.intent.tier, e.intent.chunks, s.generation⟩] } : SpeechArbiter).Book flying := by
  have hent : s.current.toList ++ (s.queue ++ [e]) = s.entries ++ [e] := (append_assoc _ _ _).symm
  have hmem : ∀ x ∈ s.current.toList ++ (s.queue ++ [e]), x ∈ s.entries ∨ x = e := fun x hx => by
    rw [hent] at hx
    exact (mem_append.mp hx).imp_right mem_singleton.mp
  have hnew := h.fresh e.seq (by omega)
  have hlt : ∀ x ∈ s.entries, x.seq < s.accepted.length := fun x hx => h.counted ▸ h.seq_lt hx
  refine
    { flight := h.flight, still := h.still, old := h.old, unfinished := ?_, tiers := ?_, counted := ?_, numbered := ?_, dated := ?_,
      distinct := ?_, backed := ?_, finishes := ?_, starts := ?_, told := ?_, kept := ?_, fresh := ?_ }
  · intro x hx
    rcases hmem x hx with hx | rfl
    · exact h.unfinished x hx
    · omega
  · intro x hx
    rcases hmem x hx with hx | rfl
    · exact h.tiers x hx
    · exact htier
  · simp [h.counted]
  · intro i a ha
    rcases InFlight.get_append ha with ha | ⟨rfl, rfl⟩
    · exact h.numbered i a ha
    · have := h.counted
      omega
  · exact forall_mem_append.mpr ⟨h.dated, forall_mem_singleton.mpr (Nat.le_refl _)⟩
  · show ((s.current.toList ++ (s.queue ++ [e])).map QueueEntry.seq).Nodup
    rw [hent, map_append, nodup_append]
    refine ⟨h.distinct, nodup_singleton _, fun a ha b hb hab => ?_⟩
    obtain ⟨x, hx, rfl⟩ := mem_map.mp ha
    have hb : b = e.seq := by simpa using hb
    have := h.seq_lt hx
    omega
  · intro x hx
    rcases hmem x hx with hx | rfl
    · rw [getElem?_append_left (hlt x hx)]
      exact h.backed x hx
    · rw [getElem?_append_right (by rw [hseq, h.counted])]
      simp [hseq, h.counted]
  · intro x hx
    rcases hmem x hx with hx | rfl
    · exact h.finishes x hx
    · rw [hnext]
      exact hnew.2
  · intro x hx
    rcases hmem x hx with hx | rfl
    · exact h.starts x hx
    · have hcur : s.current ≠ some x := fun hc => by
        have := h.seq_lt (e := x) (by simp [SpeechArbiter.entries, hc])
        omega
      rw [if_neg fun hh => hcur hh.2, hnext]
      exact hnew.1
  · intro a ha
    rcases mem_append.mp ha with ha | ha
    · exact h.told a ha
    · cases mem_singleton.mp ha
      rw [hseq] at hnew
      exact ⟨0, 0, hnew.1, Nat.zero_le _, hnew.2, Nat.le_refl _, Nat.zero_le _⟩
  · intro a ha hat hg hno
    show s.finishes a.seq = _ ∨ ∃ x ∈ s.current.toList ++ (s.queue ++ [e]), x.seq = a.seq
    rw [hent]
    rcases mem_append.mp ha with ha | ha
    · exact (h.kept a ha hat hg hno).imp_right fun ⟨x, hx, hxs⟩ => ⟨x, mem_append_left _ hx, hxs⟩
    · cases mem_singleton.mp ha
      exact .inr ⟨e, mem_append_right _ mem_cons_self, hseq⟩
  · intro q hq
    exact h.fresh q (by have hq : s.seqCounter + 1 ≤ q := hq; omega)

/-- A chatter that is not dropped could start at once, if there is a player. -/
theorem idle_of_not_busy (h : s.Good) (hb : s.busy = false) : s.running = false := by
  by_contra hr
  obtain ⟨e, he, -⟩ := (by simpa using hr : s.running = true) ▸ h.book |>.flight rfl
  simp [busy, he] at hb

theorem good_submit (h : s.Good) (input : SpeechIntentInput)
    (ht : input.tier = TIER_CHATTER → s.hasPlayer = true ∨ s.drops input = true) : (s.submit input).Good := by
  unfold submit
  by_cases hd : s.drops input = true
  · rw [if_pos hd]
    exact h
  rw [if_neg hd]
  have hdrop : ¬ ((!validTier input.tier || chunksOf input = [] || (input.tier = TIER_CHATTER && s.busy)) = true) := hd
  simp only [Bool.or_eq_true, Bool.and_eq_true, decide_eq_true_eq, not_or, not_and, Bool.not_eq_true, Bool.not_eq_false'] at hdrop
  obtain ⟨⟨hvalid, hchunks⟩, hidle⟩ := hdrop
  have htier : input.tier ≤ TIER_CHATTER := by
    simp only [validTier, Bool.or_eq_true, decide_eq_true_eq] at hvalid
    simp only [TIER_RECEIPT_ACK, TIER_ANSWER, TIER_CHATTER] at hvalid ⊢
    omega
  refine good_pump ?_ ?_ h.resumed h.playing h.ducked
  · exact book_submit (e := ⟨_, 0, s.seqCounter, _⟩) h.book rfl rfl (length_pos_of_ne_nil hchunks) htier
  · refine h.noted.of_entries (fun x hx hxt => ?_) fun _ _ _ _ hx => hx
    have hx : x ∈ s.current.toList ++ (s.queue ++ [_]) := hx
    rw [← append_assoc] at hx
    rcases mem_append.mp hx with hx | hx
    · exact h.noted.waiting x hx hxt
    · cases mem_singleton.mp hx
      have hxt : input.tier = TIER_CHATTER := hxt
      have hplayer : s.hasPlayer = true := (ht hxt).resolve_right hd
      have hb : s.busy = false := hidle hxt
      simp [hplayer, hb, idle_of_not_busy h hb]

theorem inFlight_setVolume (s : SpeechArbiter) (volume : ℚ) :
    (s.setVolume volume).inFlight = s.inFlight.map fun f => { f with volume := volume } := by
  show (s.flights.map _).filter (fun f : Flight => decide (f.generation = s.generation)) = _
  rw [inFlight]
  induction s.flights with
  | nil => rfl
  | cons f flights ih =>
    by_cases hg : f.generation = s.generation <;> simp [hg, ih]

/-- What waits is filtered when the operator starts to speak. -/
theorem filter_queue : (s.current.toList ++ s.queue.filter (·.intent.tier ≠ TIER_CHATTER)).Sublist s.entries ∧
      ∀ x ∈ s.entries, x.intent.tier ≠ TIER_CHATTER → x ∈ s.current.toList ++ s.queue.filter (·.intent.tier ≠ TIER_CHATTER) := by
  refine ⟨(List.Sublist.refl _).append filter_sublist, fun x hx hxt => ?_⟩
  rcases mem_append.mp hx with hx | hx
  · exact mem_append_left _ hx
  · exact mem_append_right _ (mem_filter.mpr ⟨hx, by simpa using hxt⟩)

theorem good_setOperatorSpeaking (h : s.Good) (speaking : Bool) : (s.setOperatorSpeaking speaking).Good := by
  unfold setOperatorSpeaking
  by_cases hsame : s.operatorSpeaking = speaking
  · rw [if_pos hsame]
    exact h
  rw [if_neg hsame]
  by_cases hs : speaking = true
  · rw [if_pos hs]
    obtain ⟨hsub, hkeep⟩ := filter_queue (s := s)
    by_cases hp : (s.playingChunk && s.hasPlayer) = true
    · rw [if_pos hp]
      have hfl : ({ s with ducked := true } : SpeechArbiter).inFlight = s.inFlight := rfl
      have hduck : ((({ s with ducked := true } : SpeechArbiter).setVolume DUCKED_VOLUME).inFlight) =
          s.inFlight.map fun f => { f with volume := DUCKED_VOLUME } := (inFlight_setVolume _ _).trans (by rw [hfl])
      refine
        { book := ?_, noted := h.noted.of_entries (fun x hx => h.noted.waiting x (hsub.subset hx)) fun _ _ _ _ hx => hx,
          resumed := h.resumed, waits := fun _ _ => .inr (.inl rfl), playing := h.playing, ducked := fun _ f hf => ?_ }
      · refine h.book.shuffle hsub.subperm hkeep (fun _ => rfl) ?_ ?_ rfl rfl rfl rfl
        · refine (congrArg (List.map Flight.entry) hduck).trans ?_
          rw [List.map_map]
          rfl
        · intro f hf
          obtain ⟨f', hf', rfl⟩ := mem_map.mp hf
          have := h.book.old f' hf'
          split <;> exact this
      · have hf : f ∈ ((({ s with ducked := true } : SpeechArbiter).setVolume DUCKED_VOLUME).inFlight) := hf
        rw [hduck] at hf
        obtain ⟨f', -, rfl⟩ := mem_map.mp hf
        rfl
    · rw [if_neg hp]
      -- no chunk is being played
      have hr : s.running = false := by
        by_contra hr
        obtain ⟨h1, h2⟩ := h.playing (by simpa using hr)
        exact hp (by rw [h1, h2]; rfl)
      have hb := h.book
      rw [hr] at hb
      exact
        { book := h.book.shuffle hsub.subperm hkeep (fun _ => rfl) rfl h.book.old rfl rfl rfl rfl
          noted := h.noted.of_entries (fun x hx => h.noted.waiting x (hsub.subset hx)) fun _ _ _ _ hx => hx
          resumed := h.resumed, waits := fun _ _ => .inr (.inl rfl), playing := h.playing
          ducked := fun _ f hf => by
            have hf : f ∈ s.inFlight := hf
            rw [map_eq_nil_iff.mp (hb.still rfl)] at hf
            cases hf }
  · rw [if_neg hs]
    have hb : ({ s with operatorSpeaking := false } : SpeechArbiter).Book s.running :=
      h.book.shuffle (List.Subperm.refl _) (fun _ hx _ => hx) (fun _ => rfl) rfl h.book.old rfl rfl rfl rfl
    exact good_pump hb (h.noted.of_entries h.noted.waiting fun _ _ _ _ hx => hx) h.resumed h.playing nofun

theorem good_pause (h : s.Good) : s.pause.Good where
  book := h.book.shuffle (List.Subperm.refl _) (fun _ hx _ => hx) (fun _ => rfl) rfl h.book.old rfl rfl rfl rfl
  noted := h.noted.of_entries h.noted.waiting fun _ _ _ _ hx => hx
  resumed := h.resumed
  waits _ _ := .inl rfl
  playing := h.playing
  ducked := h.ducked

theorem good_resume (h : s.Good) : s.resume.Good := by
  unfold resume
  by_cases hp : s.paused = true
  · rw [if_pos hp]
    have hb : ({ s with paused := false } : SpeechArbiter).Book s.running :=
      h.book.shuffle (List.Subperm.refl _) (fun _ hx _ => hx) (fun _ => rfl) rfl h.book.old rfl rfl rfl rfl
    exact good_pump hb (h.noted.of_entries h.noted.waiting fun _ _ _ _ hx => hx) h.resumed h.playing h.ducked
  · rw [if_neg hp]
    exact h

theorem good_settled (h : s.Good) (i : ℕ) (ok : Bool)
    (ht : ∀ f ∈ s.flights[i]?, f.generation = s.generation ∨ s.inFlight = []) : (s.settled i ok).Good := by
  unfold settled
  split
  · exact h
  next f hf =>
  by_cases hg : f.generation = s.generation
  · show SpeechArbiter.Good (if f.generation ≠ s.generation then _ else _)
    rw [if_neg (not_not.mpr hg)]
    obtain ⟨hr, hcur, hnil⟩ := flight_of_generation h.book hf hg
    have hb := h.book
    rw [hr] at hb
    have hold : ∀ f' ∈ s.flights.eraseIdx i, f'.generation ≤ s.generation := fun f' hf' => h.book.old f' (mem_of_mem_eraseIdx hf')
    have hchatter : f.entry.intent.tier = TIER_CHATTER → f.entry.couldStart = true :=
      h.noted.waiting f.entry (by simp [entries, hcur])
    have hqueue : ∀ x ∈ s.queue, x.intent.tier = TIER_CHATTER → x.couldStart = true := fun x hx =>
      h.noted.waiting x (mem_append_right _ hx)
    by_cases hok : ok = true
    · rw [if_pos hok]
      have hback : SpeechArbiter.Book { s with
          flights := s.flights.eraseIdx i
          playingChunk := false
          current := if ({ f.entry with nextChunk := f.entry.nextChunk + 1 } : QueueEntry).finished then none
            else some { f.entry with nextChunk := f.entry.nextChunk + 1 }
          notes := s.notes ++ [.finished f.entry.seq f.entry.nextChunk] } false :=
        book_finished hb (e := f.entry) ⟨hcur, rfl, hnil, hold, rfl, rfl, rfl, rfl⟩ rfl
      refine good_drive hback (h.noted.of_entries (fun x hx hxt => ?_) fun e sp hi g hx => ?_) (fun e he => ?_) hr (h.playing hr).2
      · rcases mem_append.mp hx with hx | hx
        · split at hx
          · cases hx
          · have hx : x = { f.entry with nextChunk := f.entry.nextChunk + 1 } := by simpa using hx
            subst hx
            exact hchatter hxt
        · exact hqueue x hx hxt
      · exact (mem_append.mp hx).resolve_right fun hx => by cases mem_singleton.mp hx
      · split at he
        · cases he
        · cases he
          exact Nat.succ_pos _
    · rw [if_neg hok]
      have hback : SpeechArbiter.Book { s with
          flights := s.flights.eraseIdx i, playingChunk := false, current := none, notes := s.notes ++ [.failed f.entry.seq] } false :=
        book_failed hb (e := f.entry) ⟨hcur, rfl, hnil, hold, rfl, rfl, rfl, rfl⟩ rfl
      refine good_drive hback (h.noted.of_entries hqueue fun e sp hi g hx => ?_) nofun hr (h.playing hr).2
      exact (mem_append.mp hx).resolve_right fun hx => by cases mem_singleton.mp hx
  · -- a chunk that was cut: nothing else is in flight
    show SpeechArbiter.Good (if f.generation ≠ s.generation then _ else _)
    rw [if_pos hg]
    have hnil : s.inFlight = [] := (ht f hf).resolve_left hg
    have hr : s.running = false := by
      by_contra hr
      have hb := h.book
      rw [show s.running = true by simpa using hr] at hb
      obtain ⟨e, -, hmap⟩ := hb.flight rfl
      rw [hnil] at hmap
      cases hmap
    have herase : (s.flights.eraseIdx i).filter (fun f : Flight => decide (f.generation = s.generation)) = s.inFlight :=
      filter_eraseIdx_of_not hf (by simp [hg])
    exact
      { book := h.book.shuffle (List.Subperm.refl _) (fun _ hx _ => hx) (fun _ => rfl) (congrArg (List.map Flight.entry) herase)
          (fun f' hf' => h.book.old f' (mem_of_mem_eraseIdx hf')) rfl rfl rfl rfl
        noted := h.noted.of_entries h.noted.waiting fun _ _ _ _ hx => hx
        resumed := h.resumed
        waits := h.waits
        playing := fun h0 => absurd h0 (by simp [hr])
        ducked := fun _ f' hf' => by
          have hf' : f' ∈ (s.flights.eraseIdx i).filter (fun f : Flight => decide (f.generation = s.generation)) := hf'
          rw [herase, hnil] at hf'
          cases hf' }

theorem good_step (s : SpeechArbiter) (e : ArbiterEvent) (h : s.Good) (ht : s.Timely e) : (s.step e).Good := by
  cases e with
  | attachPlayer => exact good_attachPlayer h
  | submit input => exact good_submit h input ht
  | setOperatorSpeaking speaking => exact good_setOperatorSpeaking h speaking
  | pause => exact good_pause h
  | resume => exact good_resume h
  | stopAll => exact good_stopAll h
  | settled i ok => exact good_settled h i ok ht

theorem good_createSpeechArbiter : createSpeechArbiter.Good where
  book :=
    { flight := nofun, still := fun _ => rfl, old := nofun, unfinished := nofun, tiers := nofun, counted := rfl, numbered := nofun,
      dated := nofun, distinct := nodup_nil, backed := nofun, finishes := nofun, starts := nofun, told := nofun, kept := nofun,
      fresh := fun _ _ => ⟨rfl, rfl⟩ }
  noted := ⟨nofun, nofun, nofun, nofun⟩
  resumed _ := nofun
  waits _ := nofun
  playing := nofun
  ducked := nofun

theorem Good.onLadder (h : s.Good) : s.OnLadder where
  single := by
    rw [← length_map (f := Flight.entry)]
    by_cases hr : s.running = true
    · obtain ⟨e, -, hmap⟩ := (hr ▸ h.book).flight rfl
      rw [hmap]
      exact Nat.le_refl _
    · have hr : s.running = false := by simpa using hr
      have hb := h.book
      rw [hr] at hb
      rw [hb.still rfl]
      exact Nat.zero_le _
  played a ha htier :=
    { order := h.book.told a ha
      held := fun hg hno => by
        refine (h.book.kept a ha htier hg hno).imp_right fun ⟨e, he, hseq⟩ => ⟨e, he, hseq, ?_, ?_⟩
        · rw [h.book.accepted_mem he ha hseq.symm]
        · rw [← hseq]
          exact h.book.finishes e he }
  silent := h.noted.silent
  highest := h.noted.highest
  chatter := h.noted.chatter
  ducked := h.ducked
  driven hplayer hpaused hspeaking hne := by
    have hr : s.running = true := by
      by_contra hr
      rcases h.waits (by simpa using hr) hplayer with hp | hs | he
      · rw [hpaused] at hp
        cases hp
      · rw [hspeaking] at hs
        cases hs
      · exact hne he
    refine ⟨hr, fun hnil => ?_⟩
    obtain ⟨e, -, hmap⟩ := (hr ▸ h.book).flight rfl
    rw [hnil] at hmap
    cases hmap

instance decidableTimely (s : SpeechArbiter) : ∀ e, Decidable (s.Timely e)
  | .settled i _ =>
    match hf : s.flights[i]? with
    | none => isTrue fun f h => by rw [hf] at h; cases h
    | some f => decidable_of_iff (f.generation = s.generation ∨ s.inFlight = []) (by simp [Timely, hf])
  | .submit input => inferInstanceAs (Decidable (input.tier = TIER_CHATTER → s.hasPlayer = true ∨ s.drops input = true))
  | .attachPlayer | .setOperatorSpeaking _ | .pause | .resume | .stopAll => isTrue trivial

theorem on_the_ladder (es : List ArbiterEvent) (h : Run.Along step Timely createSpeechArbiter es) :
    (es.foldl step createSpeechArbiter).OnLadder :=
  (Run.invariant good_step good_createSpeechArbiter h).onLadder

def answer : SpeechIntentInput := ⟨none, TIER_ANSWER, some [js "one.", js "two."], none⟩

def chatterInput : SpeechIntentInput := ⟨none, TIER_CHATTER, some [js "hm."], none⟩

/-- An answer is interrupted by the operator, paused and gone on with, and its second chunk fails. -/
theorem on_the_ladder_resumed :
    (([.attachPlayer, .submit answer, .setOperatorSpeaking true, .pause, .settled 0 true, .submit chatterInput, .setOperatorSpeaking false,
      .resume, .settled 0 false] : List ArbiterEvent).foldl step createSpeechArbiter).OnLadder :=
  on_the_ladder _ (by decide +kernel)

/-- The chunk `stopAll` cut settles while the next intent's is played; the operator speaks. -/
def lateChunk : List ArbiterEvent :=
  [.attachPlayer, .submit answer, .stopAll, .submit answer, .settled 0 true, .setOperatorSpeaking true]

theorem a_late_chunk_unducks : ¬ ∀ es : List ArbiterEvent, (es.foldl step createSpeechArbiter).OnLadder := by
  intro h
  have hspeaking : (lateChunk.foldl step createSpeechArbiter).operatorSpeaking = true := by decide +kernel
  have hflight : ∃ f ∈ (lateChunk.foldl step createSpeechArbiter).inFlight, f.volume = NORMAL_VOLUME := by decide +kernel
  obtain ⟨f, hf, hv⟩ := hflight
  have hd := (h lateChunk).ducked hspeaking f hf
  rw [hv] at hd
  exact absurd hd (by decide +kernel)

/-- A chatter is accepted with nothing to play it, and played when there is. -/
theorem chatter_waits_for_a_player : ¬ ∀ es : List ArbiterEvent, (es.foldl step createSpeechArbiter).OnLadder := by
  intro h
  have hnote : ∃ n ∈ ([.submit chatterInput, .attachPlayer].foldl step createSpeechArbiter).notes,
      n = .started ⟨⟨js "intent-0", TIER_CHATTER, [js "hm."]⟩, 0, 0, false⟩ false false false := by decide +kernel
  obtain ⟨n, hn, rfl⟩ := hnote
  exact absurd ((h [.submit chatterInput, .attachPlayer]).chatter _ _ _ _ hn rfl) (by decide)

end SpeechArbiter

end PiWebUi.Speech
