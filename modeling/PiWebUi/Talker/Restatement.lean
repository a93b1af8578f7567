/-
  PiWebUi.Talker.Restatement — an utterance that states the draft again
  (server/src/talker/proposal-store.ts, `isDraftRestatement` and `appendToDraft`).

  What is compared is the whole draft, as its release would send it, and the words as they
  were spoken, both without case, punctuation and spacing. Of `\p{L}` and `\p{N}` and of
  `toLowerCase` the theorems take only that lower case goes word by word: what stands before
  a blank does not depend on what stands after it.
-/

import PiWebUi.Talker.RelayConserved

namespace PiWebUi.Talker

open PiWebUi.Lib List Option

/-! ## The compared text -/

/-- What the language knows of letters. -/
structure Letters where
  toLowerCase : JsString → JsString
  /-- `\p{L}` or `\p{N}`, of a code point. -/
  isLetterOrNumber : ℕ → Bool

/-- The code point of a surrogate pair. -/
def codePoint (high low : UInt16) : ℕ := 0x10000 + (high.toNat - 0xD800) * 0x400 + (low.toNat - 0xDC00)

namespace Letters

variable (t : Letters)

/-- Not matched by `[^\p{L}\p{N}']`. -/
def keeps (point : ℕ) : Bool := t.isLetterOrNumber point || point = 39

/-- `replace(/[^\p{L}\p{N}']+/gu, ' ')`; `inRun` says that the previous code point was one of
    a run. -/
def spaceOut (inRun : Bool) : JsString → JsString
  | [] => []
  | [u] => if t.keeps u.toNat then [u] else if inRun then [] else [32]
  | u :: v :: r =>
    if isHighSurrogate u && isLowSurrogate v then
      if t.keeps (codePoint u v) then u :: v :: spaceOut false r
      else if inRun then spaceOut true r
      else 32 :: spaceOut true r
    else if t.keeps u.toNat then u :: spaceOut false (v :: r)
    else if inRun then spaceOut true (v :: r)
    else 32 :: spaceOut true (v :: r)

def normaliseForRestatement (text : JsString) : JsString := trim (t.spaceOut false (t.toLowerCase text))

def wording (sha256 : JsString → JsString) : Wording := relayWording t.normaliseForRestatement sha256

end Letters

/-! ## More words -/

theorem dropWhile_append_of_ne_nil {α : Type} {p : α → Bool} {xs : List α} (ys : List α) (h : xs.dropWhile p ≠ []) :
    (xs ++ ys).dropWhile p = xs.dropWhile p ++ ys := by
  rw [dropWhile_append, if_neg]
  rwa [List.isEmpty_iff]

/-- What is trimmed of the beginning of a text begins what is trimmed of the text. -/
theorem trim_prefix_append (a b : JsString) : trim a <+: trim (a ++ b) := by
  unfold trim
  by_cases ha : a.dropWhile isWhiteSpace = []
  · rw [ha]
    exact nil_prefix
  · rw [dropWhile_append_of_ne_nil b ha, reverse_append]
    by_cases hb : b.reverse.dropWhile isWhiteSpace = []
    · rw [dropWhile_append, hb]
      exact prefix_rfl
    · rw [dropWhile_append_of_ne_nil _ hb, reverse_append, reverse_reverse]
      refine List.IsPrefix.trans ?_ (prefix_append _ _)
      -- what is left of the reversed text is a part of it at its end
      obtain ⟨blank, hblank⟩ := dropWhile_suffix isWhiteSpace (l := (a.dropWhile isWhiteSpace).reverse)
      refine ⟨blank.reverse, ?_⟩
      rw [← reverse_append, hblank, reverse_reverse]

theorem spaceOut_prefix (t : Letters) (y : JsString) (x : JsString) :
    ∀ inRun, t.spaceOut inRun x <+: t.spaceOut inRun (x ++ 32 :: y) := by
  induction x using List.twoStepInduction with
  | nil => exact fun _ => nil_prefix
  | singleton u =>
    intro inRun
    have hnot : (isHighSurrogate u && isLowSurrogate 32) = false := by
      rw [show isLowSurrogate 32 = false from rfl, Bool.and_false]
    simp only [singleton_append, Letters.spaceOut, hnot, Bool.false_eq_true, if_false]
    split
    · exact ⟨_, rfl⟩
    · split
      · exact nil_prefix
      · exact ⟨_, rfl⟩
  | cons_cons u v r ih₁ ih₂ =>
    intro inRun
    simp only [List.cons_append, Letters.spaceOut]
    split
    · split
      · exact prefix_cons_inj _ |>.mpr (prefix_cons_inj _ |>.mpr (ih₁ false))
      · split
        · exact ih₁ true
        · exact prefix_cons_inj _ |>.mpr (ih₁ true)
    · split
      · exact prefix_cons_inj _ |>.mpr (ih₂ v false)
      · split
        · exact ih₂ v true
        · exact prefix_cons_inj _ |>.mpr (ih₂ v true)

/-- Of the language: a blank parts what is put in lower case. -/
def Letters.WordByWord (t : Letters) : Prop := ∀ x y, t.toLowerCase (x ++ 32 :: y) = t.toLowerCase x ++ 32 :: t.toLowerCase y

/-- A text with more words begins, as compared, with the text. -/
theorem more_words {t : Letters} (h : t.WordByWord) (u more : JsString) :
    t.normaliseForRestatement u <+: t.normaliseForRestatement (u ++ 32 :: more) := by
  unfold Letters.normaliseForRestatement
  rw [h]
  obtain ⟨rest, hrest⟩ := spaceOut_prefix t (t.toLowerCase more) (t.toLowerCase u) false
  rw [← hrest]
  exact trim_prefix_append _ _

/-! ## What an append leaves -/

/-- One text states the other again: each has words, and one begins with the other. -/
def Restates (t : Letters) (held text : JsString) : Prop :=
  t.normaliseForRestatement held ≠ [] ∧ t.normaliseForRestatement text ≠ [] ∧
    (t.normaliseForRestatement held <+: t.normaliseForRestatement text ∨
      t.normaliseForRestatement text <+: t.normaliseForRestatement held)

section

variable {t : Letters} {sha256 : JsString → JsString} {s : PendingProposalStore} {d : OperatorDraft} {u : JsString}

theorem isDraftRestatement_iff {held text : JsString} :
    isDraftRestatement (t.wording sha256) held text = true ↔ Restates t held text := by
  unfold isDraftRestatement Restates
  simp only [Bool.and_eq_true, Bool.or_eq_true, decide_eq_true_eq, isPrefixOf_iff_prefix]
  constructor
  · intro h
    exact ⟨h.1.1, h.1.2, h.2.symm⟩
  · intro h
    exact ⟨⟨h.1, h.2.1⟩, h.2.2.symm⟩

theorem snapshot_append_alone {w : Wording} (h : s.heldBeside w u = none) (id : ℕ) (turn : ℤ) :
    (s.appendToDraft w id u turn).snapshotDraft = some [PendingProposalStore.draftEntry w id u turn] := by
  simp only [PendingProposalStore.appendToDraft, h]
  rfl

theorem snapshot_append_beside {w : Wording} (h : s.heldBeside w u = some d) (id : ℕ) (turn : ℤ) :
    (s.appendToDraft w id u turn).snapshotDraft = some (d.utterances ++ [PendingProposalStore.draftEntry w id u turn]) := by
  simp only [PendingProposalStore.appendToDraft, h, PendingProposalStore.snapshotDraft, PendingProposalStore.live]
  rw [filter_some, if_pos]
  · rfl
  · simp

/-- A draft is replaced by a text that states it again, and stays beside any other. -/
theorem heldBeside_live (hd : s.live = some d) :
    (Restates t (joinDraftText d.utterances) u → s.heldBeside (t.wording sha256) u = none) ∧
      (¬ Restates t (joinDraftText d.utterances) u → s.heldBeside (t.wording sha256) u = some d) := by
  rw [PendingProposalStore.heldBeside, hd, ← @isDraftRestatement_iff t sha256]
  constructor
  · intro h
    rw [filter_some, h]
    rfl
  · intro h
    rw [filter_some, Bool.not_eq_true _ |>.mp h]
    rfl

theorem wording_relay : (t.wording sha256).normaliseRelayText = normaliseRelayText := by
  simp only [Letters.wording, relayWording]

theorem entry_id (w : Wording) (id : ℕ) (u : JsString) (turn : ℤ) : (PendingProposalStore.draftEntry w id u turn).id = id := by
  simp only [PendingProposalStore.draftEntry]
  split <;> rfl

theorem entry_text_of {w : Wording} (hw : ∀ raw, (w.normaliseRelayText raw).changed = false → (w.normaliseRelayText raw).text = raw)
    (id : ℕ) (u : JsString) (turn : ℤ) : (PendingProposalStore.draftEntry w id u turn).text = (w.normaliseRelayText u).text := by
  simp only [PendingProposalStore.draftEntry]
  split
  · rfl
  next h => exact (hw u (Bool.not_eq_true _ |>.mp h)).symm

theorem entry_text (id : ℕ) (u : JsString) (turn : ℤ) :
    (PendingProposalStore.draftEntry (t.wording sha256) id u turn).text = (normaliseRelayText u).text := by
  rw [entry_text_of, wording_relay]
  intro raw h
  rw [wording_relay] at h ⊢
  exact normaliseRelayText_unchanged h

theorem joinDraftText_singleton (part : DraftUtteranceEntry) : joinDraftText [part] = part.text := joinLines_singleton _

/-- An utterance, left as spoken, that has the draft to itself is replaced by it and more words. -/
theorem replaced_by_more (ht : t.WordByWord) (hu : (normaliseRelayText u).changed = false) (hwords : t.normaliseForRestatement u ≠ [])
    (h : s.heldBeside (t.wording sha256) u = none) (more : JsString) (id id' : ℕ) (turn turn' : ℤ) :
    ((s.appendToDraft (t.wording sha256) id u turn).appendToDraft (t.wording sha256) id' (u ++ 32 :: more) turn').snapshotDraft =
      some [PendingProposalStore.draftEntry (t.wording sha256) id' (u ++ 32 :: more) turn'] := by
  apply snapshot_append_alone
  have hfirst := snapshot_append_alone (w := t.wording sha256) h id turn
  obtain ⟨d, hd, hparts⟩ := map_eq_some_iff.mp hfirst
  apply (heldBeside_live hd).1
  have hprefix := more_words ht u more
  have htext : joinDraftText d.utterances = u := by
    rw [hparts, joinDraftText_singleton, entry_text]
    exact normaliseRelayText_unchanged hu
  rw [htext]
  refine ⟨hwords, ?_, .inl hprefix⟩
  intro hnone
  rw [hnone] at hprefix
  exact hwords (prefix_nil.mp hprefix)

end

/-- Where an utterance is left as spoken and starts the draft or states it again, it and more
    words leave one part. An append states a draft that is held as spoken again where one of the
    whole draft and the new text begins with the other, and else leaves every part. And what an
    append replaces begins the new text, or is longer and begins with it. -/
theorem restatement_replaces (t : Letters) (ht : t.WordByWord) (sha256 : JsString → JsString) (s : PendingProposalStore) :
    (∀ (u more : JsString) (id id' : ℕ) (turn turn' : ℤ), (normaliseRelayText u).changed = false →
      t.normaliseForRestatement u ≠ [] → s.heldBeside (t.wording sha256) u = none →
      ∃ part, ((s.appendToDraft (t.wording sha256) id u turn).appendToDraft (t.wording sha256) id' (u ++ 32 :: more)
          turn').snapshotDraft = some [part] ∧
        part.id = id' ∧ part.text = (normaliseRelayText (u ++ 32 :: more)).text) ∧
    (∀ (d : OperatorDraft) (u : JsString) (id : ℕ) (turn : ℤ), s.live = some d → (∀ part ∈ d.utterances, part.originalText = none) →
      (Restates t (joinDraftText d.utterances) u → (s.appendToDraft (t.wording sha256) id u turn).snapshotDraft =
        some [PendingProposalStore.draftEntry (t.wording sha256) id u turn]) ∧
      (¬ Restates t (joinDraftText d.utterances) u → (s.appendToDraft (t.wording sha256) id u turn).snapshotDraft =
        some (d.utterances ++ [PendingProposalStore.draftEntry (t.wording sha256) id u turn]))) ∧
    ∀ (d : OperatorDraft) (u : JsString) (id : ℕ) (turn : ℤ), s.live = some d →
      (s.appendToDraft (t.wording sha256) id u turn).snapshotDraft =
          some (d.utterances ++ [PendingProposalStore.draftEntry (t.wording sha256) id u turn]) ∨
        ((s.appendToDraft (t.wording sha256) id u turn).snapshotDraft =
            some [PendingProposalStore.draftEntry (t.wording sha256) id u turn] ∧
          (t.normaliseForRestatement (joinDraftText d.utterances) <+: t.normaliseForRestatement u ∨
            t.normaliseForRestatement u <+: t.normaliseForRestatement (joinDraftText d.utterances))) := by
  refine ⟨?_, ?_, ?_⟩
  · intro u more id id' turn turn' hu hwords hbeside
    exact ⟨_, replaced_by_more ht hu hwords hbeside more id id' turn turn', entry_id _ _ _ _, entry_text _ _ _⟩
  · intro d u id turn hd _
    obtain ⟨halone, hbeside⟩ := @heldBeside_live t sha256 _ _ u hd
    exact ⟨fun h => snapshot_append_alone (halone h) id turn, fun h => snapshot_append_beside (hbeside h) id turn⟩
  · intro d u id turn hd
    obtain ⟨halone, hbeside⟩ := @heldBeside_live t sha256 _ _ u hd
    by_cases h : Restates t (joinDraftText d.utterances) u
    · exact .inr ⟨snapshot_append_alone (halone h) id turn, h.2.2⟩
    · exact .inl (snapshot_append_beside (hbeside h) id turn)

/-- The letters and digits of ASCII. -/
def ascii : Letters where
  toLowerCase := List.map RegExp.lower
  isLetterOrNumber n := (48 ≤ n && n ≤ 57) || (65 ≤ n && n ≤ 90) || (97 ≤ n && n ≤ 122)

theorem ascii_wordByWord : ascii.WordByWord := fun _ _ => map_append

/-- An instruction and more of it; the draft then holds the extended one alone. -/
theorem check_the_build_extended :
    ∃ part, ((({} : PendingProposalStore).appendToDraft (ascii.wording id) 1 (js "check the build") 1).appendToDraft (ascii.wording id)
        2 (js "check the build" ++ 32 :: js "but do not deploy") 2).snapshotDraft = some [part] ∧
      part.id = 2 ∧ part.text = (normaliseRelayText (js "check the build" ++ 32 :: js "but do not deploy")).text :=
  (restatement_replaces ascii ascii_wordByWord id {}).1 (js "check the build") (js "but do not deploy") 1 2 1 2
    (by decide +kernel) (by decide +kernel) rfl

/-- An utterance of which the address is taken out is not found again in the extended one,
    and a shorter statement drops the words it leaves out. -/
theorem restatement_limits :
    (((({} : PendingProposalStore).appendToDraft (ascii.wording id) 1 (js "ask the worker to run the tests") 1).appendToDraft
        (ascii.wording id) 2 (js "ask the worker to run the tests twice") 2).snapshotDraft.map (List.map (·.text)) =
      some [js "run the tests", js "run the tests twice"]) ∧
    ((({} : PendingProposalStore).appendToDraft (ascii.wording id) 1 (js "check the build status and report") 1).appendToDraft
        (ascii.wording id) 2 (js "check the build") 2).snapshotDraft.map (List.map (·.text)) = some [js "check the build"] ∧
    (((({} : PendingProposalStore).appendToDraft (ascii.wording id) 1 (js "run the tests") 1).appendToDraft
        (ascii.wording id) 2 (js "check the build") 2).appendToDraft
        (ascii.wording id) 3 (js "check the build twice") 3).snapshotDraft.map (List.map (·.text)) =
      some [js "run the tests", js "check the build", js "check the build twice"] := by
  decide +kernel

end PiWebUi.Talker
