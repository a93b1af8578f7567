/-
  PiWebUi.Talker.RelayConserved — the normalisation of a spoken text takes out, and says so.

  What can be seen of a text is what can be seen of the normalised one and of the removals
  it reports, each in its order (`conserves_normaliseRelayText`): every pass keeps that, since
  a pass takes a stretch out and writes it down, or moves white space only. A description
  that reports nothing taken out has the words as spoken up to white space, whatever was
  appended to the draft before and taken from it.
-/

import Mathlib.Data.List.TakeWhile
import PiWebUi.Lib.Interleave
import PiWebUi.Talker.Described
import PiWebUi.Talker.RelayNormalise

namespace PiWebUi.Talker

open PiWebUi.Lib PiWebUi.Lib.RegExp PiWebUi.Lib.RegExp.Pattern PendingProposalStore List

/-- The units of a text that are not white space. -/
def shown (text : JsString) : JsString := text.filter (!isWhiteSpace ·)

theorem shown_append (s t : JsString) : shown (s ++ t) = shown s ++ shown t := filter_append s t

theorem shown_eq_nil {s : JsString} (h : ∀ u ∈ s, isWhiteSpace u = true) : shown s = [] := by
  rw [shown, filter_eq_nil_iff]
  intro u hu
  simp [h u hu]

theorem shown_dropWhile (s : JsString) : shown (s.dropWhile isWhiteSpace) = shown s := by
  induction s with
  | nil => rfl
  | cons u s ih =>
    by_cases hu : isWhiteSpace u = true
    · rw [dropWhile_cons_of_pos hu, ih, shown, shown, filter_cons_of_neg (by simp [hu])]
    · rw [dropWhile_cons_of_neg hu]

theorem shown_reverse (s : JsString) : shown s.reverse = (shown s).reverse := by rw [shown, shown, filter_reverse]

theorem shown_trim (s : JsString) : shown (trim s) = shown s := by
  rw [trim, shown_reverse, shown_dropWhile, shown_reverse, reverse_reverse, shown_dropWhile]

/-- A text with nothing to be seen is trimmed to nothing. -/
theorem trim_eq_nil {s : JsString} (h : shown s = []) : trim s = [] := by
  have hall : ∀ u ∈ s, isWhiteSpace u = true := by
    intro u hu
    have hnot := (filter_eq_nil_iff.mp h) u hu
    simpa using hnot
  rw [trim, dropWhile_eq_nil_iff.mpr hall]
  rfl

theorem hasVisible_eq_false {s : JsString} : hasVisible s = false ↔ shown s = [] := by
  rw [hasVisible, any_eq_false, shown, filter_eq_nil_iff]

theorem shown_joinLines (ls : List JsString) : shown (joinLines ls) = (ls.map shown).flatten := by
  induction ls with
  | nil => rfl
  | cons l ls ih =>
    cases ls with
    | nil =>
      rw [joinLines_singleton]
      simp
    | cons l' ls =>
      have hjoin : joinLines (l :: l' :: ls) = l ++ ([newline] ++ joinLines (l' :: ls)) := by
        simp [joinLines, List.intercalate, List.intersperse]
      rw [hjoin, shown_append, shown_append, ih]
      rfl

/-! ## Passes -/

/-- What can be seen of `raw` is what can be seen of the working text and of the removals. -/
def Conserves (raw : JsString) (s : Strip) : Prop := InterleavedAll (shown s.work :: s.removals.map shown) (shown raw)

/-- `work` is what is left of `text` when `removed` is taken out, up to white space. -/
def Leaves (text work : JsString) (removed : List JsString) : Prop :=
  InterleavedAll (shown work :: removed.map shown) (shown text)

section

variable {raw text work m : JsString} {removed : List JsString} {s : Strip}

theorem Conserves.step (h : Conserves raw s) (hleaves : Leaves s.work work removed) :
    Conserves raw ⟨work, s.removals ++ removed⟩ := by
  show InterleavedAll (_ :: (s.removals ++ removed).map shown) _
  rw [map_append]
  exact h.trans hleaves

/-- White space alone comes and goes. -/
theorem leaves_of_shown (h : shown work = shown text) : Leaves text work [] := by
  rw [Leaves, h]
  exact .singleton _

theorem leaves_recorded (h : Interleaved (shown work) (shown m) (shown text)) : Leaves text work (recorded m) := by
  refine ⟨shown m, h, ?_⟩
  by_cases hm : m = []
  · subst hm
    rfl
  · rw [recorded, if_neg hm]
    exact .singleton _

/-- The piece that is written down stands after what is left of it. -/
theorem leaves_front (front piece : JsString) : Leaves (front ++ piece) front (recorded piece) := by
  apply leaves_recorded
  rw [shown_append]
  exact .concat _ _

theorem leaves_back (piece back : JsString) : Leaves (piece ++ back) back (recorded piece) := by
  apply leaves_recorded
  rw [shown_append]
  exact (Interleaved.concat _ _).symm

theorem Conserves.takeHead (h : Conserves raw s) (n : ℕ) : Conserves raw (s.takeHead n) := by
  have hleaves := leaves_back (s.work.take n) (s.work.drop n)
  rw [take_append_drop] at hleaves
  exact h.step hleaves

theorem Conserves.takeTail (h : Conserves raw s) (front m : JsString) (hwork : s.work = front ++ m) :
    Conserves raw (s.takeTail m) := by
  have hfront : s.work.take (s.work.length - m.length) = front := by
    rw [hwork, length_append, Nat.add_sub_cancel_right, take_left]
  rw [Strip.takeTail, hfront]
  apply h.step
  rw [hwork]
  exact leaves_front front m

theorem Leaves.append {text' work' : JsString} {removed' : List JsString} (h : Leaves text work removed)
    (h' : Leaves text' work' removed') : Leaves (text ++ text') (work ++ work') (removed ++ removed') := by
  rw [Leaves, shown_append, shown_append, map_append]
  exact InterleavedAll.append h h'

theorem leaves_segments {f : JsString → (ℕ → JsString) → JsString × List JsString} (segments : List Segment)
    (hf : ∀ m groups, Segment.found m groups ∈ segments → Leaves m (f m groups).1 (f m groups).2) :
    Leaves (segments.flatMap Segment.text) ((segments.map (Segment.replaced f)).flatMap (·.1))
      ((segments.map (Segment.replaced f)).flatMap (·.2)) := by
  induction segments with
  | nil => exact .singleton _
  | cons piece segments ih =>
    have hpiece : Leaves piece.text (piece.replaced f).1 (piece.replaced f).2 := by
      cases piece with
      | kept u => exact .singleton _
      | found m groups => exact hf m groups mem_cons_self
    have hrest := ih fun m groups hmem => hf m groups (mem_cons_of_mem _ hmem)
    rw [map_cons, flatMap_cons, flatMap_cons, flatMap_cons]
    exact hpiece.append hrest

/-- A global replacement, each match of which leaves what is put in its place. -/
theorem Conserves.replace {p : Pattern} {f : JsString → (ℕ → JsString) → JsString × List JsString} (h : Conserves raw s)
    (hf : ∀ x y, y ∈ p.ends x → Leaves (x.upTo y) (f (x.upTo y) y.groups).1 (f (x.upTo y) y.groups).2) :
    Conserves raw (s.replace p f) := by
  have hleaves : Leaves ((p.segments s.work).flatMap Segment.text) (p.replace f s.work).1 (p.replace f s.work).2 := by
    apply leaves_segments
    intro m groups hmem
    obtain ⟨x, y, hy, rfl, rfl⟩ := match_of_mem_segments hmem
    exact hf x y hy
  rw [text_segments] at hleaves
  exact h.step hleaves

theorem Conserves.hesitations (h : Conserves raw s) : Conserves raw s.hesitations := by
  refine h.replace fun x y _ => ?_
  exact leaves_front [] _

theorem Conserves.stutters (h : Conserves raw s) : Conserves raw s.stutters := by
  refine h.replace fun x y hy => ?_
  obtain ⟨rest, hrest⟩ := upTo_of_group rfl (mem_ends_of_boundary hy)
  split
  · exact .singleton _
  · rw [hrest, drop_left]
    exact leaves_front _ rest

theorem Conserves.repairHeadSeam (h : Conserves raw s) : Conserves raw s.repairHeadSeam := by
  rw [Strip.repairHeadSeam]
  split
  · exact h
  · exact h.takeHead _

theorem Conserves.leading (n : ℕ) : ∀ {s : Strip}, Conserves raw s → Conserves raw (s.leading n) := by
  induction n with
  | zero => exact fun h => h
  | succ n ih =>
    intro s h
    rw [Strip.leading]
    split
    · exact h.repairHeadSeam
    · exact ih (h.repairHeadSeam.takeHead _)

/-- A courtesy stands at the end of the text. -/
theorem after_of_trailingPad {p : Pattern} {f : Found} (hp : p ∈ trailingPad) (h : p.exec text = some f) : f.after = [] := by
  obtain ⟨i, y, hy, rfl⟩ := exec_spec h
  have hmem : y ∈ p.ends (.atIndex text i) := mem_of_head? hy
  rw [trailingPad, mem_cons, mem_cons, mem_singleton] at hp
  rcases hp with rfl | rfl | rfl <;> exact after_of_finish hmem

theorem Conserves.trailing (n : ℕ) : ∀ {s : Strip}, Conserves raw s → Conserves raw (s.trailing n) := by
  induction n with
  | zero => exact fun h => h
  | succ n ih =>
    intro s h
    rw [Strip.trailing]
    split
    · exact h
    next m hm =>
      obtain ⟨p, hp, hm⟩ := exists_of_findSome?_eq_some hm
      have hwork := exec_append hm
      rw [after_of_trailingPad hp hm, append_nil] at hwork
      exact ih (h.takeTail m.before m.text hwork.symm)

theorem isWhiteSpace_of_blank {s : JsString} (h : ∀ u ∈ s, (js " \t").contains u = true) : ∀ u ∈ s, isWhiteSpace u = true := by
  intro u hu
  have hblank : u ∈ js " \t" := contains_iff_mem.mp (h u hu)
  have hall : (js " \t").all isWhiteSpace = true := by decide
  exact all_eq_true.mp hall u hblank

theorem Conserves.doubledBlank (h : Conserves raw s) : Conserves raw (s.replace doubledBlank fun _ _ => ([32], [])) := by
  refine h.replace fun x y hy => leaves_of_shown ?_
  have hrefl := Place.Spans.refl fun u => (js " \t").contains u
  have hspans := (spans_unit _).seq Place.Spans.trans ((spans_plus _).seq Place.Spans.trans (within_empty hrefl))
  rw [shown_eq_nil (isWhiteSpace_of_blank (forall_mem_of_spans hspans hy))]
  decide

theorem Conserves.blankBeforeMark (h : Conserves raw s) :
    Conserves raw (s.replace blankBeforeMark fun _ groups => (groups 1, [])) := by
  refine h.replace fun x y hy => leaves_of_shown ?_
  obtain ⟨z, hz, hupTo⟩ := upTo_of_last_group hy
  have hblank := isWhiteSpace_of_blank (forall_mem_of_spans (spans_plus _) hz)
  rw [hupTo, shown_append, shown_eq_nil hblank]
  rfl

theorem Conserves.doubledMark (h : Conserves raw s) :
    Conserves raw (s.replace doubledMark fun m groups => (groups 1, recorded (m.drop (groups 1).length))) := by
  refine h.replace fun x y hy => ?_
  obtain ⟨rest, hrest⟩ := upTo_of_group rfl hy
  simp only [hrest, drop_left]
  exact leaves_front _ rest

theorem Conserves.repairRelaySeams (h : Conserves raw s) : Conserves raw s.repairRelaySeams := by
  have hmerged := h.doubledBlank.blankBeforeMark.doubledMark
  rw [Strip.repairRelaySeams, Conserves, shown_trim]
  exact hmerged

theorem conserves_stripped (raw : JsString) : Conserves raw (stripped raw) := by
  have hraw : Conserves raw ⟨raw, []⟩ := .singleton _
  exact ((hraw.hesitations.stutters.leading 16).trailing 4).repairRelaySeams

theorem normaliseRelayText_of_blank (h : trim (stripped raw).work = []) : normaliseRelayText raw = ⟨raw, false, []⟩ := if_pos h

theorem normaliseRelayText_of_kept (h : trim (stripped raw).work ≠ []) :
    normaliseRelayText raw = ⟨(stripped raw).work, (stripped raw).work ≠ raw, (stripped raw).removals⟩ := if_neg h

theorem conserves_normaliseRelayText (raw : JsString) :
    Leaves raw (normaliseRelayText raw).text (normaliseRelayText raw).removals := by
  by_cases h : trim (stripped raw).work = []
  · rw [normaliseRelayText_of_blank h]
    exact .singleton _
  · rw [normaliseRelayText_of_kept h]
    dsimp only
    exact conserves_stripped raw

example : normaliseRelayText (js "Okay, ask the worker if it's ready") =
    ⟨js "if it's ready", true, [js "Okay, ", js "ask the worker "]⟩ := by decide +kernel

/-- Where nothing would be left to be seen, the text is as spoken. -/
theorem shown_normaliseRelayText_ne_nil (hraw : shown raw ≠ []) : shown (normaliseRelayText raw).text ≠ [] := by
  by_cases h : trim (stripped raw).work = []
  · rwa [normaliseRelayText_of_blank h]
  · rw [normaliseRelayText_of_kept h]
    dsimp only
    intro hnil
    exact h (trim_eq_nil hnil)

/-- A text that was not changed is as spoken, and nothing was taken out of it. -/
theorem normaliseRelayText_unchanged (h : (normaliseRelayText raw).changed = false) : (normaliseRelayText raw).text = raw := by
  by_cases hblank : trim (stripped raw).work = []
  · rw [normaliseRelayText_of_blank hblank]
  · rw [normaliseRelayText_of_kept hblank] at h ⊢
    dsimp only at h ⊢
    exact not_not.mp (of_decide_eq_false h)

theorem leaves_nothing (h : Leaves text work removed) (hremoved : relayHasVisibleRemoval removed = false) :
    shown work = shown text := by
  obtain ⟨rest, hrest, hall⟩ := h
  have hnil : rest = [] := by
    clear hrest
    induction removed generalizing rest with
    | nil => exact hall
    | cons piece removed ih =>
      rw [relayHasVisibleRemoval, any_cons, Bool.or_eq_false_iff] at hremoved
      rw [map_cons, hasVisible_eq_false.mp hremoved.1, InterleavedAll.nil_cons] at hall
      exact ih hremoved.2 rest hall
  rw [hnil] at hrest
  exact hrest.symm.eq_of_nil_left.symm

end

/-! ## Drafts -/

/-- An utterance that was appended to the draft: its id, its words and the turn. -/
structure Said where
  id : ℕ
  text : JsString
  turn : ℤ

def Said.entry (w : Wording) (u : Said) : DraftUtteranceEntry := draftEntry w u.id u.text u.turn

def Said.call (u : Said) : StoreCall := .appendToDraft u.id u.text u.turn

section

variable {w : Wording}

/-- The parts of the draft are what utterances that were appended became. -/
def Drafted (w : Wording) (calls : List StoreCall) (s : PendingProposalStore) : Prop :=
  ∀ d, s.draft = some d → ∃ said : List Said, d.utterances = said.map (·.entry w) ∧ ∀ u ∈ said, u.call ∈ calls

variable {calls : List StoreCall} {s : PendingProposalStore}

theorem Drafted.mono {calls' : List StoreCall} (h : Drafted w calls s) (hcalls : ∀ c ∈ calls, c ∈ calls') : Drafted w calls' s := by
  intro d hd
  obtain ⟨said, hsaid, hmem⟩ := h d hd
  exact ⟨said, hsaid, fun u hu => hcalls _ (hmem u hu)⟩

theorem drafted_of_parts {s' : PendingProposalStore} (h : Drafted w calls s)
    (hparts : ∀ d', s'.draft = some d' → ∃ d, s.draft = some d ∧ d'.utterances = d.utterances) : Drafted w calls s' := by
  intro d' hd'
  obtain ⟨d, hd, hutterances⟩ := hparts d' hd'
  rw [hutterances]
  exact h d hd

theorem parts_of_map {s' : PendingProposalStore} {f : OperatorDraft → OperatorDraft} (hdraft : s'.draft = s.draft.map f)
    (hf : ∀ d, (f d).utterances = d.utterances) : ∀ d', s'.draft = some d' → ∃ d, s.draft = some d ∧ d'.utterances = d.utterances := by
  intro d' hd'
  rw [hdraft, Option.map_eq_some_iff] at hd'
  obtain ⟨d, hd, rfl⟩ := hd'
  exact ⟨d, hd, hf d⟩

theorem drafted_append (h : Drafted w calls s) (u : Said)
    (hu : u.call ∈ calls) : Drafted w calls (s.appendToDraft w u.id u.text u.turn) := by
  intro d hd
  rw [PendingProposalStore.appendToDraft] at hd
  obtain rfl := Option.some.inj hd
  split
  · refine ⟨[u], rfl, ?_⟩
    intro v hv
    rwa [mem_singleton.mp hv]
  next held hheld =>
    obtain ⟨said, hsaid, hmem⟩ := h held (live_spec (heldBeside_spec hheld)).1
    refine ⟨said ++ [u], ?_, ?_⟩
    · rw [map_append, ← hsaid]
      rfl
    · intro v hv
      rcases mem_append.mp hv with hv | hv
      · exact hmem v hv
      · rwa [mem_singleton.mp hv]

/-- The parts a partial release leaves are parts of the draft, in their order. -/
theorem sublist_of_selectParts {utterances selected remaining : List DraftUtteranceEntry} {selection : Option OrdinalPosition}
    (h : selectParts utterances selection = some (selected, remaining)) : remaining.Sublist utterances := by
  cases selection with
  | none =>
    cases h
    exact nil_sublist _
  | some position =>
    simp only [selectParts, Option.bind_eq_bind, Option.bind_eq_some_iff] at h
    obtain ⟨idx, -, u, -, h⟩ := h
    cases h
    exact eraseIdx_sublist _ _

theorem drafted_take (h : Drafted w calls s) (turn : ℤ)
    (selection : Option OrdinalPosition) (variant : ReleaseVariant) : Drafted w calls (s.takeForRelease turn selection variant).2 := by
  rw [takeForRelease]
  cases hlive : s.live with
  | none => exact h
  | some d =>
    have hdraft := (live_spec hlive).1
    by_cases hlapsed : s.maxPendingAgeTurns ≤ d.age turn
    · simp only [if_pos hlapsed]
      intro d' hd'
      obtain rfl := Option.some.inj hd'
      exact h d hdraft
    · simp only [if_neg hlapsed]
      split
      · exact h
      · exact h
      next u us remaining hselect =>
        by_cases hrest : remaining = []
        · simp only [if_pos hrest]
          intro d' hd'
          cases hd'
        · simp only [if_neg hrest]
          intro d' hd'
          obtain rfl := Option.some.inj hd'
          obtain ⟨said, hsaid, hmem⟩ := h d hdraft
          have hsub := sublist_of_selectParts hselect
          rw [hsaid] at hsub
          obtain ⟨left, hleft, rfl⟩ := sublist_map_iff.mp hsub
          exact ⟨left, rfl, fun u hu => hmem u (hleft.subset hu)⟩

theorem drafted_storeStep (h : Drafted w calls s) (c : StoreCall) : Drafted w (calls ++ [c]) (storeStep w s c) := by
  have hcalls : Drafted w (calls ++ [c]) s := h.mono fun _ => mem_append_left _
  cases c with
  | appendToDraft id text turn => exact drafted_append hcalls ⟨id, text, turn⟩ (mem_append_right _ mem_cons_self)
  | markResurfaced turn | tickTurn turn => exact drafted_of_parts hcalls (parts_of_map rfl fun _ => rfl)
  | takeForRelease turn selection variant => exact drafted_take hcalls turn selection variant
  | cancel =>
    intro d hd
    cases hd
  | recordReleased rec => exact hcalls

theorem drafted_storeAfter (maxPendingAgeTurns : ℤ) (releasedHistoryLimit : ℕ) (calls : List StoreCall) :
    Drafted w calls (storeAfter w maxPendingAgeTurns releasedHistoryLimit calls) := by
  induction calls using List.reverseRecOn with
  | nil =>
    intro d hd
    cases hd
  | append_singleton calls c ih =>
    rw [storeAfter, foldl_append]
    exact drafted_storeStep ih c

end

section

variable {w : Wording} (hw : ∀ raw, Leaves raw (w.normaliseRelayText raw).text (w.normaliseRelayText raw).removals)

include hw in
/-- A part of which nothing visible was taken out has the words as spoken. -/
theorem shown_entry (u : Said) (h : relayHasVisibleRemoval (u.entry w).removals = false) :
    shown (u.entry w).text = shown u.text := by
  by_cases hchanged : (w.normaliseRelayText u.text).changed = true
  · simp only [Said.entry, draftEntry, hchanged, if_true] at h ⊢
    exact leaves_nothing (hw u.text) h
  · simp only [Said.entry, draftEntry, if_neg hchanged]

include hw in
theorem shown_described (said : List Said) (h : (describeProposal w (said.map (·.entry w))).cleaned = false) :
    shown (describeProposal w (said.map (·.entry w))).text = shown (joinLines (said.map (·.text))) := by
  have htext := Option.some.inj (describeProposal_tidied (w := w) (said.map (·.entry w)))
  have hremovals : relayHasVisibleRemoval ((said.map (·.entry w)).flatMap (·.removals)) = false := by
    rw [describeProposal] at h
    split at h
    · cases h
    · rename_i hnone
      exact Bool.eq_false_iff.mpr hnone
  rw [htext, shown_joinLines, shown_joinLines, List.map_map, List.map_map, List.map_map]
  congr 1
  apply map_congr_left
  intro u hu
  apply shown_entry hw
  rw [relayHasVisibleRemoval, any_flatMap, any_eq_false] at hremovals
  have hpart := hremovals _ (mem_map_of_mem hu)
  exact Bool.eq_false_iff.mpr hpart

include hw in
/-- The description of a store's draft, by the words as they were appended. -/
theorem described_as_said (maxPendingAgeTurns : ℤ) (releasedHistoryLimit : ℕ) (calls : List StoreCall)
    {described : ProposalDescriptor} {version : ℕ}
    (h : (storeAfter w maxPendingAgeTurns releasedHistoryLimit calls).describeCurrentProposal w = some (described, version)) :
    ∃ said : List Said, (∀ u ∈ said, u.call ∈ calls) ∧ described = describeProposal w (said.map (·.entry w)) ∧
      (described.cleaned = false → shown described.text = shown (joinLines (said.map (·.text)))) := by
  obtain ⟨d, hlive, hd⟩ := Option.map_eq_some_iff.mp h
  obtain ⟨said, hsaid, hmem⟩ := drafted_storeAfter maxPendingAgeTurns releasedHistoryLimit calls d (live_spec hlive).1
  obtain ⟨rfl, -⟩ := Prod.mk.inj hd
  rw [hsaid]
  exact ⟨said, hmem, rfl, shown_described hw said⟩

end

/-- What is normalised is conserved up to white space: what can be seen of a text is what can
    be seen of the normalised one and of each removal it reports, in their orders. Something
    to be seen stays where there was something. And where a description of the held draft
    reports nothing cleaned, its text is that of the words as they were appended. -/
theorem relay_takes_out_only (normaliseForRestatement sha256 : JsString → JsString) (maxPendingAgeTurns : ℤ)
    (releasedHistoryLimit : ℕ) (calls : List StoreCall) : let w := relayWording normaliseForRestatement sha256
    (∀ raw, InterleavedAll (shown (normaliseRelayText raw).text :: (normaliseRelayText raw).removals.map shown) (shown raw)) ∧
    (∀ raw, shown raw ≠ [] → shown (normaliseRelayText raw).text ≠ []) ∧
    ∀ described version,
      (storeAfter w maxPendingAgeTurns releasedHistoryLimit calls).describeCurrentProposal w = some (described, version) →
      ∃ said : List Said, (∀ u ∈ said, u.call ∈ calls) ∧ described = describeProposal w (said.map (·.entry w)) ∧
        (described.cleaned = false → shown described.text = shown (joinLines (said.map (·.text)))) := by
  intro w
  have hw : ∀ raw, Leaves raw (w.normaliseRelayText raw).text (w.normaliseRelayText raw).removals := conserves_normaliseRelayText
  refine ⟨conserves_normaliseRelayText, fun raw h => shown_normaliseRelayText_ne_nil h, ?_⟩
  intro described version hdescribed
  exact described_as_said hw maxPendingAgeTurns releasedHistoryLimit calls hdescribed

/-- Words of which a good deal goes, and words of which white space alone does. -/
theorem relayed_as_spoken :
    let calls : List StoreCall := [.appendToDraft 1 (js "um, ask the worker to run!! it, please") 1, .cancel,
      .appendToDraft 2 (js " ship  it , now") 2]
    shown (normaliseRelayText (js "um, ask the worker to run!! it, please")).text ≠ [] ∧
      ∃ said : List Said, (∀ u ∈ said, u.call ∈ calls) ∧ shown (js "ship it, now") = shown (joinLines (said.map (·.text))) := by
  intro calls
  obtain ⟨-, hkept, hdescribed⟩ := relay_takes_out_only id id 6 5 calls
  have hcurrent : (storeAfter (relayWording id id) 6 5 calls).describeCurrentProposal (relayWording id id) =
      some (⟨js "ship it, now", false, none, none, js "ship it, now" ++ [0]⟩, 2) := by decide +kernel
  obtain ⟨said, hsaid, -, hshown⟩ := hdescribed _ _ hcurrent
  exact ⟨hkept _ (by decide +kernel), said, hsaid, hshown rfl⟩

end PiWebUi.Talker
