/-
  PiWebUi.Talker.Described — what is released is what was described.

  The decision, the description and the take are three functions over the store. Where the
  decision is a release, the take succeeds and sends the described bytes of the parts it
  selects; an accepted identity names the same parts for the store's whole life, since
  every change of the parts that leaves some moves the version (`content_of_stamp`). No
  other decision takes anything (`released_is_described`).
-/

import PiWebUi.Talker.Session
import PiWebUi.Lib.Stamp

namespace PiWebUi.Talker

open PiWebUi.Lib PendingProposalStore

/-! ## Histories of the store -/

/-- The calls that write a store. -/
inductive StoreCall
  | appendToDraft (utteranceId : ℕ) (text : JsString) (turn : ℤ)
  | markResurfaced (turn : ℤ)
  | tickTurn (turn : ℤ)
  | takeForRelease (turn : ℤ) (selection : Option OrdinalPosition) (variant : ReleaseVariant)
  | cancel
  | recordReleased (rec : ReleasedRecord)

def storeStep (w : Wording) (s : PendingProposalStore) : StoreCall → PendingProposalStore
  | .appendToDraft id text turn => s.appendToDraft w id text turn
  | .markResurfaced turn => s.markResurfaced turn
  | .tickTurn turn => s.tickTurn turn
  | .takeForRelease turn selection variant => (s.takeForRelease turn selection variant).2
  | .cancel => s.cancel
  | .recordReleased rec => s.recordReleased rec

/-- A new store after the calls. -/
def storeAfter (w : Wording) (maxPendingAgeTurns : ℤ) (releasedHistoryLimit : ℕ) (calls : List StoreCall) :
    PendingProposalStore :=
  calls.foldl (storeStep w) { maxPendingAgeTurns, releasedHistoryLimit }

/-! ## Versions -/

/-- The parts of the draft under their version. -/
def versioned : Stamped PendingProposalStore (List DraftUtteranceEntry) where
  count := nextProposalVersion
  held s := s.live.map fun d => (d.version, d.utterances)

@[simp] theorem versioned_held (s : PendingProposalStore) : versioned.held s = s.live.map fun d => (d.version, d.utterances) := rfl

section

variable {w : Wording} {cl : Classifier} {s : PendingProposalStore} {d : OperatorDraft}

theorem live_of_draft (h : s.draft = some d) (hne : d.utterances ≠ []) : s.live = some d := by
  rw [live, h]
  exact Option.filter_some_pos (decide_eq_true hne)

theorem live_spec (h : s.live = some d) : s.draft = some d ∧ d.utterances ≠ [] := by
  rw [live, Option.filter_eq_some_iff] at h
  exact ⟨h.1, of_decide_eq_true h.2⟩

theorem heldBeside_spec {text : JsString} (h : s.heldBeside w text = some d) : s.live = some d := by
  rw [heldBeside, Option.filter_eq_some_iff] at h
  exact h.1

variable {s' : PendingProposalStore} {selection : Option OrdinalPosition} {input : PolicyTurnInput}
  {variant : ReleaseVariant}

/-- A change that keeps each draft's parts and version, and adds none. -/
theorem moves_of_map {f : OperatorDraft → OperatorDraft} (hdraft : s'.draft = s.draft.map f)
    (hcount : s'.nextProposalVersion = s.nextProposalVersion) (hf : ∀ d, (f d).utterances = d.utterances)
    (hv : ∀ d, (f d).version = d.version) : versioned.Moves s s' := by
  constructor
  · exact hcount.ge
  · intro c hc
    refine .inl ?_
    rw [versioned_held, Option.map_eq_some_iff] at hc ⊢
    obtain ⟨d', hlive, rfl⟩ := hc
    obtain ⟨hd', hne⟩ := live_spec hlive
    rw [hdraft, Option.map_eq_some_iff] at hd'
    obtain ⟨d, hd, rfl⟩ := hd'
    rw [hf] at hne
    refine ⟨d, live_of_draft hd hne, ?_⟩
    rw [hf, hv]

theorem moves_of_none (hdraft : s'.draft = none)
    (hcount : s'.nextProposalVersion = s.nextProposalVersion) : versioned.Moves s s' := by
  constructor
  · exact hcount.ge
  · intro c hc
    have hlive : s'.live = none := by rw [live, hdraft]; rfl
    have hheld : versioned.held s' = none := by rw [versioned_held, hlive]; rfl
    rw [hheld] at hc
    cases hc

/-- A draft with the next version. -/
theorem moves_of_next (hdraft : s'.draft = some d) (hv : d.version = s.nextProposalVersion + 1)
    (hcount : s'.nextProposalVersion = s.nextProposalVersion + 1) : versioned.Moves s s' := by
  constructor
  · show s.nextProposalVersion ≤ s'.nextProposalVersion
    omega
  · intro c hc
    refine .inr ?_
    rw [versioned_held, Option.map_eq_some_iff] at hc
    obtain ⟨d', hlive, rfl⟩ := hc
    obtain ⟨hd', -⟩ := live_spec hlive
    obtain rfl := Option.some.inj (hdraft.symm.trans hd')
    show s.nextProposalVersion < d.version ∧ d.version ≤ s'.nextProposalVersion
    omega

theorem moves_takeForRelease (turn : ℤ) (selection : Option OrdinalPosition) (variant : ReleaseVariant) :
    versioned.Moves s (s.takeForRelease turn selection variant).2 := by
  have hsame : versioned.Moves s s := moves_of_map Option.map_id_apply.symm rfl (fun _ => rfl) (fun _ => rfl)
  rw [takeForRelease]
  cases hlive : s.live with
  | none => exact hsame
  | some d =>
    have hdraft := (live_spec hlive).1
    by_cases hlapsed : s.maxPendingAgeTurns ≤ d.age turn
    · simp only [if_pos hlapsed]
      refine moves_of_map (f := fun d => { d with ageTurns := d.age turn, needsReConfirmation := true }) ?_ rfl (fun _ => rfl)
        (fun _ => rfl)
      rw [hdraft]
      rfl
    · simp only [if_neg hlapsed]
      split
      · exact hsame
      · exact hsame
      next u us remaining _ =>
        by_cases hrest : remaining = []
        · simp only [if_pos hrest]
          exact moves_of_none rfl rfl
        · simp only [if_neg hrest]
          exact moves_of_next rfl rfl rfl

theorem moves_storeStep (s : PendingProposalStore) (c : StoreCall) : versioned.Moves s (storeStep w s c) := by
  cases c with
  | appendToDraft id text turn =>
    simp only [storeStep, PendingProposalStore.appendToDraft]
    split <;> exact moves_of_next rfl rfl rfl
  | markResurfaced turn | tickTurn turn => exact moves_of_map rfl rfl (fun _ => rfl) (fun _ => rfl)
  | takeForRelease turn selection variant => exact moves_takeForRelease turn selection variant
  | cancel => exact moves_of_none rfl rfl
  | recordReleased rec =>
    exact moves_of_map Option.map_id_apply.symm rfl (fun _ => rfl) (fun _ => rfl)

/-- A version names the same parts for the store's whole life. -/
theorem parts_of_version {maxPendingAgeTurns : ℤ} {releasedHistoryLimit : ℕ} {earlier later : List StoreCall} {d' : OperatorDraft}
    (h : (storeAfter w maxPendingAgeTurns releasedHistoryLimit earlier).live = some d)
    (h' : (storeAfter w maxPendingAgeTurns releasedHistoryLimit (earlier ++ later)).live = some d')
    (hv : d.version = d'.version) : d.utterances = d'.utterances := by
  have hbounded : versioned.Bounded (storeAfter w maxPendingAgeTurns releasedHistoryLimit earlier) :=
    Stamped.bounded_run moves_storeStep (fun c hc => by cases hc) earlier
  rw [storeAfter, List.foldl_append] at h'
  refine Stamped.content_of_stamp (n := d.version) (moves_storeStep (w := w)) hbounded ?_ (?_ : versioned.held (later.foldl _ _) = _)
  · show Option.map _ _ = _
    rw [h]
    rfl
  · show Option.map _ _ = _
    rw [storeAfter, h', hv]
    rfl

/-! ## Selections -/

/-- The parts a selection is for, as they are shown. -/
def pick {α : Type} (selection : Option OrdinalPosition) (parts : List α) : Option (List α) :=
  match selection with
  | none => some parts
  | some position => ((resolveOrdinalIndex position parts.length).bind (parts[·]?)).map ([·])

theorem pick_map {α β : Type} (f : α → β) (selection : Option OrdinalPosition) (parts : List α) :
    pick selection (parts.map f) = (pick selection parts).map (·.map f) := by
  cases selection with
  | none => rfl
  | some position =>
    simp only [pick, List.length_map]
    cases resolveOrdinalIndex position parts.length with
    | none => rfl
    | some idx =>
      simp only [Option.bind_some, List.getElem?_map]
      cases parts[idx]? <;> rfl

theorem selectParts_eq (utterances : List DraftUtteranceEntry) (selection : Option OrdinalPosition) :
    (selectParts utterances selection).map (·.1) = pick selection utterances := by
  cases selection with
  | none => rfl
  | some position =>
    simp only [selectParts, pick]
    cases resolveOrdinalIndex position utterances.length with
    | none => rfl
    | some idx =>
      simp only [Option.bind_some, Option.bind_eq_bind]
      cases utterances[idx]? <;> rfl

theorem lt_of_resolveOrdinalIndex {position : OrdinalPosition} {count idx : ℕ}
    (h : resolveOrdinalIndex position count = some idx) : idx < count := by
  unfold resolveOrdinalIndex at h
  by_cases hc : count = 0
  · rw [if_pos hc] at h
    cases h
  · rw [if_neg hc] at h
    cases position <;> simp only [Option.ite_none_left_eq_some, Option.some.injEq] at h <;> omega

/-- A selection that resolves picks something. -/
theorem pick_of_resolves {α : Type} {parts : List α} (hne : parts ≠ [])
    (h : ∀ position ∈ selection, selectionResolves position parts.length) : ∃ x xs, pick selection parts = some (x :: xs) := by
  cases selection with
  | none =>
    obtain ⟨x, xs, rfl⟩ := List.exists_cons_of_ne_nil hne
    exact ⟨x, xs, rfl⟩
  | some position =>
    obtain ⟨idx, hidx⟩ := Option.isSome_iff_exists.mp (h position rfl)
    have hlt := lt_of_resolveOrdinalIndex hidx
    refine ⟨parts[idx], [], ?_⟩
    simp only [pick, hidx, Option.bind_some, List.getElem?_eq_getElem hlt, Option.map_some]

/-! ## The release -/

/-- What the description shows of a variant. -/
def ProposalDescriptor.bytes (d : ProposalDescriptor) : ReleaseVariant → Option JsString
  | .tidied => some d.text
  | .original => d.original

theorem describeProposal_tidied (utterances : List DraftUtteranceEntry) :
    (describeProposal w utterances).bytes .tidied = some (joinLines (utterances.map (·.sent .tidied))) := by
  unfold describeProposal
  split <;> rfl

theorem describeProposal_original {utterances : List DraftUtteranceEntry} {original : JsString}
    (h : (describeProposal w utterances).original = some original) : original = joinLines (utterances.map (·.sent .original)) := by
  unfold describeProposal at h
  split at h
  · exact (Option.some.inj h).symm
  · cases h

/-- What a release needs of the view: each check passed. -/
structure Releases (w : Wording) (draft : PolicyDraftView) (input : PolicyTurnInput) (selection : Option OrdinalPosition)
    (variant : ReleaseVariant) : Prop where
  fresh : draft.lapsed = false
  echoed : ∀ echo ∈ input.proposalRef, draft.identity = some echo
  offered : (describeProposal w draft.utterances).bytes variant = some (joinLines (draft.utterances.map (·.sent variant)))
  resolves : ∀ position ∈ selection, selectionResolves position draft.utterances.length

theorem decideConfirm_release {state : PolicyStateView} (h : decideConfirm w cl state input = .release selection variant) :
    ∃ draft, state.draft = some draft ∧ Releases w draft input selection variant := by
  unfold decideConfirm at h
  split at h
  · cases h
  next draft hdraft =>
    refine ⟨draft, hdraft, ?_⟩
    by_cases hlapsed : draft.lapsed
    · rw [if_pos hlapsed] at h
      cases h
    rw [if_neg hlapsed] at h
    by_cases hstale : input.proposalRef.any (!identityMatches draft ·)
    · rw [if_pos hstale] at h
      cases h
    rw [if_neg hstale] at h
    dsimp only at h
    by_cases horiginal : input.releaseVariant.getD .tidied = .original ∧ (describeProposal w draft.utterances).original.getD [] = []
    · rw [if_pos horiginal] at h
      cases h
    rw [if_neg horiginal] at h
    by_cases hselection : (cl.resolveDraftSelection input.utterance).any (!selectionResolves · draft.utterances.length)
    · rw [if_pos hselection] at h
      cases h
    rw [if_neg hselection] at h
    obtain ⟨rfl, rfl⟩ := DecisionKind.release.inj h
    constructor
    · exact Bool.eq_false_iff.mpr hlapsed
    · intro echo hecho
      rw [Option.mem_def.mp hecho] at hstale
      simpa [identityMatches] using hstale
    · cases hvariant : input.releaseVariant.getD .tidied with
      | tidied => exact describeProposal_tidied draft.utterances
      | original =>
        cases ho : (describeProposal w draft.utterances).original with
        | none => exact absurd ⟨hvariant, by rw [ho]; rfl⟩ horiginal
        | some original =>
          show (describeProposal w draft.utterances).original = _
          rw [ho, describeProposal_original ho]
    · intro position hposition
      rw [Option.mem_def.mp hposition] at hselection
      simpa using hselection

/-- Only a confirmation releases. -/
theorem release_of_confirm {state : PolicyStateView} (h : (decideOperatorTurn w cl state input).kind = .release selection variant) :
    decideConfirm w cl state input = .release selection variant := by
  simp only [decideOperatorTurn] at h
  cases hclass : utteranceClassOf cl input.utterance <;> simp only [hclass] at h
  · exact h
  · unfold decideCancel at h
    dsimp only at h
    repeat' split at h
    all_goals cases h
  · unfold decideQuestion at h
    dsimp only at h
    split at h <;> cases h
  · unfold decideStatement at h
    split at h <;> cases h

/-- The view of a store with a draft in it. -/
theorem policyStateView_draft {turn : ℤ} {draft : PolicyDraftView} (h : (policyStateView w s turn).draft = some draft) :
    ∃ d, s.live = some d ∧ draft = ⟨d.utterances, some ⟨d.version, (describeProposal w d.utterances).hash⟩, s.isLapsed turn⟩ := by
  simp only [policyStateView, snapshotDraft, Option.map_map, Option.map_eq_some_iff] at h
  obtain ⟨d, hd, rfl⟩ := h
  refine ⟨d, hd, ?_⟩
  simp only [Function.comp_apply, describeCurrentProposal, hd, Option.map_some]

/-- A live draft whose confirmation is fresh is taken. -/
theorem takeForRelease_of_fresh {turn : ℤ} (variant : ReleaseVariant) (hlive : s.live = some d) (hfresh : s.isLapsed turn = false)
    (hresolves : ∀ position ∈ selection, selectionResolves position d.utterances.length) :
    ∃ taken sent, (s.takeForRelease turn selection variant).1 = some taken ∧
      pick selection (d.utterances.map (·.sent variant)) = some sent ∧ taken.text = joinLines sent := by
  obtain ⟨hdraft, hne⟩ := live_spec hlive
  have hage : ¬s.maxPendingAgeTurns ≤ d.age turn := by
    simpa [isLapsed, hdraft] using hfresh
  obtain ⟨u, us, hpick⟩ := pick_of_resolves hne hresolves
  have hselected := selectParts_eq d.utterances selection
  rw [hpick, Option.map_eq_some_iff] at hselected
  obtain ⟨⟨selected, remaining⟩, hparts, rfl⟩ := hselected
  refine ⟨⟨(u :: us).map (·.id), u.id, joinLines ((u :: us).map (·.sent variant))⟩, (u :: us).map (·.sent variant), ?_, ?_, rfl⟩
  · simp only [takeForRelease, hlive, if_neg hage, hparts]
  · rw [pick_map, hpick]
    rfl

/-! ## Turns -/

/-- The turn waits for a delivery. -/
def Progress.delivers : Progress → Bool
  | .waits (.delivery _ _) => true
  | _ => false

@[simp] theorem decision_turn (s : TalkerSession) (input : PolicyTurnInput) (turn : ℤ) :
    (s.decision w cl input turn).turn = turn := rfl

@[simp] theorem decision_utterance (s : TalkerSession) (input : PolicyTurnInput) (turn : ℤ) :
    (s.decision w cl input turn).utterance = input.utterance := rfl

theorem delivers_execute {s : TalkerSession} {decision : PolicyDecision} {recordId : ℕ}
    (h : (s.execute w decision recordId).2.delivers) : ∃ selection variant, decision.kind = .release selection variant := by
  unfold TalkerSession.execute at h
  cases hkind : decision.kind <;> simp only [hkind] at h
  case release selection variant => exact ⟨selection, variant, rfl⟩
  case cancel plan =>
    unfold TalkerSession.cancelTurn at h
    dsimp only at h
    split at h <;> cases h
  all_goals cases h

theorem delivers_handleOperatorTurn {s : TalkerSession} (h : (s.handleOperatorTurn w cl input).2.delivers) :
    ∃ selection variant, (s.decision w cl input (s.turnCount + 1)).kind = .release selection variant := by
  unfold TalkerSession.handleOperatorTurn at h
  split at h
  · cases h
  · exact delivers_execute h

/-- The turn of a release waits for the delivery of what the store gave it. -/
theorem handleOperatorTurn_release {s : TalkerSession} (hinput : trim input.utterance ≠ [])
    (h : (s.decision w cl input (s.turnCount + 1)).kind = .release selection variant) :
    ∃ taken, (s.handleOperatorTurn w cl input).2 = .waits (.delivery input.utterance taken) ∧
      ((s.proposals.tickTurn (s.turnCount + 1)).takeForRelease (s.turnCount + 1) selection variant).1 = some taken := by
  obtain ⟨draft, hdraft, hchecks⟩ := decideConfirm_release (release_of_confirm h)
  obtain ⟨d, hlive, rfl⟩ := policyStateView_draft hdraft
  obtain ⟨taken, -, htaken, -, -⟩ := takeForRelease_of_fresh variant hlive hchecks.fresh hchecks.resolves
  refine ⟨taken, ?_, htaken⟩
  have hkind : (TalkerSession.decision w cl { s with turnCount := s.turnCount + 1 } input (s.turnCount + 1)).kind =
      .release selection variant := h
  rw [TalkerSession.handleOperatorTurn, if_neg hinput, TalkerSession.handleOperatorTurnBody, TalkerSession.execute, hkind]
  simp only [TalkerSession.release, decision_turn, decision_utterance]
  cases htake : (s.proposals.tickTurn (s.turnCount + 1)).takeForRelease (s.turnCount + 1) selection variant with
  | mk fst snd =>
    rw [htake] at htaken
    obtain rfl : fst = some taken := htaken
    rfl

theorem get_proceed {calls : JsMap ℤ Suspended} {turn t : ℤ} {r : TalkerSession × Progress} (hr : r.2.delivers = false)
    {u : JsString} {taken : TakenRelease} (h : (Conversation.proceed calls turn r).calls.get t = some (.delivery u taken)) :
    calls.get t = some (.delivery u taken) := by
  unfold Conversation.proceed at h
  by_cases ht : t = turn
  · subst ht
    cases hp : r.2 with
    | waits wait =>
      simp only [hp, JsMap.get_set_same, Option.some.injEq] at h
      rw [hp, h] at hr
      cases hr
    | done result | throws => simp [hp] at h
  · cases hp : r.2 <;> simp only [hp, JsMap.get_set_ne _ _ ht, JsMap.get_delete_ne _ ht] at h <;> exact h

/-- No answer makes a turn wait for a delivery. -/
theorem get_answer {c : Conversation} {turn t : ℤ} {a : Answer} {u : JsString} {taken : TakenRelease}
    (h : (c.answer w cl turn a).calls.get t = some (.delivery u taken)) : c.calls.get t = some (.delivery u taken) := by
  unfold Conversation.answer at h
  split at h
  · refine get_proceed ?_ h
    simp only [TalkerSession.resumeSnapshot]
    split <;> rfl
  · exact get_proceed rfl h
  · refine get_proceed ?_ h
    unfold TalkerSession.resumeDelivery
    split <;> rfl
  · exact h

end

/-- A release takes, and sends the bytes that the description shows of its selection and variant;
    an accepted identity was shown with these parts only; and nothing but a release is delivered. -/
theorem released_is_described (w : Wording) (cl : Classifier) (maxPendingAgeTurns : ℤ) (releasedHistoryLimit : ℕ)
    (calls : List StoreCall) : let after := storeAfter w maxPendingAgeTurns releasedHistoryLimit
    let s := after calls
    (∀ turn input selection variant,
      (decideOperatorTurn w cl (policyStateView w s turn) input).kind = .release selection variant →
        ∃ taken described parts sent,
          (s.takeForRelease turn selection variant).1 = some taken ∧
          s.describeCurrentProposal w = some described ∧ s.snapshotDraft = some parts ∧
          described.1.bytes variant = some (joinLines (parts.map (·.sent variant))) ∧
          pick selection (parts.map (·.sent variant)) = some sent ∧ taken.text = joinLines sent ∧
          ∀ echo ∈ input.proposalRef, ∀ earlier later, calls = earlier ++ later →
            ∀ shown ∈ (after earlier).describeCurrentProposal w, shown.2 = echo.version → shown.1.hash = echo.hash →
              shown = described ∧ (after earlier).snapshotDraft = some parts) ∧
    (∀ (t : TalkerSession) input selection variant, trim input.utterance ≠ [] →
      (t.decision w cl input (t.turnCount + 1)).kind = .release selection variant →
        ∃ taken, (t.handleOperatorTurn w cl input).2 = .waits (.delivery input.utterance taken) ∧
          ((t.proposals.tickTurn (t.turnCount + 1)).takeForRelease (t.turnCount + 1) selection variant).1 = some taken) ∧
    (∀ (t : TalkerSession) input, (t.handleOperatorTurn w cl input).2.delivers →
      ∃ selection variant, (t.decision w cl input (t.turnCount + 1)).kind = .release selection variant) ∧
    ∀ (c : Conversation) turn a t u taken, (c.answer w cl turn a).calls.get t = some (.delivery u taken) →
      c.calls.get t = some (.delivery u taken) := by
  intro after s
  refine ⟨?_, fun t input selection variant => handleOperatorTurn_release, fun t input => delivers_handleOperatorTurn,
    fun c turn a t u taken => get_answer⟩
  intro turn input selection variant hkind
  obtain ⟨draft, hdraft, hchecks⟩ := decideConfirm_release (release_of_confirm hkind)
  obtain ⟨d, hlive, rfl⟩ := policyStateView_draft hdraft
  obtain ⟨taken, sent, htaken, hpick, htext⟩ := takeForRelease_of_fresh variant hlive hchecks.fresh hchecks.resolves
  have hdescribed : s.describeCurrentProposal w = some (describeProposal w d.utterances, d.version) := by
    rw [describeCurrentProposal, hlive]
    rfl
  have hparts : s.snapshotDraft = some d.utterances := by
    rw [snapshotDraft, hlive]
    rfl
  refine ⟨taken, _, _, sent, htaken, hdescribed, hparts, hchecks.offered, hpick, htext, ?_⟩
  intro echo hecho earlier later hcalls shown hshown hversion _
  obtain ⟨d₀, hlive₀, rfl⟩ := Option.map_eq_some_iff.mp hshown
  have hcurrent := Option.some.inj (hchecks.echoed echo hecho)
  have hlater : (after (earlier ++ later)).live = some d := by
    rw [← hcalls]
    exact hlive
  have hsame : d₀.version = d.version := by
    rw [← hcurrent] at hversion
    exact hversion
  have hutterances := parts_of_version hlive₀ hlater hsame
  refine ⟨?_, ?_⟩
  · rw [hutterances, hsame]
  · rw [snapshotDraft, hlive₀, Option.map_some, hutterances]

/-- What the source makes of the texts of the runs below: nothing is removed from them. -/
def plainWording : Wording where
  normaliseRelayText text := ⟨text, false, []⟩
  repairRelaySeams text := text
  normaliseForRestatement text := text
  sha256 _ := js "de2adc2be82a076a869c8f6ca6297603025baeb5a079208e2b540388163feb1d"

/-- What the source makes of the utterances and replies of the runs below. -/
def plainClassifier : Classifier where
  classifyOperatorUtterance utterance :=
    if utterance = js "yes" then .confirm else if utterance = js "forget that" then .cancel else .statement
  resolveDraftSelection _ := none
  extractPostCancelInstruction _ := none
  extractAmendmentInstruction _ := none
  isMetaSendQuestion _ := false
  isWorkerDirectedQuestion _ := false
  isAddressedToTalkerMark _ := false
  isAskWorkerOffer _ := false
  stripTalkerAddressedMarker reply := reply
  stripAskWorkerMarker reply := reply

theorem a_described_release : let instruction := js "fix the login bug"
    let calls : List StoreCall := [.appendToDraft 1 instruction 1]
    let card : ProposalIdentity := ⟨1, plainWording.sha256 (instruction ++ [0])⟩
    (decideOperatorTurn plainWording plainClassifier (policyStateView plainWording (storeAfter plainWording 6 5 calls) 2)
        { utterance := js "yes", proposalRef := some card }).kind = .release none .tidied ∧
      ∃ taken, ((storeAfter plainWording 6 5 calls).takeForRelease 2 none .tidied).1 = some taken ∧
        taken.text = instruction := by
  intro instruction calls card
  have hkind : (decideOperatorTurn plainWording plainClassifier
      (policyStateView plainWording (storeAfter plainWording 6 5 calls) 2)
      { utterance := js "yes", proposalRef := some card }).kind = .release none .tidied := by decide +kernel
  obtain ⟨taken, described, parts, sent, htaken, -, hparts, -, hpick, htext, -⟩ :=
    (released_is_described plainWording plainClassifier 6 5 calls).1 2 _ none .tidied hkind
  refine ⟨hkind, taken, htaken, ?_⟩
  have hstored : (storeAfter plainWording 6 5 calls).snapshotDraft = some [{ id := 1, text := instruction, turn := 1 }] := by
    decide +kernel
  rw [hstored] at hparts
  obtain rfl := Option.some.inj hparts
  obtain rfl := Option.some.inj hpick
  rw [htext]
  decide +kernel

end PiWebUi.Talker
