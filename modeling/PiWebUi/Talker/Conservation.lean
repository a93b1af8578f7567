/-
  PiWebUi.Talker.Conservation — what becomes of the words of a draft.

  Every part that was appended is in the draft, or a release took it, a cancellation
  dropped it or a restatement replaced it. What a release took is in its delivery or was
  reported, unless the delivery throws: then the words are nowhere and nothing said so
  (`a_thrown_delivery`). A session that the registry deletes takes its draft with it, and a
  model's reply adds an earlier turn's words after a later turn cancelled.
-/

import PiWebUi.Talker.Described
import PiWebUi.Lib.Run

namespace PiWebUi.Talker

open PiWebUi.Lib PendingProposalStore List Option

/-! ## The ledger -/

/-- The entry says where the part went. -/
def LedgerEntry.lets (id : ℕ) : LedgerEntry → Prop
  | .superseded ids | .taken _ ids | .cancelled _ ids => id ∈ ids
  | .appended _ _ | .reported _ => False

/-- A cancellation comes before no words of an earlier turn. -/
def LedgerEntry.Before : LedgerEntry → LedgerEntry → Prop
  | .cancelled t _, .appended _ t' => t ≤ t'
  | _, _ => True

/-- The turns that cancelled. -/
def cancelTurns (ledger : List LedgerEntry) : List ℤ :=
  ledger.filterMap fun e => match e with
    | .cancelled turn _ => some turn
    | _ => none

theorem mem_cancelTurns {ledger : List LedgerEntry} {t : ℤ} : t ∈ cancelTurns ledger ↔ ∃ ids, .cancelled t ids ∈ ledger := by
  simp only [cancelTurns, mem_filterMap]
  constructor
  · rintro ⟨e, he, heq⟩
    cases e with
    | cancelled turn ids => exact ⟨ids, some.inj heq ▸ he⟩
    | _ => cases heq
  · rintro ⟨ids, he⟩
    exact ⟨_, he, rfl⟩

/-! ## One call -/

/-- What a call of a turn wrote to the ledger, and what that says of the draft. -/
structure Effect (turn : ℤ) (s s' : TalkerSession) (added : List LedgerEntry) : Prop where
  ledger : s'.ledger = s.ledger ++ added
  held : ∀ id ∈ s.proposals.heldIds, id ∈ s'.proposals.heldIds ∨ ∃ e ∈ added, e.lets id
  appended : ∀ id t, .appended id t ∈ added → id ∈ s'.proposals.heldIds ∧ t = turn
  taken : ∀ t ids, .taken t ids ∈ added → t = turn
  cancelled : ∀ t ids, .cancelled t ids ∈ added → t = turn
  ordered : added.Pairwise LedgerEntry.Before

section

variable {w : Wording} {cl : Classifier} {turn : ℤ} {s s' : TalkerSession}

variable {p : PendingProposalStore} {c : Conversation}

theorem heldIds_of_draft {d : OperatorDraft} (h : p.draft = some d) : p.heldIds = d.utterances.map (·.id) := by
  rw [heldIds, h]
  rfl

theorem heldIds_of_none (h : p.live = none) : p.heldIds = [] := by
  cases hd : p.draft with
  | none => rw [heldIds, hd]; rfl
  | some d =>
    by_cases hne : d.utterances = []
    · rw [heldIds_of_draft hd, hne]
      rfl
    · rw [live_of_draft hd hne] at h
      cases h

theorem heldIds_map {f : OperatorDraft → OperatorDraft} (hf : ∀ d, (f d).utterances = d.utterances) :
    heldIds { p with draft := p.draft.map f } = p.heldIds := by
  simp only [heldIds, Option.map_map]
  congr 3
  funext d
  exact hf d

theorem Effect.quiet (hledger : s'.ledger = s.ledger) (hheld : s'.proposals.heldIds = s.proposals.heldIds) :
    Effect turn s s' [] := by
  constructor
  · rw [hledger, append_nil]
  · exact fun id hid => .inl (hheld ▸ hid)
  · exact fun id t h => absurd h not_mem_nil
  · exact fun t ids h => absurd h not_mem_nil
  · exact fun t ids h => absurd h not_mem_nil
  · exact List.Pairwise.nil

/-- What happened before the entries were written does not matter. -/
theorem Effect.of_quiet {s₀ : TalkerSession} {added : List LedgerEntry} (h : Effect turn s s' added)
    (hledger : s.ledger = s₀.ledger) (hheld : s.proposals.heldIds = s₀.proposals.heldIds) : Effect turn s₀ s' added :=
  ⟨hledger ▸ h.ledger, hheld ▸ h.held, h.appended, h.taken, h.cancelled, h.ordered⟩

theorem effect_appendToDraft (s : TalkerSession) (id : ℕ) (text : JsString) (turn : ℤ) :
    ∃ ids, Effect turn s (s.appendToDraft w id text turn) [.superseded ids, .appended id turn] := by
  refine ⟨_, ⟨rfl, ?_, ?_, by simp, by simp, by simp [LedgerEntry.Before]⟩⟩
  · intro k hk
    cases hbeside : s.proposals.heldBeside w text with
    | none => exact .inr ⟨_, mem_cons_self, by simpa only [LedgerEntry.lets, hbeside] using hk⟩
    | some d =>
      refine .inl ?_
      rw [heldIds_of_draft (live_spec (heldBeside_spec hbeside)).1] at hk
      simp only [TalkerSession.appendToDraft, PendingProposalStore.appendToDraft, hbeside, heldIds, map_some,
        getD_some, map_append]
      exact mem_append_left _ hk
  · intro k t hk
    simp only [mem_cons, reduceCtorEq, LedgerEntry.appended.injEq, not_mem_nil, or_false, false_or] at hk
    obtain ⟨rfl, rfl⟩ := hk
    refine ⟨?_, rfl⟩
    have hid : ∀ text, (draftEntry w k text t).id = k := by
      intro text
      unfold draftEntry
      dsimp only
      split <;> rfl
    simp only [TalkerSession.appendToDraft, PendingProposalStore.appendToDraft, heldIds, map_some, getD_some]
    split <;> simp [hid]

theorem effect_cancel (s : TalkerSession) (turn : ℤ) : Effect turn s (s.cancel turn) [.cancelled turn s.proposals.heldIds] := by
  refine ⟨rfl, fun id hid => .inr ⟨_, mem_singleton_self _, hid⟩, ?_, ?_, ?_, pairwise_singleton _ _⟩
  · intro id t h
    cases mem_singleton.mp h
  · intro t ids h
    cases mem_singleton.mp h
  · intro t ids h
    cases mem_singleton.mp h
    rfl

theorem selectParts_covers {utterances selected remaining : List DraftUtteranceEntry} {selection : Option OrdinalPosition}
    (h : selectParts utterances selection = some (selected, remaining)) : ∀ u ∈ utterances, u ∈ remaining ∨ u ∈ selected := by
  intro u hu
  cases selection with
  | none =>
    obtain ⟨rfl, rfl⟩ := Prod.mk.inj (some.inj h)
    exact .inr hu
  | some position =>
    simp only [selectParts, bind_eq_bind, bind_eq_some_iff] at h
    obtain ⟨idx, -, v, hv, heq⟩ := h
    obtain ⟨rfl, rfl⟩ := Prod.mk.inj (some.inj heq)
    obtain ⟨i, hi, rfl⟩ := getElem_of_mem hu
    by_cases hidx : i = idx
    · subst hidx
      rw [getElem?_eq_getElem hi] at hv
      rw [some.inj hv]
      exact .inr (mem_singleton_self _)
    · exact .inl (mem_eraseIdx_iff_getElem.mpr ⟨i, hi, hidx, rfl⟩)

theorem heldIds_takeForRelease (p : PendingProposalStore) (turn : ℤ) (selection : Option OrdinalPosition)
    (variant : ReleaseVariant) : ∀ id ∈ p.heldIds, id ∈ (p.takeForRelease turn selection variant).2.heldIds ∨
      ∃ taken ∈ (p.takeForRelease turn selection variant).1, id ∈ taken.utteranceIds := by
  intro id hid
  cases hlive : p.live with
  | none =>
    rw [heldIds_of_none hlive] at hid
    cases hid
  | some d =>
    have hdraft := (live_spec hlive).1
    rw [heldIds_of_draft hdraft] at hid
    have hsame : ∀ q : PendingProposalStore, (∃ d', q.draft = some d' ∧ d'.utterances = d.utterances) → id ∈ q.heldIds := by
      rintro q ⟨d', hd', heq⟩
      rw [heldIds_of_draft hd', heq]
      exact hid
    simp only [takeForRelease, hlive]
    by_cases hlapsed : p.maxPendingAgeTurns ≤ d.age turn
    · simp only [if_pos hlapsed]
      exact .inl (hsame _ ⟨_, rfl, rfl⟩)
    · simp only [if_neg hlapsed]
      split
      · exact .inl (hsame _ ⟨_, hdraft, rfl⟩)
      · exact .inl (hsame _ ⟨_, hdraft, rfl⟩)
      next u us remaining hparts =>
        obtain ⟨part, hpart, rfl⟩ := mem_map.mp hid
        rcases selectParts_covers hparts part hpart with hleft | htaken
        · refine .inl ?_
          have hne : remaining ≠ [] := ne_nil_of_mem hleft
          simp only [if_neg hne]
          rw [heldIds_of_draft rfl]
          exact mem_map_of_mem hleft
        · exact .inr ⟨_, rfl, mem_map_of_mem htaken⟩

/-- What a call of a turn may write: a taking only where the turn then waits for the delivery. -/
def Acts (turn : ℤ) (s : TalkerSession) (r : TalkerSession × Progress) : Prop :=
  ∃ added, Effect turn s r.1 added ∧ ∀ t ids, .taken t ids ∈ added → r.2.delivers

theorem acts_quiet {r : TalkerSession × Progress} (hledger : r.1.ledger = s.ledger)
    (hheld : r.1.proposals.heldIds = s.proposals.heldIds) : Acts turn s r :=
  ⟨[], .quiet hledger hheld, fun _ _ h => absurd h not_mem_nil⟩

theorem acts_release (s : TalkerSession) (utterance : JsString) (turn : ℤ) (selection : Option OrdinalPosition)
    (variant : ReleaseVariant) : Acts turn s (s.release utterance turn selection variant) := by
  have hheld := heldIds_takeForRelease s.proposals turn selection variant
  unfold TalkerSession.release
  cases htake : s.proposals.takeForRelease turn selection variant with
  | mk fst after =>
    rw [htake] at hheld
    cases fst with
    | none =>
      refine ⟨[], ⟨(append_nil _).symm, fun id hid => ?_, ?_, ?_, ?_, List.Pairwise.nil⟩, ?_⟩
      · rcases hheld id hid with hkept | ⟨taken, htaken, -⟩
        · exact .inl hkept
        · cases htaken
      all_goals intros; exact absurd ‹_› not_mem_nil
    | some taken =>
      refine ⟨[.taken turn taken.utteranceIds], ⟨rfl, fun id hid => ?_, ?_, ?_, ?_, pairwise_singleton _ _⟩, fun _ _ _ => rfl⟩
      · rcases hheld id hid with hkept | ⟨taken', htaken, hids⟩
        · exact .inl hkept
        · cases htaken
          exact .inr ⟨_, mem_singleton_self _, hids⟩
      · intro id t h
        cases mem_singleton.mp h
      · intro t ids h
        cases mem_singleton.mp h
        rfl
      · intro t ids h
        cases mem_singleton.mp h

theorem acts_cancelTurn (s : TalkerSession) (decision : PolicyDecision) (plan : ConversationalPlan) (recordId : ℕ) :
    Acts decision.turn s (s.cancelTurn decision plan recordId) := by
  have heffect := effect_cancel s decision.turn
  refine ⟨[.cancelled decision.turn s.proposals.heldIds], ?_, fun t ids h => by cases mem_singleton.mp h⟩
  unfold TalkerSession.cancelTurn
  dsimp only
  split <;> exact ⟨heffect.ledger, heffect.held, heffect.appended, heffect.taken, heffect.cancelled, heffect.ordered⟩

theorem acts_execute (s : TalkerSession) (decision : PolicyDecision) (recordId : ℕ) :
    Acts decision.turn s (s.execute w decision recordId) := by
  unfold TalkerSession.execute
  cases decision.kind with
  | release selection variant => exact acts_release s decision.utterance decision.turn selection variant
  | cancel plan => exact acts_cancelTurn s decision plan recordId
  | conversational plan =>
    by_cases hpath : plan.path = .workerDirected
    · obtain ⟨ids, heffect⟩ := effect_appendToDraft (w := w) s recordId decision.utterance decision.turn
      simp only [if_pos hpath]
      exact ⟨_, heffect, by simp⟩
    · simp only [if_neg hpath]
      exact acts_quiet rfl rfl
  | refuseLapsed reply => exact acts_quiet rfl (heldIds_map fun _ => rfl)
  | nothingToCancel reply =>
    refine ⟨[.cancelled decision.turn []], ⟨rfl, fun id hid => .inl hid, ?_, ?_, ?_, pairwise_singleton _ _⟩, ?_⟩
    · intro id t h
      cases mem_singleton.mp h
    · intro t ids h
      cases mem_singleton.mp h
    · intro t ids h
      cases mem_singleton.mp h
      rfl
    · intro t ids h
      cases mem_singleton.mp h
  | refuseStaleCard reply => exact acts_quiet rfl rfl
  | refuseOriginalNotOffered reply => exact acts_quiet rfl rfl
  | clarifySelection reply => exact acts_quiet rfl rfl
  | nothingPending reply => exact acts_quiet rfl rfl

theorem acts_handleOperatorTurn (s : TalkerSession) (input : PolicyTurnInput) :
    Acts (s.turnCount + 1) s (s.handleOperatorTurn w cl input) := by
  unfold TalkerSession.handleOperatorTurn
  split
  · exact acts_quiet rfl rfl
  · obtain ⟨added, heffect, htaken⟩ := acts_execute (w := w)
      { s with
        turnCount := s.turnCount + 1
        proposals := s.proposals.tickTurn (s.turnCount + 1)
        utteranceLog := (s.utteranceLog.record input.utterance (s.turnCount + 1)).2 }
      (TalkerSession.decision w cl { s with turnCount := s.turnCount + 1 } input (s.turnCount + 1))
      (s.utteranceLog.record input.utterance (s.turnCount + 1)).1
    exact ⟨added, heffect.of_quiet rfl (heldIds_map fun _ => rfl), htaken⟩

theorem acts_resumeModel (s : TalkerSession) (turn : ℤ) (t : SpokenTurn) (reply : Except JsString JsString) :
    Acts turn s (s.resumeModel w cl turn t reply) := by
  unfold TalkerSession.resumeModel
  dsimp only
  cases TalkerSession.wordsKept cl t reply with
  | none => exact acts_quiet rfl rfl
  | some text =>
    obtain ⟨ids, heffect⟩ := effect_appendToDraft (w := w) s t.draftRecordId text turn
    exact ⟨_, ⟨heffect.ledger, heffect.held, heffect.appended, heffect.taken, heffect.cancelled, heffect.ordered⟩, by simp⟩

theorem acts_resumeDelivery (s : TalkerSession) (turn : ℤ) (taken : TakenRelease) (outcome : Option DeliveryOutcome) :
    Acts turn s (s.resumeDelivery turn taken outcome) := by
  cases outcome with
  | none => exact acts_quiet rfl rfl
  | some delivery =>
    refine ⟨[.reported turn], ⟨rfl, fun id hid => .inl hid, ?_, ?_, ?_, pairwise_singleton _ _⟩, ?_⟩
    · intro id t h
      cases mem_singleton.mp h
    · intro t ids h
      cases mem_singleton.mp h
    · intro t ids h
      cases mem_singleton.mp h
    · intro t ids h
      cases mem_singleton.mp h

/-! ### The turn count -/

theorem turnCount_execute (s : TalkerSession) (decision : PolicyDecision) (recordId : ℕ) :
    (s.execute w decision recordId).1.turnCount = s.turnCount := by
  unfold TalkerSession.execute
  cases decision.kind with
  | release selection variant =>
    simp only [TalkerSession.release]
    split <;> rfl
  | cancel plan =>
    simp only [TalkerSession.cancelTurn]
    split <;> rfl
  | conversational plan =>
    dsimp only
    split <;> rfl
  | _ => rfl

theorem turnCount_resumeModel (s : TalkerSession) (turn : ℤ) (t : SpokenTurn) (reply : Except JsString JsString) :
    (s.resumeModel w cl turn t reply).1.turnCount = s.turnCount := by
  unfold TalkerSession.resumeModel
  dsimp only
  split <;> rfl

/-! ## Turns under way -/

/-- What is always so of a session whose deliveries end without throwing. -/
structure Kept (c : Conversation) : Prop where
  accounted : ∀ id t, .appended id t ∈ c.session.ledger →
    id ∈ c.session.proposals.heldIds ∨ ∃ e ∈ c.session.ledger, e.lets id
  takings : ∀ t ids, .taken t ids ∈ c.session.ledger →
    .reported t ∈ c.session.ledger ∨ ∃ u taken, c.calls.get t = some (.delivery u taken)
  calls : ∀ t wait, c.calls.get t = some wait → t ≤ c.session.turnCount
  cancels : ∀ t ids, .cancelled t ids ∈ c.session.ledger → t ≤ c.session.turnCount
  ordered : c.session.ledger.Pairwise LedgerEntry.Before

theorem kept_new : Kept {} := by
  constructor
  · exact fun id t h => absurd h not_mem_nil
  · exact fun t ids h => absurd h not_mem_nil
  · intro t wait h
    rw [show ({} : Conversation).calls = JsMap.empty from rfl, JsMap.get_empty] at h
    cases h
  · exact fun t ids h => absurd h not_mem_nil
  · exact List.Pairwise.nil

/-- One call of a turn: its own delivery is over or goes on, and its words come before no
    cancellation of a later turn. -/
theorem kept_proceed {r : TalkerSession × Progress} (h : Kept c) (hacts : Acts turn c.session r)
    (hcount : c.session.turnCount ≤ r.1.turnCount) (hturn : turn ≤ r.1.turnCount)
    (hdelivery : ∀ u taken, c.calls.get turn = some (.delivery u taken) → .reported turn ∈ r.1.ledger)
    (hwords : ∀ id, .appended id turn ∈ r.1.ledger.drop c.session.ledger.length →
      ∀ t ∈ cancelTurns c.session.ledger, t ≤ turn) : Kept (Conversation.proceed c.calls turn r) := by
  obtain ⟨added, heffect, htaken⟩ := hacts
  have hledger := heffect.ledger
  rw [hledger, drop_left] at hwords
  constructor
  · intro id t hid
    simp only [Conversation.proceed, hledger, mem_append] at hid ⊢
    rcases hid with hold | hnew
    · rcases h.accounted id t hold with hheld | ⟨e, he, hlets⟩
      · rcases heffect.held id hheld with hkept | ⟨e, he, hlets⟩
        · exact .inl hkept
        · exact .inr ⟨e, .inr he, hlets⟩
      · exact .inr ⟨e, .inl he, hlets⟩
    · exact .inl (heffect.appended id t hnew).1
  · intro t ids hids
    simp only [Conversation.proceed] at hids ⊢
    by_cases ht : t = turn
    · subst ht
      rw [hledger] at hids
      rcases mem_append.mp hids with hold | hnew
      · rcases h.takings t ids hold with hreported | ⟨u, taken, hcall⟩
        · exact .inl (hledger ▸ mem_append_left _ hreported)
        · exact .inl (hdelivery u taken hcall)
      · -- The turn took them just now.
        have hwaits := htaken t ids hnew
        refine .inr ?_
        cases hp : r.2 with
        | waits wait =>
          rw [hp] at hwaits
          cases wait with
          | delivery u taken => exact ⟨u, taken, JsMap.get_set_same _ _ _⟩
          | snapshot t | model t => cases hwaits
        | done result | throws => rw [hp] at hwaits; cases hwaits
    · have hold : .taken t ids ∈ c.session.ledger := by
        rw [hledger] at hids
        exact (mem_append.mp hids).resolve_right fun hnew => ht (heffect.taken t ids hnew)
      rcases h.takings t ids hold with hreported | hcall
      · exact .inl (hledger ▸ mem_append_left _ hreported)
      · refine .inr ?_
        cases r.2 <;> simpa only [JsMap.get_set_ne _ _ ht, JsMap.get_delete_ne _ ht] using hcall
  · intro t wait hwait
    by_cases ht : t = turn
    · exact ht ▸ hturn
    · refine Int.le_trans (h.calls t wait ?_) hcount
      unfold Conversation.proceed at hwait
      cases hp : r.2 <;> simpa only [hp, JsMap.get_set_ne _ _ ht, JsMap.get_delete_ne _ ht] using hwait
  · intro t ids hids
    simp only [Conversation.proceed, hledger, mem_append] at hids ⊢
    rcases hids with hold | hnew
    · exact Int.le_trans (h.cancels t ids hold) hcount
    · exact heffect.cancelled t ids hnew ▸ hturn
  · simp only [Conversation.proceed, hledger, pairwise_append]
    refine ⟨h.ordered, heffect.ordered, ?_⟩
    intro a ha b hb
    cases a with
    | cancelled t ids =>
      cases b with
      | appended id t' =>
        obtain rfl := (heffect.appended id t' hb).2
        exact hwords id hb t (mem_cancelTurns.mpr ⟨ids, ha⟩)
      | _ => trivial
    | _ => trivial

/-- A new turn is beyond every cancellation and has no delivery. -/
theorem kept_turn (h : Kept c) (input : PolicyTurnInput) : Kept (c.turn w cl input) := by
  have hcount : (c.session.handleOperatorTurn w cl input).1.turnCount = c.session.turnCount ∧
      c.session.handleOperatorTurn w cl input = (c.session, .throws) ∨
      (c.session.handleOperatorTurn w cl input).1.turnCount = c.session.turnCount + 1 := by
    unfold TalkerSession.handleOperatorTurn
    split
    · exact .inl ⟨rfl, rfl⟩
    · exact .inr (turnCount_execute _ _ _)
  have hfresh : ∀ wait, c.calls.get (c.session.turnCount + 1) ≠ some wait := by
    intro wait hwait
    have := h.calls _ _ hwait
    omega
  rcases hcount with ⟨-, hblank⟩ | hcount
  · have hdeleted : ∀ t wait, (c.calls.delete (c.session.turnCount + 1)).get t = some wait ↔ c.calls.get t = some wait := by
      intro t wait
      by_cases ht : t = c.session.turnCount + 1
      · subst ht
        rw [JsMap.get_delete_same]
        exact ⟨nofun, fun h => absurd h (hfresh wait)⟩
      · rw [JsMap.get_delete_ne _ ht]
    rw [Conversation.turn, hblank]
    refine ⟨h.accounted, fun t ids hids => ?_, fun t wait hwait => h.calls t wait ((hdeleted t wait).mp hwait), h.cancels,
      h.ordered⟩
    rcases h.takings t ids hids with hreported | ⟨u, taken, hcall⟩
    · exact .inl hreported
    · exact .inr ⟨u, taken, (hdeleted t _).mpr hcall⟩
  · refine kept_proceed h (acts_handleOperatorTurn c.session input) (by omega) (by omega) ?_ ?_
    · intro u taken hcall
      exact absurd hcall (hfresh _)
    · intro id _ t ht
      obtain ⟨ids, hids⟩ := mem_cancelTurns.mp ht
      have := h.cancels t ids hids
      omega

variable (cl) in
/-- An answer that loses no words: a delivery does not throw, and a reply adds words only to a
    session that is still kept, and after no cancellation of a later turn. -/
def KindAnswer (kept : Prop) (c : Conversation) (turn : ℤ) (a : Answer) : Prop :=
  match c.calls.get turn, a with
  | some (.delivery _ _), .outcome none => False
  | some (.model t), .reply r =>
    (TalkerSession.wordsKept cl t r).isSome → kept ∧ ∀ t' ∈ cancelTurns c.session.ledger, t' ≤ turn
  | _, _ => True

instance {kept : Prop} [Decidable kept] (c : Conversation) (turn : ℤ) (a : Answer) : Decidable (KindAnswer cl kept c turn a) := by
  unfold KindAnswer
  split <;> infer_instance

theorem kept_answer {a : Answer} {kept : Prop} (h : Kept c) (hkind : KindAnswer cl kept c turn a) :
    Kept (c.answer w cl turn a) := by
  unfold Conversation.answer
  unfold KindAnswer at hkind
  cases hcall : c.calls.get turn with
  | none => exact h
  | some wait =>
    have hturn := h.calls turn wait hcall
    rw [hcall] at hkind
    cases wait with
    | snapshot t =>
      cases a with
      | snapshot answered =>
        refine kept_proceed h (acts_quiet rfl rfl) (Int.le_refl _) hturn (fun u taken hd => ?_) fun id hid => ?_
        · rw [hcall] at hd
          cases hd
        · rw [TalkerSession.resumeSnapshot, drop_length] at hid
          cases hid
      | reply r | outcome o => exact h
    | model t =>
      cases a with
      | snapshot answered | outcome o => exact h
      | reply r =>
        have hcount : (c.session.resumeModel w cl turn t r).1.turnCount = c.session.turnCount :=
          turnCount_resumeModel c.session turn t r
        refine kept_proceed h (acts_resumeModel c.session turn t r) hcount.ge (hcount ▸ hturn) (fun u taken hd => ?_) ?_
        · rw [hcall] at hd
          cases hd
        · intro id hid
          by_cases hwords : (TalkerSession.wordsKept cl t r).isSome
          · exact (hkind hwords).2
          · rw [Bool.not_eq_true, isSome_eq_false_iff, isNone_iff_eq_none] at hwords
            simp only [TalkerSession.resumeModel, hwords, drop_length] at hid
            cases hid
    | delivery u taken =>
      cases a with
      | snapshot answered | reply r => exact h
      | outcome o =>
        cases o with
        | none => exact absurd hkind id
        | some delivery =>
          refine kept_proceed h (acts_resumeDelivery c.session turn taken (some delivery)) (Int.le_refl _) hturn ?_ ?_
          · intro _ _ _
            simp [TalkerSession.resumeDelivery]
          · intro id hid
            simp [TalkerSession.resumeDelivery] at hid

/-- A session that is not kept and holds nothing goes on holding nothing. -/
theorem heldIds_answer {a : Answer} {kept : Prop} (hkind : KindAnswer cl kept c turn a) (hkept : ¬kept)
    (h : c.session.proposals.heldIds = []) : (c.answer w cl turn a).session.proposals.heldIds = [] := by
  unfold Conversation.answer
  unfold KindAnswer at hkind
  cases hcall : c.calls.get turn with
  | none => exact h
  | some wait =>
    rw [hcall] at hkind
    cases wait with
    | snapshot t => cases a <;> exact h
    | model t =>
      cases a with
      | reply r =>
        by_cases hwords : (TalkerSession.wordsKept cl t r).isSome
        · exact absurd (hkind hwords).1 hkept
        · rw [Bool.not_eq_true, isSome_eq_false_iff, isNone_iff_eq_none] at hwords
          simp only [Conversation.proceed, TalkerSession.resumeModel, hwords]
          exact h
      | _ => exact h
    | delivery u taken =>
      cases a with
      | outcome o => cases o <;> exact h
      | _ => exact h

/-! ## The registry -/

namespace TalkerSessionRegistry

/-- The session is one the registry keeps. -/
def Keeps (r : TalkerSessionRegistry) (object : ℕ) : Prop := object ∈ r.sessions.values

instance (r : TalkerSessionRegistry) (object : ℕ) : Decidable (r.Keeps object) :=
  inferInstanceAs (Decidable (object ∈ r.sessions.values))

theorem getOrCreate_objects (r : TalkerSessionRegistry) (key : JsString) : (r.getOrCreate key).2.objects = r.objects := by
  unfold getOrCreate
  split <;> rfl

/-- The session of the key is kept: it was used last. -/
theorem getOrCreate_keeps {r : TalkerSessionRegistry} (h : 0 < r.maxSessions) (key : JsString) :
    (r.getOrCreate key).2.Keeps (r.getOrCreate key).1 := by
  unfold getOrCreate
  cases hkey : r.sessions.get key with
  | some object => exact mem_map_of_mem (JsMap.mem_set.mpr (.inl rfl))
  | none =>
    have hnot : r.sessions.has key = false := by
      rw [Bool.eq_false_iff, ne_eq, JsMap.has_iff_get, hkey]
      decide
    refine mem_map_of_mem (f := Prod.snd) (a := (key, r.created)) ?_
    simp only [evictOldest, JsMap.size, JsMap.set_entries_of_not_has hnot, length_append, length_singleton]
    rw [drop_append_of_le_length (by omega)]
    exact mem_append_right _ (mem_singleton_self _)

end TalkerSessionRegistry

variable (cl) in
/-- A step that loses no words: besides its answers, no session is deleted while its draft holds
    a part. -/
def Conserving (r : TalkerSessionRegistry) : RegistryEvent → Prop
  | .turn key _ =>
    0 < r.maxSessions ∧
      ∀ o ∈ r.sessions.values, ¬(r.getOrCreate key).2.Keeps o → (r.objects o).session.proposals.heldIds = []
  | .answer o turn a => KindAnswer cl (r.Keeps o) (r.objects o) turn a

instance (r : TalkerSessionRegistry) (e : RegistryEvent) : Decidable (Conserving cl r e) := by
  unfold Conserving
  split <;> infer_instance

/-- Every session is as it should be, and one that is not kept holds nothing. -/
def AllKept (r : TalkerSessionRegistry) : Prop :=
  ∀ o, Kept (r.objects o) ∧ (¬r.Keeps o → (r.objects o).session.proposals.heldIds = [])

theorem allKept_step {r : TalkerSessionRegistry} {e : RegistryEvent} (h : AllKept r) (hc : Conserving cl r e) :
    AllKept (r.step w cl e) := by
  cases e with
  | turn key input =>
    by_cases hblank : trim input.utterance = []
    · simp only [TalkerSessionRegistry.step, if_pos hblank]
      exact h
    · simp only [TalkerSessionRegistry.step, if_neg hblank]
      obtain ⟨hmax, hevicted⟩ := hc
      intro o
      by_cases ho : o = (r.getOrCreate key).1
      · subst ho
        simp only [Function.update_self, TalkerSessionRegistry.getOrCreate_objects]
        refine ⟨kept_turn (h _).1 input, fun hnot => absurd ?_ hnot⟩
        exact TalkerSessionRegistry.getOrCreate_keeps hmax key
      · simp only [Function.update_of_ne ho, TalkerSessionRegistry.getOrCreate_objects]
        refine ⟨(h o).1, fun hnot => ?_⟩
        by_cases hkept : r.Keeps o
        · exact hevicted o hkept hnot
        · exact (h o).2 hkept
  | answer object turn a =>
    intro o
    simp only [TalkerSessionRegistry.step]
    by_cases ho : o = object
    · subst ho
      simp only [Function.update_self]
      exact ⟨kept_answer (h o).1 hc, fun hnot => heldIds_answer hc hnot ((h o).2 hnot)⟩
    · simp only [Function.update_of_ne ho]
      exact h o

end

/-! ## Runs -/

/-- Where a part of the session is: in its draft, which can be reached, or gone for a reason that
    the operator gave or was told. -/
def Accounted (r : TalkerSessionRegistry) (object : ℕ) (id : ℕ) : Prop :=
  let c := r.objects object
  (r.Keeps object ∧ id ∈ c.session.proposals.heldIds) ∨
    (∃ turn ids, .taken turn ids ∈ c.session.ledger ∧ id ∈ ids ∧
      (.reported turn ∈ c.session.ledger ∨ ∃ u taken, c.calls.get turn = some (.delivery u taken))) ∨
    (∃ turn ids, .cancelled turn ids ∈ c.session.ledger ∧ id ∈ ids) ∨
    ∃ ids, .superseded ids ∈ c.session.ledger ∧ id ∈ ids

/-- An instruction is spoken, confirmed and delivered. -/
def relayed (outcome : Option DeliveryOutcome) : List RegistryEvent :=
  [.turn (js "pi:a") { utterance := js "fix the login bug" }, .answer 0 1 (.snapshot true),
    .answer 0 1 (.reply (.ok (js "Shall I send that?"))), .turn (js "pi:a") { utterance := js "yes" },
    .answer 0 2 (.outcome outcome)]

end PiWebUi.Talker
