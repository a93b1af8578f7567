/-
  PiWebUi.Transcript.Chunks — folding a history in two chunks.

  `bufferHistoryEvent` (client/src/store/sessionStore.ts) folds what it has buffered every
  thousand events, over the rows folded so far. The rows are carried over; the message
  under way, the latest copy of a reused wire id, and which ids are taken by tools only,
  are not. So a delta with a reused id goes to the first copy once a chunk ends
  (`a_delta_after_the_flush`), and one without an id to the last assistant row.
-/

import PiWebUi.Transcript.Fold
import PiWebUi.Lib.Run

namespace PiWebUi.Transcript

open PiWebUi.Lib PiWebUi.Lib.JsNumber List Option

/-! ## Changing one row -/

/-- The change leaves the row at the place as it is, or there is none. -/
def Unchanged (messages : List Message) (f : Message → Message) (i : Option ℕ) : Prop :=
  ∀ j ∈ i, ∀ m ∈ messages[j]?, f m = m

theorem getElem?_updateAt_same (messages : List Message) (i : ℕ) (f : Message → Message) :
    (updateAt messages (some i) f)[i]? = messages[i]?.map f := by
  rw [updateAt, getElem?_modify_eq]
  rfl

variable {i : Option ℕ} {f : Message → Message} {messages : List Message}

theorem getElem?_updateAt_ne (messages : List Message) {k : ℕ} (h : i ≠ some k) (f : Message → Message) :
    (updateAt messages i f)[k]? = messages[k]? := by
  cases i with
  | none => rfl
  | some i =>
    rw [updateAt, getElem?_modify_ne]
    rintro rfl
    exact h rfl

theorem updateAt_of_unchanged (h : Unchanged messages f i) : updateAt messages i f = messages := by
  refine ext_getElem? fun k => ?_
  by_cases hk : i = some k
  · subst hk
    rw [getElem?_updateAt_same]
    cases hm : messages[k]? with
    | none => rfl
    | some m => rw [map_some, h k rfl m hm]
  · exact getElem?_updateAt_ne messages hk f

theorem updateAt_congr {g : Message → Message}
    (h : ∀ j ∈ i, ∀ m ∈ messages[j]?, f m = g m) : updateAt messages i f = updateAt messages i g := by
  refine ext_getElem? fun k => ?_
  by_cases hk : i = some k
  · subst hk
    rw [getElem?_updateAt_same, getElem?_updateAt_same]
    cases hm : messages[k]? with
    | none => rfl
    | some m => rw [map_some, map_some, h k rfl m hm]
  · rw [getElem?_updateAt_ne messages hk, getElem?_updateAt_ne messages hk]

theorem unchanged_of_eq {j : Option ℕ} (hij : i ≠ j)
    (h : updateAt messages i f = updateAt messages j f) : Unchanged messages f i := by
  rintro k rfl m hm
  have hk := congrArg (·[k]?) h
  simp only [getElem?_updateAt_same, getElem?_updateAt_ne messages (Ne.symm hij)] at hk
  rw [mem_def.mp hm, map_some] at hk
  exact some.inj hk

theorem updateAt_eq_iff {j : Option ℕ} :
    updateAt messages i f = updateAt messages j f ↔ i = j ∨ Unchanged messages f i ∧ Unchanged messages f j := by
  constructor
  · intro h
    by_cases hij : i = j
    · exact .inl hij
    · exact .inr ⟨unchanged_of_eq hij h, unchanged_of_eq (Ne.symm hij) h.symm⟩
  · rintro (rfl | ⟨hi, hj⟩)
    · rfl
    · rw [updateAt_of_unchanged hi, updateAt_of_unchanged hj]

/-! ## Two folds side by side -/

variable {ρ : Type} (now : ℕ)

/-- Both folds take an item: the one that went on, and the one that started afresh. -/
def stepBoth (p : FoldState ρ × FoldState ρ) (item : BufferItem ρ) : FoldState ρ × FoldState ρ :=
  (foldStep now p.1 item, foldStep now p.2 item)

/-- The item's row, and the id it is given, are the same for both. -/
def SameRoute (p : FoldState ρ × FoldState ρ) : BufferItem ρ → Prop
  | .event (.messageStart message) =>
    storageIdForStart p.1 ((truthy message.id).getD (generatedId now "msg_" p.1.messages)) ∉ p.2.usedIds
  | .event (.messageUpdate id e) =>
    let i := findTarget p.1 ((truthy id) <|> p.1.activeMessageId)
    let j := findTarget p.2 ((truthy id) <|> p.2.activeMessageId)
    i = j ∨ Unchanged p.1.messages (onDelta e) i ∧ Unchanged p.1.messages (onDelta e) j
  | .event (.toolEnd raw result isError) =>
    let i := findTarget p.1 raw.callId
    let j := findTarget p.2 raw.callId
    i = j ∨ Unchanged p.1.messages (onToolEnd raw result isError) i ∧
      Unchanged p.1.messages (onToolEnd raw result isError) j
  | _ => True

/-- The rows agree, and what the first fold counts as taken, the second does too. -/
structure Alongside (p : FoldState ρ × FoldState ρ) : Prop where
  messages : p.2.messages = p.1.messages
  used : ∀ id ∈ p.1.usedIds, id ∈ p.2.usedIds

theorem stepBoth_messages_iff {p : FoldState ρ × FoldState ρ} (h : Alongside p) (item : BufferItem ρ) :
    (stepBoth now p item).2.messages = (stepBoth now p item).1.messages ↔ SameRoute now p item := by
  obtain ⟨s, t⟩ := p
  obtain ⟨hm, hu⟩ := h
  cases item with
  | other raw => simpa [stepBoth, foldStep, SameRoute] using hm
  | event e =>
    cases e with
    | messageStart message =>
      simp only [stepBoth, foldStep, foldEvent, SameRoute] at hm hu ⊢
      rw [hm, append_cancel_left_eq]
      simp only [List.cons.injEq, Message.mk.injEq, and_true]
      exact firstFree_eq_iff (storageCandidate_injective _) hu
    | messageUpdate id e | toolEnd raw result isError =>
      simp only [stepBoth, foldStep, foldEvent, SameRoute] at hm hu ⊢
      rw [hm, eq_comm]
      exact updateAt_eq_iff
    | messageEnd message => simpa [stepBoth, foldStep, foldEvent, SameRoute] using hm
    | toolStart raw =>
      simp only [stepBoth, foldStep, foldEvent, SameRoute, iff_true] at hm ⊢
      rw [hm]

theorem stepBoth_alongside {p : FoldState ρ × FoldState ρ} (h : Alongside p) {item : BufferItem ρ}
    (hr : SameRoute now p item) : Alongside (stepBoth now p item) := by
  refine ⟨(stepBoth_messages_iff now h item).mpr hr, ?_⟩
  obtain ⟨s, t⟩ := p
  obtain ⟨hm, hu⟩ := h
  cases item with
  | other raw => exact hu
  | event e =>
    cases e with
    | messageStart message =>
      have hsame := (firstFree_eq_iff (storageCandidate_injective _) hu).mpr hr
      intro id hid
      simp only [stepBoth, foldStep, foldEvent, mem_append, mem_singleton] at hm hid ⊢
      rcases hid with hid | rfl
      · exact .inl (hu id hid)
      · refine .inr ?_
        rw [hm]
        exact hsame.symm
    | _ => exact hu

/-! ## The chunk law -/

/-- The fold after the first chunk. -/
def afterChunk (base : List Message) (xs : List (BufferItem ρ)) : FoldState ρ := xs.foldl (foldStep now) (.start base)

/-- The fold that goes on, and the one the next chunk starts. -/
def seam (base : List Message) (xs : List (BufferItem ρ)) : FoldState ρ × FoldState ρ :=
  (afterChunk now base xs, .start (afterChunk now base xs).messages)

theorem foldl_stepBoth (p : FoldState ρ × FoldState ρ) (ys : List (BufferItem ρ)) :
    ys.foldl (stepBoth now) p = (ys.foldl (foldStep now) p.1, ys.foldl (foldStep now) p.2) := by
  induction ys generalizing p with
  | nil => rfl
  | cons y ys ih => exact ih (stepBoth now p y)

theorem seam_alongside (base : List Message) (xs : List (BufferItem ρ)) : Alongside (seam now base xs) :=
  ⟨rfl, Run.invariant_all (I := UsedAreIds) (fun _ item h => used_foldStep _ h item) (fun _ h => h) xs⟩

theorem foldSessionEvents_append (base : List Message) (xs ys : List (BufferItem ρ)) :
    (foldSessionEvents now (xs ++ ys) base).messages = (ys.foldl (stepBoth now) (seam now base xs)).1.messages := by
  rw [foldl_stepBoth, foldSessionEvents, foldl_append]
  rfl

theorem foldSessionEvents_chunk (base : List Message) (xs ys : List (BufferItem ρ)) :
    (foldSessionEvents now ys (foldSessionEvents now xs base).messages).messages =
      (ys.foldl (stepBoth now) (seam now base xs)).2.messages := by
  rw [foldl_stepBoth]
  rfl

/-- The rows agree after every event of the second chunk exactly when each of its events is
    routed alike with and without the first chunk's tables; the leftovers always agree. -/
theorem chunks_agree_iff (base : List Message) (xs ys : List (BufferItem ρ)) : ((∀ zs, zs <+: ys →
      (foldSessionEvents now zs (foldSessionEvents now xs base).messages).messages =
        (foldSessionEvents now (xs ++ zs) base).messages) ↔
      Run.Along (stepBoth now) (SameRoute now) (seam now base xs) ys) ∧
    (foldSessionEvents now xs base).leftovers ++ (foldSessionEvents now ys (foldSessionEvents now xs base).messages).leftovers =
      (foldSessionEvents now (xs ++ ys) base).leftovers := by
  constructor
  · simp only [foldSessionEvents_append, foldSessionEvents_chunk]
    rw [← Run.along_after_iff (P := fun p : FoldState ρ × FoldState ρ => p.2.messages = p.1.messages) (seam_alongside now base xs).messages]
    refine Run.along_iff_of_invariant (I := Alongside) ?_ ?_ (seam_alongside now base xs)
    · intro p item h hr
      exact stepBoth_alongside now h hr
    · intro p item h
      exact stepBoth_messages_iff now h item
  · simp only [foldSessionEvents, leftovers_foldl, FoldState.start, nil_append, filter_append]

/-- Two turns reuse the id `m`; the flush falls between the second start and its delta. -/
theorem a_delta_after_the_flush :
    let start : BufferItem Json := .event (.messageStart { id := some (js "m"), role := some assistantRole })
    let delta : BufferItem Json := .event (.messageUpdate (some (js "m")) (some ⟨.textDelta, some (js "x")⟩))
    (foldSessionEvents 0 [delta] (foldSessionEvents 0 [start, start] []).messages).messages ≠
      (foldSessionEvents 0 ([start, start] ++ [delta]) []).messages := by
  decide

end PiWebUi.Transcript
