/-
  PiWebUi.RunReceipts.FinalText — the bounded final assistant text of a run
  (`run-receipts/final-text.ts`), over the normalized events of its turn.

  Proved: the text never exceeds the tracker's cap (`snapshot_le`), and an update whose
  `text_delta` is within the cap is captured whole (`snapshot_delta`).
-/

import PiWebUi.NormalizedEvent
import PiWebUi.Lib.Run

namespace PiWebUi

open Lib

namespace RunReceipts

def FINAL_TEXT_MAX_CHARS : ℕ := 4096

structure FinalTextSnapshot where
  text : JsString
  truncated : Bool
  deriving DecidableEq

inductive Role where
  | assistant
  | user
  | unknown
  deriving DecidableEq

/-- The value as a string, when it is one. -/
def asString : Option Json → Option JsString
  | some (.str s) => some s
  | _ => none

def roleOf (data : Option Json) : Role :=
  let direct := asString (member data (js "role"))
  let nested := asString (member (record (member data (js "message"))) (js "role"))
  let role := direct.or nested
  if role = some (js "user") then .user
  else if role = some (js "assistant") then .assistant
  else .unknown

/-- The text of a content block, when it is a text block. -/
def textOfBlock (block : Json) : Option JsString :=
  let b := record (some block)
  if member b (js "type") = some (.str (js "text")) then asString (member b (js "text")) else none

def textOfContent (content : Option Json) : Option JsString :=
  match content with
  | some (.arr blocks) =>
    let texts := blocks.filterMap textOfBlock
    if texts = [] then none else some texts.flatten
  | _ => none

structure FinalTextTracker where
  maxChars : ℕ
  role : Role
  current : JsString
  currentTruncated : Bool
  previous : Option FinalTextSnapshot
  deriving DecidableEq

namespace FinalTextTracker

/-- `new FinalTextTracker({ maxChars })`. -/
def new (maxChars : Option ℕ) : FinalTextTracker where
  maxChars := match maxChars with
    | some n => if 0 < n then n else FINAL_TEXT_MAX_CHARS
    | none => FINAL_TEXT_MAX_CHARS
  role := .unknown
  current := []
  currentTruncated := false
  previous := none

def startSegment (t : FinalTextTracker) : FinalTextTracker :=
  { t with
    previous := if t.current = [] then t.previous else some ⟨t.current, t.currentTruncated⟩
    current := []
    currentTruncated := false }

def setBounded (t : FinalTextTracker) (text : JsString) (alreadyTruncated : Bool) : FinalTextTracker :=
  if text.length > t.maxChars then
    { t with current := text.drop (text.length - t.maxChars), currentTruncated := true }
  else { t with current := text, currentTruncated := alreadyTruncated }

def append (t : FinalTextTracker) (text : JsString) : FinalTextTracker :=
  if text = [] then t else t.setBounded (t.current ++ text) t.currentTruncated

def replace (t : FinalTextTracker) (text : JsString) : FinalTextTracker := t.setBounded text false

/-- What a `message_update` does to the text, whatever the role. -/
def update (t : FinalTextTracker) (data : Option Json) : FinalTextTracker :=
  match record (member data (js "assistantMessageEvent")) with
  | none => t
  | some ame =>
    match textOfContent (ame.get (js "content")) with
    | some snapshot => t.replace snapshot
    | none =>
      if ame.get (js "type") = some (.str (js "text_delta")) then
        match asString (ame.get (js "delta")) with
        | some delta => t.append delta
        | none => t
      else t

/-- What a `message_end` does to the text. -/
def finishMessage (t : FinalTextTracker) (data : Option Json) : FinalTextTracker :=
  let message := record (member data (js "message"))
  if member message (js "role") = some (.str (js "assistant")) then
    match textOfContent (member message (js "content")) with
    | some full => if full = [] then t else t.replace full
    | none => t
  else t

def observe (t : FinalTextTracker) (event : NormalizedEvent) : FinalTextTracker :=
  let data := record event.data
  if event.type = NormalizedEvent.message_start then
    let t := { t with role := roleOf data }
    if t.role = .user then t else t.startSegment
  else if event.type = NormalizedEvent.message_update then
    if t.role = .user then t else t.update data
  else if event.type = NormalizedEvent.message_end then { t.finishMessage data with role := .unknown }
  else if event.type = NormalizedEvent.tool_execution_start then t.startSegment
  else t

def snapshot (t : FinalTextTracker) : Option FinalTextSnapshot :=
  if t.current = [] then t.previous else some ⟨t.current, t.currentTruncated⟩

/-! ## The cap -/

/-- The captured texts are within the cap, and an empty segment is not truncated. -/
structure Bounded (t : FinalTextTracker) : Prop where
  current : t.current.length ≤ t.maxChars
  previous : ∀ s, t.previous = some s → s.text.length ≤ t.maxChars
  positive : 0 < t.maxChars
  whole : t.current = [] → t.currentTruncated = false

theorem new_bounded (maxChars : Option ℕ) : (new maxChars).Bounded := by
  refine ⟨by simp [new], by simp [new], ?_, by simp [new]⟩
  unfold new
  dsimp only
  split
  · split
    · assumption
    · decide
  · decide

variable {t : FinalTextTracker}

section

variable (h : t.Bounded)
include h

theorem setBounded_bounded {text : JsString} {truncated : Bool}
    (hw : text = [] → truncated = false) : (t.setBounded text truncated).Bounded := by
  unfold setBounded
  split
  · next hlong =>
    refine ⟨by simp only [List.length_drop]; omega, h.previous, h.positive, fun he => ?_⟩
    have hlen := congrArg List.length he
    simp only [List.length_drop, List.length_nil] at hlen
    have := h.positive
    omega
  · exact ⟨by simp_all, h.previous, h.positive, hw⟩

theorem append_bounded (text : JsString) : (t.append text).Bounded := by
  unfold append
  split
  · exact h
  · next hne => exact setBounded_bounded h (fun he => absurd (List.append_eq_nil_iff.mp he).2 hne)

theorem replace_bounded (text : JsString) : (t.replace text).Bounded :=
  setBounded_bounded h fun _ => rfl

theorem startSegment_bounded : t.startSegment.Bounded := by
  refine ⟨by simp [startSegment], fun s hs => ?_, h.positive, by simp [startSegment]⟩
  simp only [startSegment] at hs
  split at hs
  · exact h.previous s hs
  · obtain rfl := Option.some.inj hs
    exact h.current

theorem update_bounded (data : Option Json) : (t.update data).Bounded := by
  unfold update
  repeat' split
  all_goals first | exact h | exact replace_bounded h _ | exact append_bounded h _

theorem finishMessage_bounded (data : Option Json) : (t.finishMessage data).Bounded := by
  unfold finishMessage
  dsimp only
  repeat' split
  all_goals first | exact h | exact replace_bounded h _

theorem role_bounded (role : Role) : Bounded { t with role } :=
  ⟨h.current, h.previous, h.positive, h.whole⟩

theorem observe_bounded (event : NormalizedEvent) : (t.observe event).Bounded := by
  unfold observe
  dsimp only
  split
  · split
    · exact role_bounded h _
    · exact startSegment_bounded (role_bounded h _)
  · split
    · split
      · exact h
      · exact update_bounded h _
    · split
      · exact role_bounded (finishMessage_bounded h _) _
      · split
        · exact startSegment_bounded h
        · exact h

theorem foldl_observe_bounded (events : List NormalizedEvent) : (events.foldl observe t).Bounded :=
  Run.invariant_all (I := Bounded) (fun _ e ht => observe_bounded ht e) h events

end

theorem setBounded_maxChars (t : FinalTextTracker) (text : JsString) (b : Bool) : (t.setBounded text b).maxChars = t.maxChars := by
  unfold setBounded; split <;> rfl

theorem update_maxChars (t : FinalTextTracker) (data : Option Json) : (t.update data).maxChars = t.maxChars := by
  unfold update
  repeat' split
  all_goals first | rfl | exact setBounded_maxChars t _ _ | (unfold append; split <;> [rfl; exact setBounded_maxChars t _ _])

theorem observe_maxChars (t : FinalTextTracker) (event : NormalizedEvent) : (t.observe event).maxChars = t.maxChars := by
  unfold observe finishMessage
  dsimp only
  repeat' split
  all_goals first | rfl | exact update_maxChars t _ | exact setBounded_maxChars t _ _

/-- The text of a run is within the cap, whatever its events. -/
theorem snapshot_le (maxChars : Option ℕ) (events : List NormalizedEvent) (s : FinalTextSnapshot)
    (h : (events.foldl observe (new maxChars)).snapshot = some s) : s.text.length ≤ (new maxChars).maxChars := by
  have hb := foldl_observe_bounded (new_bounded maxChars) events
  have hm : (events.foldl observe (new maxChars)).maxChars = (new maxChars).maxChars :=
    Run.invariant_all (I := fun t => t.maxChars = (new maxChars).maxChars)
      (fun t e ht => (observe_maxChars t e).trans ht) rfl events
  rw [← hm]
  unfold snapshot at h
  split at h
  · exact hb.previous s h
  · obtain rfl := Option.some.inj h
    exact hb.current

/-- A `message_update` carrying one delta. -/
def textDelta (text : JsString) : NormalizedEvent where
  type := NormalizedEvent.message_update
  data := some (.obj [(js "assistantMessageEvent", .obj [(js "type", .str (js "text_delta")), (js "delta", .str text)])])

theorem observe_textDelta (t : FinalTextTracker) (h : t.role ≠ .user) (text : JsString) :
    t.observe (textDelta text) = t.append text := by
  have h1 : NormalizedEvent.message_update ≠ NormalizedEvent.message_start := by decide
  have hu : t.update (record (textDelta text).data) = t.append text := rfl
  have hty : (textDelta text).type = NormalizedEvent.message_update := rfl
  simp only [observe, hty, h1, if_false, if_true, h, hu]

/-- A text within the cap that arrives as one delta is captured whole. -/
theorem snapshot_delta (maxChars : Option ℕ) {text : JsString} (hne : text ≠ []) (hle : text.length ≤ (new maxChars).maxChars) :
    ((new maxChars).observe (textDelta text)).snapshot = some ⟨text, false⟩ := by
  rw [observe_textDelta _ (by simp [new])]
  have hcur : (new maxChars).current = [] := rfl
  have htrunc : (new maxChars).currentTruncated = false := rfl
  simp only [append, hne, if_false, setBounded, hcur, htrunc, List.nil_append, gt_iff_lt, Nat.not_lt.mpr hle, snapshot]

/-! ## A smaller cap shows the tail of what a larger one shows -/

/-- What a cap of `n` keeps of a text: its last `n` characters. -/
def within (n : ℕ) (s : FinalTextSnapshot) : FinalTextSnapshot :=
  ⟨s.text.drop (s.text.length - n), s.truncated || decide (n < s.text.length)⟩

theorem within_within {n m : ℕ} (h : n ≤ m) (s : FinalTextSnapshot) : within n (within m s) = within n s := by
  simp only [within, List.drop_drop, List.length_drop, Bool.or_assoc, ← Bool.decide_or, FinalTextSnapshot.mk.injEq]
  refine ⟨congrArg (s.text.drop ·) (by omega), congrArg (s.truncated || ·) (decide_eq_decide.mpr (by omega))⟩

/-- Appending to the tail and cutting again loses nothing more than cutting once. -/
theorem within_append (n : ℕ) (s : FinalTextSnapshot) (text : JsString) :
    within n ⟨(within n s).text ++ text, (within n s).truncated⟩ = within n ⟨s.text ++ text, s.truncated⟩ := by
  have hcut : s.text.length - n ≤ s.text.length := by omega
  simp only [within, ← List.drop_append_of_le_length hcut, List.drop_drop, List.length_drop, List.length_append,
    Bool.or_assoc, ← Bool.decide_or, FinalTextSnapshot.mk.injEq]
  refine ⟨congrArg ((s.text ++ text).drop ·) (by omega), congrArg (s.truncated || ·) (decide_eq_decide.mpr (by omega))⟩

theorem setBounded_eq (t : FinalTextTracker) (text : JsString) (b : Bool) :
    t.setBounded text b
      = { t with
          current := (within t.maxChars ⟨text, b⟩).text
          currentTruncated := (within t.maxChars ⟨text, b⟩).truncated } := by
  unfold setBounded within
  split
  · next h => simp [h]
  · next h => simp [h, Nat.sub_eq_zero_of_le (Nat.le_of_not_lt h)]

/-- The tracker `u` holds the tails of what `t` holds. -/
structure Shows (t u : FinalTextTracker) : Prop where
  cap : 0 < u.maxChars ∧ u.maxChars ≤ t.maxChars
  role : u.role = t.role
  current : ⟨u.current, u.currentTruncated⟩ = within u.maxChars ⟨t.current, t.currentTruncated⟩
  previous : u.previous = t.previous.map (within u.maxChars)

namespace Shows

variable {t u : FinalTextTracker} (h : Shows t u)
include h

theorem nil_iff : u.current = [] ↔ t.current = [] := by
  have hlen := congrArg (fun s => s.text.length) h.current
  have hcap := h.cap.1
  simp only [within, List.length_drop] at hlen
  rw [← List.length_eq_zero_iff, ← List.length_eq_zero_iff]
  omega

theorem setBounded {a b : FinalTextSnapshot} (hab : within u.maxChars b = within u.maxChars a) :
    Shows (t.setBounded a.text a.truncated) (u.setBounded b.text b.truncated) := by
  rw [setBounded_eq, setBounded_eq]
  exact ⟨h.cap, h.role, hab.trans (within_within h.cap.2 a).symm, h.previous⟩

theorem replace (text : JsString) : Shows (t.replace text) (u.replace text) := h.setBounded (a := ⟨text, false⟩) rfl

theorem append (text : JsString) : Shows (t.append text) (u.append text) := by
  unfold FinalTextTracker.append
  split
  · exact h
  · have htext := congrArg FinalTextSnapshot.text h.current
    have htrunc := congrArg FinalTextSnapshot.truncated h.current
    refine h.setBounded (a := ⟨t.current ++ text, t.currentTruncated⟩) (b := ⟨u.current ++ text, u.currentTruncated⟩) ?_
    rw [show u.current = _ from htext, show u.currentTruncated = _ from htrunc]
    exact within_append u.maxChars ⟨t.current, t.currentTruncated⟩ text

theorem startSegment : Shows t.startSegment u.startSegment := by
  refine ⟨h.cap, h.role, by simp [FinalTextTracker.startSegment, within], ?_⟩
  simp only [FinalTextTracker.startSegment, h.nil_iff]
  split
  · exact h.previous
  · exact congrArg some h.current

theorem withRole (role : Role) : Shows { t with role } { u with role } := ⟨h.cap, rfl, h.current, h.previous⟩

theorem update (data : Option Json) : Shows (t.update data) (u.update data) := by
  unfold FinalTextTracker.update
  repeat' split
  all_goals first | exact h | exact h.replace _ | exact h.append _

theorem finishMessage (data : Option Json) : Shows (t.finishMessage data) (u.finishMessage data) := by
  unfold FinalTextTracker.finishMessage
  dsimp only
  repeat' split
  all_goals first | exact h | exact h.replace _

theorem observe (event : NormalizedEvent) : Shows (t.observe event) (u.observe event) := by
  unfold FinalTextTracker.observe
  dsimp only
  rw [h.role]
  repeat' split
  · exact h.withRole _
  · exact (h.withRole _).startSegment
  · exact h
  · exact h.update _
  · exact (h.finishMessage _).withRole _
  · exact h.startSegment
  · exact h

theorem snapshot : u.snapshot = t.snapshot.map (within u.maxChars) := by
  simp only [FinalTextTracker.snapshot, h.nil_iff]
  split
  · exact h.previous
  · exact congrArg some h.current

end Shows

/-- Over any events, a tracker with a smaller cap shows the tail of what one with a larger cap shows. -/
theorem snapshot_tail (n k : ℕ) (events : List NormalizedEvent) :
    (events.foldl observe (new (some (n + 1)))).snapshot
      = (events.foldl observe (new (some (n + 1 + k)))).snapshot.map (within (n + 1)) := by
  have hnew : Shows (new (some (n + 1 + k))) (new (some (n + 1))) :=
    ⟨by simp only [new, if_pos (show 0 < n + 1 + k by omega), if_pos (Nat.succ_pos n)]; omega, rfl, by simp [new, within], rfl⟩
  suffices hrun : ∀ {t u : FinalTextTracker}, Shows t u → u.maxChars = n + 1 →
      (events.foldl observe u).snapshot = (events.foldl observe t).snapshot.map (within (n + 1)) from hrun hnew rfl
  induction events with
  | nil => exact fun h hcap => hcap ▸ h.snapshot
  | cons event events ih => exact fun h hcap => ih (h.observe event) ((observe_maxChars _ event).trans hcap)

end FinalTextTracker

end RunReceipts

end PiWebUi
