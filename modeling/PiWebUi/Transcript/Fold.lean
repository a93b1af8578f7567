/-
  PiWebUi.Transcript.Fold — the history fold (packages/session-core/src/fold.ts).

  `foldSessionEvents` builds the rows of a session from buffered events, over the rows it
  already has. Rows are only pushed and their ids and roles never change, so the fold's
  two indexes are functions of the rows: the first row with an id, and the last assistant
  row. A row is named by its place in the list.
-/

import PiWebUi.Transcript.Model
import PiWebUi.Lib.JsMap

namespace PiWebUi.Transcript

open PiWebUi.Lib PiWebUi.Lib.JsNumber List

/-- A buffered message: a foldable event, or anything else. -/
inductive BufferItem (ρ : Type)
  | event (e : Event)
  | other (raw : ρ)
  deriving DecidableEq

variable {ρ : Type}

structure FoldState (ρ : Type) where
  messages : List Message
  leftovers : List (BufferItem ρ) := []
  activeMessageId : Option JsString := none
  usedIds : List JsString
  latestByWireId : JsMap JsString JsString := JsMap.empty

def FoldState.start (base : List Message) : FoldState ρ := { messages := base, usedIds := base.map (·.id) }

/-- `storageIdIndex.get`: the first row with the id. -/
def storageIdIndex (messages : List Message) (id : JsString) : Option ℕ := messages.findIdx? (·.id = id)

/-- `latestAssistantMessage`: the last assistant row. -/
def latestAssistantMessage (messages : List Message) : Option ℕ :=
  (messages.reverse.findIdx? (·.role = some assistantRole)).map (messages.length - 1 - ·)

def storageIdForStart (s : FoldState ρ) (wireId : JsString) : JsString := firstFree s.usedIds (storageCandidate wireId)

def lookupId (s : FoldState ρ) (wireId : JsString) : JsString := (s.latestByWireId.get wireId).getD wireId

def findTarget (s : FoldState ρ) (id : Option JsString) : Option ℕ :=
  match truthy id with
  | some id => (storageIdIndex s.messages (lookupId s id)).or (storageIdIndex s.messages id)
  | none => latestAssistantMessage s.messages

/-- The row at a place changes. -/
def updateAt (messages : List Message) (i : Option ℕ) (f : Message → Message) : List Message :=
  match i with
  | some i => messages.modify i f
  | none => messages

theorem updateAt_last (messages : List Message) (row : Message) (f : Message → Message) :
    updateAt (messages ++ [row]) (some messages.length) f = messages ++ [f row] := by
  rw [updateAt]
  induction messages with
  | nil => rfl
  | cons m ms ih => rw [List.cons_append, length_cons, modify_succ_cons, ih, List.cons_append]

def onDelta (e : Option AssistantEvent) (m : Message) : Message :=
  match e.bind (appendDelta m.content) with
  | some content => { m with content }
  | none => m

/-- What the fold's `tool_execution_end` writes on its target, if that is a tool. -/
def onToolEnd (raw : ToolFields) (result : ResultValue) (isError : Bool) (m : Message) : Message :=
  if m.role = some toolRole then
    { m with
      content := .text (extractToolResultText result)
      toolCall := m.toolCall.map fun c => { c with args := raw.callArgs <|> c.args }
      toolResult := some ⟨extractToolResultText result, isError⟩ }
  else m

section

variable (now : ℕ)

/-- `msg_${now()}_${messages.length}` -/
def generatedId (pre : String) (messages : List Message) : JsString :=
  js pre ++ natText now ++ js "_" ++ natText messages.length

def foldEvent (s : FoldState ρ) : Event → FoldState ρ
  | .messageStart message =>
    let wireId := (truthy message.id).getD (generatedId now "msg_" s.messages)
    let id := storageIdForStart s wireId
    { s with
      messages := s.messages ++ [{
        id
        role := some (message.role.getD assistantRole)
        customType := message.customType
        content := message.initialContent
        timestamp := now }]
      activeMessageId := some wireId
      usedIds := s.usedIds ++ [id]
      latestByWireId := s.latestByWireId.set wireId id }
  | .messageUpdate id e =>
    let target := findTarget s ((truthy id) <|> s.activeMessageId)
    { s with messages := updateAt s.messages target (onDelta e) }
  | .messageEnd _ => { s with activeMessageId := none }
  | .toolStart raw =>
    let id := (truthy raw.callId).getD (generatedId now "tool_" s.messages)
    { s with
      messages := s.messages ++ [{
        id
        role := some toolRole
        content := .text []
        timestamp := now
        toolCall := some ⟨id, (truthy raw.callName).getD (js "unknown"), raw.callArgs⟩ }] }
  | .toolEnd raw result isError =>
    { s with messages := updateAt s.messages (findTarget s raw.callId) (onToolEnd raw result isError) }

def foldStep (s : FoldState ρ) : BufferItem ρ → FoldState ρ
  | .event e => foldEvent now s e
  | .other raw => { s with leftovers := s.leftovers ++ [.other raw] }

structure FoldResult (ρ : Type) where
  messages : List Message
  leftovers : List (BufferItem ρ)

def foldSessionEvents (buffer : List (BufferItem ρ)) (base : List Message) : FoldResult ρ :=
  let s := buffer.foldl (foldStep now) (.start base)
  ⟨s.messages, s.leftovers⟩

/-- `foldEvents`: bare events, each put into a `session_event` first. -/
def foldEvents (events : List (BufferItem ρ)) (base : List Message) : FoldResult ρ := foldSessionEvents now events base

end

/-! ## What an event leaves alone -/

theorem map_updateAt {α : Type} {g : Message → α} {f : Message → Message} (h : ∀ m, g (f m) = g m)
    (messages : List Message) (i : Option ℕ) : (updateAt messages i f).map g = messages.map g := by
  cases i with
  | none => rfl
  | some i =>
    rw [updateAt]
    induction messages generalizing i with
    | nil => simp
    | cons m ms ih =>
      cases i with
      | zero => simp [h]
      | succ i => simpa using ih i

@[simp] theorem onDelta_id (e : Option AssistantEvent) (m : Message) : (onDelta e m).id = m.id := by
  rw [onDelta]
  split <;> rfl

@[simp] theorem onDelta_role (e : Option AssistantEvent) (m : Message) : (onDelta e m).role = m.role := by
  rw [onDelta]
  split <;> rfl

@[simp] theorem onToolEnd_id (raw : ToolFields) (result : ResultValue) (isError : Bool) (m : Message) :
    (onToolEnd raw result isError m).id = m.id := by
  rw [onToolEnd]
  split <;> rfl

@[simp] theorem onToolEnd_role (raw : ToolFields) (result : ResultValue) (isError : Bool) (m : Message) :
    (onToolEnd raw result isError m).role = m.role := by
  rw [onToolEnd]
  split <;> rfl

/-- What counts as taken is an id of a row. -/
def UsedAreIds (s : FoldState ρ) : Prop := ∀ id ∈ s.usedIds, id ∈ s.messages.map (·.id)

theorem used_foldStep (now : ℕ) {s : FoldState ρ} (h : UsedAreIds s) (item : BufferItem ρ) : UsedAreIds (foldStep now s item) := by
  cases item with
  | other raw => exact h
  | event e =>
    cases e with
    | messageStart message =>
      intro id hid
      simp only [foldStep, foldEvent, mem_append, mem_singleton, map_append, map_cons,
        map_nil] at hid ⊢
      exact hid.imp (h id) fun heq => heq
    | messageUpdate id e =>
      simp only [UsedAreIds, foldStep, foldEvent, map_updateAt (onDelta_id e)]
      exact h
    | messageEnd message => exact h
    | toolStart raw =>
      intro id hid
      simp only [foldStep, foldEvent, map_append, mem_append]
      exact .inl (h id hid)
    | toolEnd raw result isError =>
      simp only [UsedAreIds, foldStep, foldEvent, map_updateAt (onToolEnd_id raw result isError)]
      exact h

theorem leftovers_foldl (now : ℕ) (s : FoldState ρ) (items : List (BufferItem ρ)) :
    (items.foldl (foldStep now) s).leftovers = s.leftovers ++ items.filter (· matches .other _) := by
  induction items generalizing s with
  | nil => simp
  | cons item items ih =>
    rw [foldl_cons, ih]
    cases item with
    | other raw => simp [foldStep]
    | event e => cases e <;> rfl

end PiWebUi.Transcript
