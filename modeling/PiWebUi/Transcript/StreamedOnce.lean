/-
  PiWebUi.Transcript.StreamedOnce — what is streamed of a message is shown once.

  A row's blocks are compared with the message's by their units, each with the type of its
  block (`unitsOf`): the start of a message brings none, a delta brings its own, whatever
  block it ends up in. So all that is streamed is shown once and in its order
  (`streamed_once`). The blocks themselves are the message's where at most one of them was
  there when the start was read and no two neighbours are of one type (`blocks_kept_iff`):
  a delta goes to the last block, and it is a new one where that is of another type.
-/

import PiWebUi.Transcript.StreamTransport
import Mathlib.Data.List.Chain

namespace PiWebUi.Transcript

open PiWebUi.Lib PiWebUi.Lib.JsNumber List

/-! ## Blocks -/

abbrev ShownPart := PartType × JsString

def ContentPart.shown (p : ContentPart) : ShownPart :=
  match p.type with
  | .text => (.text, p.text.getD [])
  | .thinking => (.thinking, p.thinking.getD [])
  | .other name => (.other name, [])

theorem ContentPart.shown_type (p : ContentPart) : p.shown.1 = p.type := by
  unfold ContentPart.shown
  cases p.type with
  | text | thinking | other name => rfl

def textOf (blocks : List ShownPart) : JsString := (blocks.filter (·.1 = .text)).flatMap (·.2)

def thinkingOf (blocks : List ShownPart) : JsString := (blocks.filter (·.1 = .thinking)).flatMap (·.2)

/-- The units of the blocks, each with its block's type. -/
def unitsOf (blocks : List ShownPart) : List (PartType × UInt16) := blocks.flatMap fun b => b.2.map fun u => (b.1, u)

theorem filter_units (type : PartType) (blocks : List ShownPart) :
    (blocks.filter (·.1 = type)).flatMap (·.2) = ((unitsOf blocks).filter (·.1 = type)).map (·.2) := by
  induction blocks with
  | nil => rfl
  | cons b blocks ih =>
    rw [unitsOf, flatMap_cons, filter_append, map_append, ← unitsOf, ← ih, filter_map]
    by_cases hb : b.1 = type <;> simp [hb, Function.comp_def]

theorem textOf_congr {xs ys : List ShownPart} (h : unitsOf xs = unitsOf ys) : textOf xs = textOf ys := by
  rw [textOf, textOf, filter_units, filter_units, h]

theorem thinkingOf_congr {xs ys : List ShownPart} (h : unitsOf xs = unitsOf ys) : thinkingOf xs = thinkingOf ys := by
  rw [thinkingOf, thinkingOf, filter_units, filter_units, h]

theorem unitsOf_append (xs ys : List ShownPart) : unitsOf (xs ++ ys) = unitsOf xs ++ unitsOf ys := flatMap_append

theorem unitsOf_singleton (b : ShownPart) : unitsOf [b] = b.2.map fun u => (b.1, u) := flatMap_singleton _ _

/-- The last block grows if it is of the type; otherwise there is a new one. -/
def appendBlock (blocks : List ShownPart) (d : ShownPart) : List ShownPart :=
  match blocks.getLast? with
  | some last => if last.1 = d.1 then blocks.dropLast ++ [(last.1, last.2 ++ d.2)] else blocks ++ [d]
  | none => [d]

theorem appendBlock_nil (d : ShownPart) : appendBlock [] d = [d] := rfl

theorem appendBlock_same {b d : ShownPart} (h : b.1 = d.1) (blocks : List ShownPart) :
    appendBlock (blocks ++ [b]) d = blocks ++ [(b.1, b.2 ++ d.2)] := by
  rw [appendBlock, getLast?_concat]
  simp only [if_pos h, dropLast_concat]

theorem appendBlock_new {b d : ShownPart} (h : b.1 ≠ d.1) (blocks : List ShownPart) :
    appendBlock (blocks ++ [b]) d = blocks ++ [b] ++ [d] := by
  rw [appendBlock, getLast?_concat]
  simp only [if_neg h]

/-- A delta brings its units. -/
theorem units_appendBlock (blocks : List ShownPart) (d : ShownPart) : unitsOf (appendBlock blocks d) = unitsOf blocks ++ unitsOf [d] := by
  rcases eq_nil_or_concat' blocks with rfl | ⟨front, b, rfl⟩
  · rfl
  · by_cases h : b.1 = d.1
    · rw [appendBlock_same h, unitsOf_append, unitsOf_append, unitsOf_singleton, unitsOf_singleton, unitsOf_singleton, h,
        map_append, append_assoc]
    · rw [appendBlock_new h, unitsOf_append]

theorem units_foldl (ds blocks : List ShownPart) : unitsOf (ds.foldl appendBlock blocks) = unitsOf blocks ++ unitsOf ds := by
  induction ds generalizing blocks with
  | nil => exact (append_nil _).symm
  | cons d ds ih =>
    rw [foldl_cons, ih, units_appendBlock, append_assoc, ← unitsOf_append]
    rfl

/-! ## Which blocks there are -/

theorem length_appendBlock (blocks : List ShownPart) (d : ShownPart) :
    blocks.length ≤ (appendBlock blocks d).length ∧ (appendBlock blocks d).length ≤ blocks.length + 1 := by
  rcases eq_nil_or_concat' blocks with rfl | ⟨front, b, rfl⟩
  · exact ⟨Nat.zero_le _, Nat.le_refl _⟩
  · by_cases h : b.1 = d.1
    · rw [appendBlock_same h]
      simp
    · rw [appendBlock_new h]
      simp

theorem length_foldl (ds blocks : List ShownPart) :
    blocks.length ≤ (ds.foldl appendBlock blocks).length ∧ (ds.foldl appendBlock blocks).length ≤ blocks.length + ds.length := by
  induction ds generalizing blocks with
  | nil => exact ⟨Nat.le_refl _, Nat.le_refl _⟩
  | cons d ds ih =>
    have hstep := length_appendBlock blocks d
    have hrest := ih (appendBlock blocks d)
    rw [foldl_cons, length_cons]
    omega

/-- The first of two blocks stays as it is. -/
theorem head_foldl (ds : List ShownPart) {b : ShownPart} {blocks : List ShownPart} (h : blocks ≠ []) :
    ∃ rest, rest ≠ [] ∧ ds.foldl appendBlock (b :: blocks) = b :: rest := by
  induction ds generalizing blocks with
  | nil => exact ⟨blocks, h, rfl⟩
  | cons d ds ih =>
    obtain ⟨front, c, hsplit⟩ := (eq_nil_or_concat' blocks).resolve_left h
    rw [hsplit, foldl_cons, ← List.cons_append]
    by_cases hc : c.1 = d.1
    · rw [appendBlock_same hc, List.cons_append]
      exact ih (by simp)
    · rw [appendBlock_new hc, append_assoc, List.cons_append]
      exact ih (by simp)

/-- Each block comes to stand after those before it exactly where no neighbours are of one type. -/
theorem foldl_blocks_iff (bs : List ShownPart) (front : List ShownPart) (b : ShownPart) :
    bs.foldl appendBlock (front ++ [b]) = front ++ b :: bs ↔ (b :: bs).IsChain (fun c d => c.1 ≠ d.1) := by
  induction bs generalizing front b with
  | nil => simp
  | cons d bs ih =>
    rw [foldl_cons, isChain_cons_cons]
    by_cases h : b.1 = d.1
    · refine iff_of_false ?_ fun hchain => hchain.1 h
      intro heq
      have hlength := (length_foldl bs (appendBlock (front ++ [b]) d)).2
      rw [heq, appendBlock_same h] at hlength
      simp only [length_append, length_cons, length_nil] at hlength
      omega
    · rw [appendBlock_new h]
      have hih := ih (front ++ [b]) d
      rw [append_assoc front [b] (d :: bs)] at hih
      rw [show front ++ b :: d :: bs = front ++ ([b] ++ d :: bs) from rfl, hih]
      exact ⟨fun hchain => ⟨h, hchain⟩, fun hchain => hchain.2⟩

/-- The deltas of a block one after another are as the block at once. -/
theorem foldl_deltas (type : PartType) (ds : List JsString) (d : JsString) (blocks : List ShownPart) :
    ((d :: ds).map fun e => (type, e)).foldl appendBlock blocks = appendBlock blocks (type, (d :: ds).flatten) := by
  induction ds generalizing d blocks with
  | nil => simp
  | cons e ds ih =>
    have hboth : appendBlock (appendBlock blocks (type, d)) (type, e) = appendBlock blocks (type, d ++ e) := by
      rcases eq_nil_or_concat' blocks with rfl | ⟨front, b, rfl⟩
      · rw [appendBlock_nil, appendBlock_nil]
        exact appendBlock_same (b := (type, d)) (d := (type, e)) rfl []
      · by_cases h : b.1 = type
        · rw [appendBlock_same h, appendBlock_same h, appendBlock_same (d := (type, d ++ e)) h, append_assoc]
        · rw [appendBlock_new (d := (type, d)) h, appendBlock_new (d := (type, d ++ e)) h]
          exact appendBlock_same (b := (type, d)) (d := (type, e)) rfl _
    have hrest := ih (d ++ e) blocks
    rw [map_cons, foldl_cons] at hrest ⊢
    rw [map_cons, foldl_cons, hboth, hrest, flatten_cons, flatten_cons, flatten_cons, append_assoc]

/-! ## A message that is streamed -/

inductive Kind where
  | text
  | thinking
  deriving DecidableEq

/-- The name of the type, and of the field with the content. -/
def Kind.name : Kind → String
  | .text => "text"
  | .thinking => "thinking"

def Kind.type : Kind → PartType
  | .text => .text
  | .thinking => .thinking

structure StreamedBlock where
  kind : Kind
  deltas : List JsString

def StreamedBlock.whole (b : StreamedBlock) : ShownPart := (b.kind.type, b.deltas.flatten)

def StreamedBlock.pieces (b : StreamedBlock) : List ShownPart := b.deltas.map fun d => (b.kind.type, d)

def typeOf (event : EventFields) : Option Json := (Json.obj event).get (js "type")

def messageId (event : EventFields) : Option JsString := ((Json.obj event).get (js "message")).bind fun m => readText (m.get (js "id"))

def deltaBlock (e : AssistantEvent) : Option ShownPart :=
  match e.type, e.delta with
  | .textDelta, some d => some (.text, d)
  | .thinkingDelta, some d => some (.thinking, d)
  | _, _ => none

def streamedDelta (event : EventFields) : Option ShownPart :=
  (((Json.obj event).get (js "assistantMessageEvent")).map readDelta).bind deltaBlock

/-- The block is there with what has been streamed of it. -/
def Holds (block : Json) (b : StreamedBlock) : Prop :=
  ∃ fields s, block = .obj fields ∧ (Json.obj fields).get (js "type") = some (.str (js b.kind.name)) ∧
    (Json.obj fields).get (js b.kind.name) = some (.str s) ∧ s <+: b.deltas.flatten

/-- The events of an assistant message. `held` is its content when the start is read. -/
structure StreamedMessage where
  blocks : List StreamedBlock
  start : EventFields
  message : EventFields
  held : List Json
  updates : List EventFields
  last : EventFields
  starts : typeOf start = some (.str (js "message_start")) ∧ (Json.obj start).get (js "message") = some (.obj message)
  assistant : (Json.obj message).get (js "role") = some (.str (js "assistant")) ∧ isSkillMarkedMessage (.obj message) = false
  content : (Json.obj message).get (js "content") = some (.arr held)
  holds : ∃ k, List.Forall₂ Holds held (blocks.take k)
  updating : ∀ u ∈ updates, typeOf u = some (.str (js "message_update")) ∧ (messageId u = none ∨ messageId u = messageId start)
  streamed : updates.filterMap streamedDelta = blocks.flatMap StreamedBlock.pieces
  ends : typeOf last = some (.str (js "message_end"))

def StreamedMessage.events (m : StreamedMessage) : List EventFields := m.start :: m.updates ++ [m.last]

/-- The rows of a session after the events, as they are sent. -/
def StreamedMessage.rows (now : ℕ) (base : List Message) (m : StreamedMessage) : List Message :=
  (foldEvents now (((m.events.map projectStreamingEventForTransport).filterMap readEvent).map (.event (ρ := EventFields))) base).messages

/-! ## What is read of what is sent -/

theorem get_withField (event : EventFields) (key : String) (f : Json → Json) (j : JsString) :
    (Json.obj (withField event key f)).get j = if j = js key then ((Json.obj event).get j).map f else (Json.obj event).get j := by
  unfold withField EventBroker.setSome
  cases hget : (Json.obj event).get (js key) with
  | none =>
    by_cases hj : j = js key
    · subst hj
      simp [hget]
    · simp [hj]
  | some v =>
    simp only [Option.map_some]
    rw [Json.get_setField]
    by_cases hj : j = js key
    · subst hj
      simp [hget]
    · simp [hj]

theorem get_strip (e : Json) {key : JsString} (hkey : key ≠ js "partial") :
    (EventBroker.stripAssistantMessageEventPartial e).get key = e.get key := by
  cases e with
  | obj fields =>
    simp only [EventBroker.stripAssistantMessageEventPartial, Json.get]
    congr 1
    rw [find?_filter]
    congr 1
    funext f
    by_cases hf : f.1 = key
    · subst hf
      simp [hkey]
    · simp [hf]
  | _ => rfl

theorem readDelta_strip (e : Json) : readDelta (EventBroker.stripAssistantMessageEventPartial e) = readDelta e := by
  unfold readDelta
  rw [get_strip e (by decide), get_strip e (by decide)]

theorem slim_id (message : Json) : (slimStreamingMessage message).get (js "id") = message.get (js "id") := by
  cases message with
  | obj source =>
    have hothers : ∀ keys : List JsString, js "id" ∉ keys →
        (keys.filterMap fun key => ((Json.obj source).get key).map fun v => (key, v)).find? (·.1 = js "id") = none := by
      intro keys hkeys
      rw [find?_eq_none]
      intro field hfield
      obtain ⟨key, hkey, hv⟩ := mem_filterMap.mp hfield
      obtain ⟨v, -, rfl⟩ := Option.map_eq_some_iff.mp hv
      intro hid
      exact hkeys (of_decide_eq_true hid ▸ hkey)
    have hrest := hothers (["role", "stopReason", "errorMessage"].map js) (by decide)
    unfold slimStreamingMessage MESSAGE_IDENTITY_FIELDS
    simp only
    rw [map_cons, filterMap_cons]
    cases hid : (Json.obj source).get (js "id") with
    | none =>
      simp only [Option.map_none]
      rw [Json.get, hrest]
      rfl
    | some v => simp [Json.get]
  | _ => rfl

theorem read_update {u : EventFields} (h : typeOf u = some (.str (js "message_update"))) :
    readEvent (projectStreamingEventForTransport u) =
      some (.messageUpdate (messageId u) (((Json.obj u).get (js "assistantMessageEvent")).map readDelta)) := by
  have hother : js "message_update" ≠ js "message_start" := by decide
  unfold typeOf at h
  unfold projectStreamingEventForTransport readEvent messageId
  have htype : js "type" ≠ js "assistantMessageEvent" ∧ js "type" ≠ js "message" := by decide
  have hmessage : js "message" ≠ js "assistantMessageEvent" := by decide
  simp only [get_withField, if_neg htype.1, if_neg htype.2, if_neg hmessage, if_neg hmessage.symm, h,
    Option.some.injEq, Json.str.injEq, if_neg hother, if_true, Option.bind_map, Option.map_map, Function.comp_def, slim_id,
    readDelta_strip]

theorem read_last {u : EventFields} (h : typeOf u = some (.str (js "message_end"))) :
    readEvent (projectStreamingEventForTransport u) = some (.messageEnd (((Json.obj u).get (js "message")).map readMessage)) := by
  have hupdate : js "message_end" ≠ js "message_update" := by decide
  have hstart : js "message_end" ≠ js "message_start" := by decide
  unfold typeOf at h
  unfold projectStreamingEventForTransport readEvent
  simp only [h, Option.some.injEq, Json.str.injEq, if_neg hupdate, if_neg hstart, if_true]

/-- Of a block that is there already its type is sent, and no content. -/
theorem shown_neutralised {block : Json} {b : StreamedBlock} (h : Holds block b) :
    (readPart (neutraliseBlock block)).shown = (b.kind.type, []) := by
  obtain ⟨fields, s, rfl, htype, hcontent, -⟩ := h
  have hne : js "type" ≠ js "text" ∧ js "type" ≠ js "thinking" ∧ js "thinking" ≠ js "text" := by decide
  cases hkind : b.kind with
  | text =>
    rw [hkind] at htype hcontent
    have hread : readPart (neutraliseBlock (.obj fields)) =
        { type := .text, text := some [], thinking := readText ((Json.obj (Json.setField fields (js "text") (.str []))).get (js "thinking")) } := by
      simp only [Kind.name] at htype hcontent
      simp only [neutraliseBlock, htype, if_true, emptied, hcontent, readPart, Json.get_setField, if_neg hne.1]
      rfl
    rw [hread]
    rfl
  | thinking =>
    rw [hkind] at htype hcontent
    have hread : readPart (neutraliseBlock (.obj fields)) =
        { type := .thinking, text := readText ((Json.obj (Json.setField fields (js "thinking") (.str []))).get (js "text")), thinking := some [] } := by
      simp only [Kind.name] at htype hcontent
      simp only [neutraliseBlock, htype, Option.some.injEq, Json.str.injEq, if_neg hne.2.2, if_true, emptied, hcontent, readPart,
        Json.get_setField, if_neg hne.2.1]
      rfl
    rw [hread]
    rfl

theorem shown_held {held : List Json} {blocks : List StreamedBlock} (h : List.Forall₂ Holds held blocks) :
    (held.map fun block => (readPart (neutraliseBlock block)).shown) = blocks.map fun b => (b.kind.type, []) := by
  induction h with
  | nil => rfl
  | cons hblock _ ih => rw [map_cons, map_cons, shown_neutralised hblock, ih]

/-- The start as it is read: typed blocks without content. -/
theorem read_start (m : StreamedMessage) :
    ∃ w : WireMessage, readEvent (projectStreamingEventForTransport m.start) = some (.messageStart w) ∧ w.id = messageId m.start ∧
      w.content = some (.parts (m.held.map fun block => readPart (neutraliseBlock block))) := by
  obtain ⟨htype, hmessage⟩ := m.starts
  obtain ⟨hrole, hplain⟩ := m.assistant
  have hstart : js "message_start" ≠ js "message_update" := by decide
  have hkey : js "type" ≠ js "message" := by decide
  have hid : js "id" ≠ js "content" := by decide
  unfold typeOf at htype
  have hsent : startMessage (.obj m.message) =
      .obj (Json.setField m.message (js "content") (.arr (m.held.map neutraliseBlock))) := by
    simp only [startMessage, detachMessageContent, hrole, hplain, neutraliseStreamedStartContent, m.content]
    rfl
  refine ⟨readMessage (.obj (Json.setField m.message (js "content") (.arr (m.held.map neutraliseBlock)))), ?_, ?_, ?_⟩
  · unfold projectStreamingEventForTransport readEvent
    simp only [htype, Option.some.injEq, Json.str.injEq, if_neg hstart, if_true, get_withField, if_neg hkey, hmessage, Option.map_some,
      hsent, Option.getD_some]
  · unfold readMessage messageId
    simp only [Json.get_setField, if_neg hid, hmessage, Option.bind_some]
  · unfold readMessage
    simp only [Json.get_setField, if_true, Option.bind_some, readContent, List.map_map, Function.comp_def]

/-! ## The row of the message -/

/-- The message that is under way is the last row. -/
structure Streaming (s : FoldState EventFields) (base : List Message) (row : Message) (wireId : JsString) : Prop where
  messages : s.messages = base ++ [row]
  active : s.activeMessageId = some wireId
  named : wireId ≠ []
  latest : s.latestByWireId.get wireId = some row.id
  fresh : row.id ∉ base.map (·.id)

variable {s : FoldState EventFields} {base : List Message} {row : Message} {wireId : JsString}

section

variable (h : Streaming s base row wireId) {id : Option JsString}
  (hid : truthy id = none ∨ truthy id = some wireId)
include h hid

theorem Streaming.target : findTarget s ((truthy id) <|> s.activeMessageId) = some base.length := by
  have hwire : ((truthy id) <|> s.activeMessageId) = some wireId := by
    rcases hid with hid | hid
    · rw [hid, h.active]
      rfl
    · rw [hid]
      rfl
  have hindex : storageIdIndex s.messages row.id = some base.length := by
    have hnone : base.findIdx? (fun m => decide (m.id = row.id)) = none := by
      rw [findIdx?_eq_none_iff]
      intro m hm
      apply decide_eq_false
      intro heq
      exact h.fresh (heq ▸ mem_map_of_mem hm)
    rw [storageIdIndex, h.messages, findIdx?_append, hnone]
    simp
  unfold findTarget
  rw [hwire, truthy_of_ne_nil h.named]
  simp only [lookupId, h.latest, Option.getD_some, hindex, Option.some_or]

theorem Streaming.update
    (e : Option AssistantEvent) (now : ℕ) : Streaming (foldEvent now s (.messageUpdate id e)) base (onDelta e row) wireId where
  messages := by
    simp only [foldEvent]
    rw [h.target hid, h.messages, updateAt_last]
  active := h.active
  named := h.named
  latest := by
    rw [onDelta_id]
    exact h.latest
  fresh := by
    rw [onDelta_id]
    exact h.fresh

end

theorem streaming_start (now : ℕ) (base : List Message) (w : WireMessage) :
    ∃ row wireId, Streaming (foldEvent now (.start base) (.messageStart w)) base row wireId ∧ row.content = w.initialContent ∧
      (truthy w.id = none ∨ truthy w.id = some wireId) := by
  have hnamed : (truthy w.id).getD (generatedId now "msg_" base) ≠ [] := by
    cases hid : truthy w.id with
    | none => exact append_ne_nil_of_left_ne_nil (append_ne_nil_of_left_ne_nil (append_ne_nil_of_left_ne_nil (by decide) _) _) _
    | some id => exact ne_nil_of_truthy hid
  let wireId := (truthy w.id).getD (generatedId now "msg_" base)
  let row : Message := {
    id := storageIdForStart (FoldState.start (ρ := EventFields) base) wireId
    role := some (w.role.getD assistantRole)
    customType := w.customType
    content := w.initialContent
    timestamp := now }
  refine ⟨row, wireId, ?_, rfl, ?_⟩
  · constructor
    · rfl
    · rfl
    · exact hnamed
    · exact JsMap.get_set_same _ _ _
    · exact firstFree_free _ (storageCandidate_injective _)
  · cases hid : truthy w.id with
    | none => exact .inl rfl
    | some id => exact .inr (by simp [wireId, hid])

theorem shown_appendPart (type : PartType) (grow : ContentPart → ContentPart) (fresh : ContentPart) {d : JsString}
    (hfresh : fresh.shown = (type, d)) (hgrow : ∀ p : ContentPart, p.type = type → (grow p).shown = (type, p.shown.2 ++ d))
    (ps : List ContentPart) :
    (appendPart type grow fresh ps).map ContentPart.shown = appendBlock (ps.map ContentPart.shown) (type, d) := by
  rcases eq_nil_or_concat' ps with rfl | ⟨front, p, rfl⟩
  · rw [map_nil, appendBlock_nil, ← hfresh]
    rfl
  · rw [map_append, map_singleton, appendPart, getLast?_concat]
    by_cases hp : p.type = type
    · rw [appendBlock_same (p.shown_type.trans hp)]
      simp only [hp, if_true, dropLast_concat, map_append, map_singleton, hgrow p hp, p.shown_type]
    · rw [appendBlock_new (fun h => hp (p.shown_type.symm.trans h))]
      simp only [if_neg hp, map_append, map_singleton, hfresh]

/-- A delta is appended to the row's blocks. -/
theorem onDelta_shown {ps : List ContentPart} (hcontent : row.content = .parts ps) (e : Option AssistantEvent) :
    ∃ ps', (onDelta e row).content = .parts ps' ∧
      ps'.map ContentPart.shown = (e.bind deltaBlock).toList.foldl appendBlock (ps.map ContentPart.shown) := by
  cases e with
  | none => exact ⟨ps, hcontent, rfl⟩
  | some e =>
    obtain ⟨type, delta⟩ := e
    cases delta with
    | none =>
      have hnone : appendDelta row.content ⟨type, none⟩ = none := by cases type <;> rfl
      have hblock : deltaBlock ⟨type, none⟩ = none := by cases type <;> rfl
      refine ⟨ps, ?_, ?_⟩
      · simp only [onDelta, Option.bind_some, hnone]
        exact hcontent
      · rw [Option.bind_some, hblock]
        rfl
    | some d =>
      cases type with
      | textDelta =>
        refine ⟨_, ?_, shown_appendPart .text (fun p => { p with text := some (p.text.getD [] ++ d) })
          { type := .text, text := some d } rfl ?_ ps⟩
        · simp only [onDelta, Option.bind_some, appendDelta, hcontent]
          rfl
        · intro p hp
          simp only [ContentPart.shown, hp, Option.getD_some]
      | thinkingDelta =>
        refine ⟨_, ?_, shown_appendPart .thinking (fun p => { p with thinking := some (p.thinking.getD [] ++ d) })
          { type := .thinking, thinking := some d } rfl ?_ ps⟩
        · simp only [onDelta, Option.bind_some, appendDelta, hcontent]
          rfl
        · intro p hp
          simp only [ContentPart.shown, hp, Option.getD_some]
      | other =>
        refine ⟨ps, ?_, rfl⟩
        simp only [onDelta, Option.bind_some, appendDelta]
        exact hcontent

/-- The updates of the message one after another. -/
theorem streaming_updates (now : ℕ) {us : List EventFields} (wid : Option JsString) (hwid : truthy wid = none ∨ truthy wid = some wireId)
    (hus : ∀ u ∈ us, typeOf u = some (.str (js "message_update")) ∧ (messageId u = none ∨ messageId u = wid))
    (h : Streaming s base row wireId) {ps : List ContentPart} (hcontent : row.content = .parts ps) : ∃ row' ps', Streaming
        ((((us.map projectStreamingEventForTransport).filterMap readEvent).map (.event (ρ := EventFields))).foldl (foldStep now) s)
        base row' wireId ∧
      row'.content = .parts ps' ∧ ps'.map ContentPart.shown = (us.filterMap streamedDelta).foldl appendBlock (ps.map ContentPart.shown) := by
  induction us generalizing s row ps with
  | nil => exact ⟨row, ps, h, hcontent, rfl⟩
  | cons u us ih =>
    obtain ⟨htype, hid⟩ := hus u mem_cons_self
    have hmessage : truthy (messageId u) = none ∨ truthy (messageId u) = some wireId := by
      rcases hid with hid | hid
      · exact .inl (by rw [hid]; rfl)
      · rw [hid]
        exact hwid
    obtain ⟨ps', hcontent', hshown⟩ := onDelta_shown hcontent (((Json.obj u).get (js "assistantMessageEvent")).map readDelta)
    obtain ⟨row'', ps'', hstreaming, hcontent'', hshown''⟩ := ih (fun v hv => hus v (mem_cons_of_mem _ hv))
      (h.update hmessage (((Json.obj u).get (js "assistantMessageEvent")).map readDelta) now) hcontent'
    refine ⟨row'', ps'', ?_, hcontent'', ?_⟩
    · rw [map_cons, filterMap_cons_some (read_update htype), map_cons, foldl_cons]
      exact hstreaming
    · rw [hshown'', hshown]
      change (us.filterMap streamedDelta).foldl appendBlock ((streamedDelta u).toList.foldl appendBlock _) = _
      rw [filterMap_cons]
      cases streamedDelta u with
      | none | some d => rfl

/-- The row of the message at its end: what was streamed, appended to the types that were there. -/
theorem rows_streamed (now : ℕ) (base : List Message) (m : StreamedMessage) :
    ∃ row parts k, m.rows now base = base ++ [row] ∧ row.content = .parts parts ∧ m.held.length = (m.blocks.take k).length ∧
      parts.map ContentPart.shown =
        (m.blocks.flatMap StreamedBlock.pieces).foldl appendBlock ((m.blocks.take k).map fun b => (b.kind.type, [])) := by
  obtain ⟨w, hread, hid, hcontent⟩ := read_start m
  obtain ⟨k, hheld⟩ := m.holds
  obtain ⟨row, wireId, hstart, hrow, hwire⟩ := streaming_start now base w
  have hinitial : row.content = .parts (m.held.map fun block => readPart (neutraliseBlock block)) := by
    rw [hrow, WireMessage.initialContent, hcontent]
    rfl
  rw [hid] at hwire
  obtain ⟨row', parts, hstreaming, hcontent', hshown⟩ := streaming_updates now (messageId m.start) hwire m.updating hstart hinitial
  refine ⟨row', parts, k, ?_, hcontent', hheld.length_eq, ?_⟩
  · unfold StreamedMessage.rows StreamedMessage.events foldEvents foldSessionEvents
    rw [map_append, map_cons, filterMap_append, filterMap_cons_some hread, map_append, foldl_append,
      map_cons, foldl_cons, map_singleton, filterMap_cons_some (read_last m.ends)]
    exact hstreaming.messages
  · rw [hshown, m.streamed, List.map_map]
    exact congrArg (fun start => (m.blocks.flatMap StreamedBlock.pieces).foldl appendBlock start) (shown_held hheld)

/-! ## Once and in order -/

theorem units_pieces (blocks : List StreamedBlock) :
    unitsOf (blocks.flatMap StreamedBlock.pieces) = unitsOf (blocks.map StreamedBlock.whole) := by
  have hblock : ∀ (type : PartType) (ds : List JsString), unitsOf (ds.map fun d => (type, d)) = unitsOf [(type, ds.flatten)] := by
    intro type ds
    induction ds with
    | nil => rfl
    | cons d ds ih =>
      rw [map_cons, flatten_cons, unitsOf, flatMap_cons, ← unitsOf, ih, unitsOf_singleton, unitsOf_singleton,
        map_append]
  induction blocks with
  | nil => rfl
  | cons b blocks ih =>
    rw [flatMap_cons, unitsOf_append, ih, StreamedBlock.pieces, hblock, ← unitsOf_append]
    rfl

theorem units_empty (blocks : List StreamedBlock) : unitsOf (blocks.map fun b => (b.kind.type, [])) = [] := by
  induction blocks with
  | nil => rfl
  | cons b blocks ih => exact ih

/-- Every block was streamed, and none of its deltas is empty. -/
def StreamedMessage.Full (m : StreamedMessage) : Prop := ∀ b ∈ m.blocks, b.deltas ≠ [] ∧ ∀ d ∈ b.deltas, d ≠ []

theorem foldl_pieces {blocks : List StreamedBlock} (h : ∀ b ∈ blocks, b.deltas ≠ []) (start : List ShownPart) :
    (blocks.flatMap StreamedBlock.pieces).foldl appendBlock start = (blocks.map StreamedBlock.whole).foldl appendBlock start := by
  induction blocks generalizing start with
  | nil => rfl
  | cons b blocks ih =>
    rw [flatMap_cons, foldl_append, map_cons, foldl_cons]
    obtain ⟨d, ds, hds⟩ := exists_cons_of_ne_nil (h b mem_cons_self)
    rw [StreamedBlock.pieces, hds, foldl_deltas, ← hds]
    exact ih (fun c hc => h c (mem_cons_of_mem _ hc)) _

theorem Kind.type_injective : Function.Injective Kind.type := by
  intro a b h
  cases a with
  | text =>
    cases b with
    | text => rfl
    | thinking => cases h
  | thinking =>
    cases b with
    | text => cases h
    | thinking => rfl

theorem chain_whole_iff (blocks : List StreamedBlock) :
    (blocks.map StreamedBlock.whole).IsChain (fun c d => c.1 ≠ d.1) ↔ blocks.IsChain (fun b c => b.kind ≠ c.kind) := by
  rw [isChain_map]
  have hsame : (fun b c : StreamedBlock => b.whole.1 ≠ c.whole.1) = fun b c => b.kind ≠ c.kind := by
    funext b c
    exact propext (Kind.type_injective.ne_iff)
  exact iff_of_eq (congrArg (fun R => blocks.IsChain R) hsame)

/-- The blocks are kept where at most one was there, and no neighbours are of one type. -/
theorem blocks_kept_iff {blocks : List StreamedBlock} (h : ∀ b ∈ blocks, b.whole.2 ≠ []) (k : ℕ) :
    (blocks.map StreamedBlock.whole).foldl appendBlock ((blocks.take k).map fun b => (b.kind.type, [])) = blocks.map StreamedBlock.whole ↔
      (blocks.take k).length ≤ 1 ∧ blocks.IsChain (fun b c => b.kind ≠ c.kind) := by
  cases blocks with
  | nil => simp
  | cons b blocks =>
    have hchain := foldl_blocks_iff (blocks.map StreamedBlock.whole) [] b.whole
    rw [nil_append, nil_append, ← map_cons, chain_whole_iff] at hchain
    cases k with
    | zero =>
      simp only [take_zero, map_nil, length_nil]
      rw [map_cons, foldl_cons, appendBlock_nil, ← map_cons, hchain]
      simp
    | succ k =>
      rw [take_succ_cons, map_cons, length_cons]
      by_cases hnone : blocks.take k = []
      · rw [hnone, map_cons, foldl_cons, ← map_cons]
        have hgrow : appendBlock [(b.kind.type, [])] b.whole = [b.whole] :=
          appendBlock_same (b := (b.kind.type, [])) (d := b.whole) rfl []
        rw [map_nil, hgrow, hchain]
        simp
      · refine iff_of_false ?_ ?_
        · have hmore : ((blocks.take k).map fun b => (b.kind.type, ([] : JsString))) ≠ [] := by simpa using hnone
          obtain ⟨rest, -, hrest⟩ := head_foldl ((b :: blocks).map StreamedBlock.whole) (b := (b.kind.type, [])) hmore
          rw [hrest, map_cons]
          intro heq
          have hempty : ([] : JsString) = b.whole.2 := congrArg Prod.snd (List.cons.inj heq).1
          exact h b mem_cons_self hempty.symm
        · intro hone
          have hpos := length_pos_of_ne_nil hnone
          omega

/-- The row that a streamed message ends as holds each unit of text and of thinking once and in
    the message's order; its blocks are the message's exactly where at most one of them was
    there when the start was read and no two neighbours are of one type. -/
theorem streamed_once (now : ℕ) (base : List Message) (m : StreamedMessage) :
    ∃ row parts, m.rows now base = base ++ [row] ∧ row.content = .parts parts ∧
      textOf (parts.map ContentPart.shown) = textOf (m.blocks.map StreamedBlock.whole) ∧
      thinkingOf (parts.map ContentPart.shown) = thinkingOf (m.blocks.map StreamedBlock.whole) ∧
      unitsOf (parts.map ContentPart.shown) = unitsOf (m.blocks.map StreamedBlock.whole) ∧
      (m.Full → (parts.map ContentPart.shown = m.blocks.map StreamedBlock.whole ↔
        m.held.length ≤ 1 ∧ m.blocks.IsChain (fun b c => b.kind ≠ c.kind))) := by
  obtain ⟨row, parts, k, hrows, hcontent, hheld, hshown⟩ := rows_streamed now base m
  have hunits : unitsOf (parts.map ContentPart.shown) = unitsOf (m.blocks.map StreamedBlock.whole) := by
    rw [hshown, units_foldl, units_empty, nil_append, units_pieces]
  refine ⟨row, parts, hrows, hcontent, textOf_congr hunits, thinkingOf_congr hunits, hunits, ?_⟩
  intro hfull
  rw [hshown, foldl_pieces fun b hb => (hfull b hb).1, hheld]
  apply blocks_kept_iff
  intro b hb hempty
  obtain ⟨d, ds, hds⟩ := exists_cons_of_ne_nil (hfull b hb).1
  have hd := (hfull b hb).2 d (hds ▸ mem_cons_self)
  exact hd (flatten_eq_nil_iff.mp hempty d (hds ▸ mem_cons_self))

/-! ## Both blocks there when the start is read -/

def partOf (k : Kind) (s : String) : Json := .obj [(js "type", .str (js k.name)), (js k.name, .str (js s))]

def deltaOf (type s : String) : EventFields :=
  [(js "type", .str (js "message_update")), (js "assistantMessageEvent", .obj [(js "type", .str (js type)), (js "delta", .str (js s))])]

/-- A thinking and a text, and the start is read when both have come. -/
def readLate : StreamedMessage where
  blocks := [⟨.thinking, [js "hm"]⟩, ⟨.text, [js "hi"]⟩]
  start := [(js "type", .str (js "message_start")),
    (js "message", .obj [(js "role", .str (js "assistant")), (js "content", .arr [partOf .thinking "hm", partOf .text "hi"])])]
  message := [(js "role", .str (js "assistant")), (js "content", .arr [partOf .thinking "hm", partOf .text "hi"])]
  held := [partOf .thinking "hm", partOf .text "hi"]
  updates := [deltaOf "thinking_delta" "hm", deltaOf "text_delta" "hi"]
  last := [(js "type", .str (js "message_end"))]
  starts := by decide
  assistant := by decide
  content := by decide
  holds := ⟨2, .cons ⟨_, js "hm", rfl, by decide, by decide, by decide⟩ (.cons ⟨_, js "hi", rfl, by decide, by decide, by decide⟩ .nil)⟩
  updating := by decide
  streamed := by decide
  ends := by decide

/-- The row has two empty blocks before the two that were streamed. -/
theorem readLate_rows : (readLate.rows 0 []).map (·.content) =
        [.parts [{ type := .thinking, thinking := some [] }, { type := .text, text := some [] },
          { type := .thinking, thinking := some (js "hm") }, { type := .text, text := some (js "hi") }]] ∧
      readLate.blocks.map StreamedBlock.whole = [(.thinking, js "hm"), (.text, js "hi")] := by
  constructor
  · decide +kernel
  · decide

end PiWebUi.Transcript
