/-
  PiWebUi.Transcript.ClaudeReplay — what a replayed Claude session shows.

  `blocks` is the session as its file tells it: one block for each user entry, each
  maximal run of assistant entries and each tool entry. `replay_faithful`: the replay has
  one row for each block, in order; a result is shown on the tool it names, and a tool
  shows what an entry put on it (`putBy`) and nothing else.
-/

import Mathlib.Data.List.TakeWhile
import PiWebUi.Transcript.ClaudeHistory
import PiWebUi.Lib.Run

namespace PiWebUi.Transcript

open PiWebUi.Lib PiWebUi.Lib.JsNumber List Option

variable {s : FoldState Json}

/-! ## The session its file tells -/

inductive Block
  | user (text : JsString)
  | assistant (text : JsString)
  | tool (id name : JsString) (args : Json)
  deriving DecidableEq

def toolBlock (entry : ClaudeMessageEntry) : Block :=
  .tool (toolId entry) ((truthy entry.toolName).getD (js "unknown")) (orEmptyObject entry.toolInput)

def blocks : List ClaudeMessageEntry → List Block
  | [] => []
  | entry :: rest =>
    match entry.type with
    | .assistant =>
      .assistant (coalescedText (entry :: rest.takeWhile isAssistant)) :: blocks (rest.dropWhile isAssistant)
    | .user => .user (entry.content.getD []) :: blocks rest
    | .tool => toolBlock entry :: blocks rest
    | _ => blocks rest
  termination_by entries => entries.length
  decreasing_by
    · have := (dropWhile_sublist isAssistant (l := rest)).length_le
      simp only [length_cons]
      omega
    all_goals simp only [length_cons]; omega

def toolIds (entries : List ClaudeMessageEntry) : List JsString :=
  (entries.filter (·.type = .tool)).map toolId

/-- The ids the messages are started with, in order. -/
def wireIds : List ClaudeMessageEntry → List JsString
  | [] => []
  | entry :: rest =>
    match entry.type with
    | .assistant => asstId entry :: wireIds (rest.dropWhile isAssistant)
    | .user => userId entry :: wireIds rest
    | _ => wireIds rest
  termination_by entries => entries.length
  decreasing_by
    · have := (dropWhile_sublist isAssistant (l := rest)).length_le
      simp only [length_cons]
      omega
    all_goals simp only [length_cons]; omega

/-- One more message takes an id: its own, or the first free copy. -/
def allocate (used : List JsString) (wireId : JsString) : List JsString :=
  used ++ [firstFree used (storageCandidate wireId)]

/-- The synthetic ids: those the messages get. -/
def messageIds (entries : List ClaudeMessageEntry) : List JsString := (wireIds entries).foldl allocate []

/-! ## Results -/

def recordedResult (entry : ClaudeMessageEntry) : ToolResult :=
  ⟨entry.toolOutput.getD [], entry.isError.getD false⟩

def noResult : ToolResult := ⟨noResultText, false⟩

/-- The open tools a result is for: the one it names; every open one if it has no id, or one
    of the generated form that names none. With no tool open, the one it names. -/
def targets (opened : List JsString) (entry : ClaudeMessageEntry) : List JsString :=
  match truthy entry.toolCallId with
  | some id =>
    if id ∈ opened then [id] else if opened ≠ [] ∧ isGeneratedFallbackToolCallId id then opened else [id]
  | none => if opened ≠ [] then opened else [toolId entry]

/-- The entry ends what the open tools were part of. -/
def isBoundary (entry : ClaudeMessageEntry) : Bool :=
  entry.type = .assistant ∨ entry.type = .meta_ ∧ truthy entry.createdAt = none

/-- What an entry puts on a tool, given the tools that are open. -/
def putBy (opened : List JsString) (entry : ClaudeMessageEntry) (id : JsString) : Option ToolResult :=
  if entry.type = .tool then if id = toolId entry ∧ entry.toolOutput ≠ none then some (recordedResult entry) else none
  else if entry.type = .toolResult then if id ∈ targets opened entry then some (recordedResult entry) else none
  else if isBoundary entry ∧ id ∈ opened then some noResult
  else none

def openedAfter (opened : List JsString) (entry : ClaudeMessageEntry) : List JsString :=
  if entry.type = .tool then if entry.toolOutput = none then opened ++ [toolId entry] else opened
  else if entry.type = .toolResult then opened.filter (· ∉ targets opened entry)
  else if isBoundary entry then []
  else opened

/-- The tools still open after the entries. -/
def openedBy (entries : List ClaudeMessageEntry) : List JsString := entries.foldl openedAfter []

/-- The open tools, and what was last put on each tool since its entry. -/
structure Board where
  opened : List JsString
  shown : JsString → Option ToolResult

def boardStep (b : Board) (entry : ClaudeMessageEntry) : Board where
  opened := openedAfter b.opened entry
  shown id :=
    if entry.type = .tool ∧ id = toolId entry then putBy b.opened entry id
    else (putBy b.opened entry id).or (b.shown id)

def board (entries : List ClaudeMessageEntry) : Board := entries.foldl boardStep ⟨[], fun _ => none⟩

theorem board_opened (entries : List ClaudeMessageEntry) (b : Board) :
    (entries.foldl boardStep b).opened = entries.foldl openedAfter b.opened := by
  induction entries generalizing b with
  | nil => rfl
  | cons e es ih => exact ih (boardStep b e)

/-! ## What the loop emits for one entry -/

theorem toolId_ne_nil (entry : ClaudeMessageEntry) : toolId entry ≠ [] := by
  rw [toolId]
  cases h : truthy entry.toolCallId with
  | none => simp [js, utf16]
  | some id => exact ne_nil_of_truthy h

/-- The events of an entry that is no assistant text. -/
def entryEvents (opened : List JsString) (entry : ClaudeMessageEntry) : List (BufferItem Json) :=
  if entry.type = .toolResult then closePendingTools (targets opened entry) (recordedResult entry).output (recordedResult entry).isError
  else if isBoundary entry then closePendingTools opened noResultText false ++ claudeEntryToEvent entry
  else claudeEntryToEvent entry

variable {opened : List JsString} {id : JsString} {entry : ClaudeMessageEntry} {entries : List ClaudeMessageEntry}

theorem erase_eq_filter (h : opened.Nodup) (id : JsString) : opened.erase id = opened.filter (· ∉ [id]) := by
  rw [h.erase_eq_filter]
  refine filter_congr fun t _ => ?_
  by_cases ht : t = id <;> simp [ht]

theorem filter_self (opened : List JsString) : opened.filter (· ∉ opened) = [] := by
  simp

theorem filter_absent (h : id ∉ opened) : opened.filter (· ∉ [id]) = opened := by
  rw [filter_eq_self]
  intro t ht
  simp only [mem_singleton, decide_eq_true_eq]
  rintro rfl
  exact h ht

theorem toolId_of_explicit (h : truthy entry.toolCallId = some id) : toolId entry = id := by
  rw [toolId, h, getD_some]

theorem toolResult_loop (hn : opened.Nodup) (ht : entry.type = .toolResult) (rest : List ClaudeMessageEntry) :
    replayLoop opened (entry :: rest) = entryEvents opened entry ++ replayLoop (openedAfter opened entry) rest := by
  have hevents : entryEvents opened entry =
      closePendingTools (targets opened entry) (recordedResult entry).output (recordedResult entry).isError := by
    rw [entryEvents, if_pos ht]
  have hopened : openedAfter opened entry = opened.filter (· ∉ targets opened entry) := by
    rw [openedAfter, if_neg (by rw [ht]; decide), if_pos ht]
  have hone : claudeEntryToEvent entry =
      closePendingTools [toolId entry] (recordedResult entry).output (recordedResult entry).isError := by
    simp only [claudeEntryToEvent, ht]
    rfl
  rw [hevents, hopened, replayLoop, ht]
  cases hid : truthy entry.toolCallId with
  | some id =>
    simp only [targets, hid]
    by_cases hmem : id ∈ opened
    · rw [if_pos hmem, if_pos hmem, erase_eq_filter hn]
      rfl
    · rw [if_neg hmem, if_neg hmem]
      by_cases hguess : opened ≠ [] ∧ isGeneratedFallbackToolCallId id = true
      · rw [if_pos hguess, if_pos hguess, filter_self]
        rfl
      · rw [if_neg hguess, if_neg hguess, filter_absent hmem, hone, toolId_of_explicit hid]
  | none =>
    simp only [targets, hid]
    by_cases hne : opened ≠ []
    · rw [if_pos hne, if_pos hne, filter_self]
      rfl
    · rw [if_neg hne, if_neg hne, hone]
      rw [not_not.mp hne]
      rfl

theorem replayLoop_cons (hn : opened.Nodup) (ha : isAssistant entry = false) (rest : List ClaudeMessageEntry) :
    replayLoop opened (entry :: rest) = entryEvents opened entry ++ replayLoop (openedAfter opened entry) rest := by
  cases ht : entry.type with
  | toolResult => exact toolResult_loop hn ht rest
  | assistant => simp [isAssistant, ht] at ha
  | meta_ =>
    by_cases hc : truthy entry.createdAt = none <;> simp [replayLoop, entryEvents, openedAfter, isBoundary, ht, hc]
  | tool => simp [replayLoop, entryEvents, openedAfter, isBoundary, ht]
  | _ => simp [replayLoop, entryEvents, openedAfter, isBoundary, ht]

/-! ## The rows and their ids -/

def IsRowOf (shown : JsString → Option ToolResult) : Block → Message → Prop
  | .user text, m => m.role = some userRole ∧ m.content = .text text ∧ m.toolCall = none ∧ m.toolResult = none
  | .assistant text, m =>
    m.role = some assistantRole ∧ m.toolCall = none ∧ m.toolResult = none ∧
      m.content = .parts (if text = [] then [] else [{ type := .text, text := some text }])
  | .tool id name args, m =>
    m.id = id ∧ m.role = some toolRole ∧ m.toolCall = some ⟨id, name, some args⟩ ∧ m.toolResult = shown id ∧
      m.content = .text ((shown id).elim [] (·.output))

/-- What the ids of the rows are: the tools' are among `T`, and no message has one of `T`. -/
structure Ids (T : JsString → Prop) (s : FoldState Json) : Prop where
  nonempty : ∀ t, T t → t ≠ []
  apart : ∀ t, T t → t ∉ s.usedIds
  tools : ∀ m ∈ s.messages, m.role = some toolRole → T m.id
  distinct : s.messages.Pairwise fun m n => m.role = some toolRole → n.role = some toolRole → m.id ≠ n.id
  others : ∀ m ∈ s.messages, m.role ≠ some toolRole → m.id ∈ s.usedIds
  latest : ∀ k v, s.latestByWireId.get k = some v → k ∈ s.usedIds ∧ v ∈ s.usedIds

/-- The result is put on the tools. -/
def showOn (ids : List JsString) (r : ToolResult) (m : Message) : Message :=
  if m.role = some toolRole ∧ m.id ∈ ids then { m with content := .text r.output, toolResult := some r } else m

@[simp] theorem showOn_id (ids : List JsString) (r : ToolResult) (m : Message) : (showOn ids r m).id = m.id := by
  rw [showOn]
  split <;> rfl

@[simp] theorem showOn_role (ids : List JsString) (r : ToolResult) (m : Message) : (showOn ids r m).role = m.role := by
  rw [showOn]
  split <;> rfl

theorem showOn_of_not_mem {ids : List JsString} {m : Message} (h : m.role = some toolRole → m.id ∉ ids) (r : ToolResult) :
    showOn ids r m = m := by
  rw [showOn, if_neg]
  rintro ⟨hr, hid⟩
  exact h hr hid

theorem showOn_nil (r : ToolResult) (m : Message) : showOn [] r m = m := showOn_of_not_mem (fun _ => by simp) r

theorem showOn_cons (id : JsString) (ids : List JsString) (r : ToolResult) (m : Message) :
    showOn ids r (showOn [id] r m) = showOn (id :: ids) r m := by
  by_cases hr : m.role = some toolRole
  · by_cases h1 : m.id = id
    · by_cases h2 : m.id ∈ ids <;> simp [showOn, hr, h1]
    · simp [showOn, hr, h1]
  · simp [showOn, hr]

theorem Ids.map {T : JsString → Prop} (h : Ids T s) {f : Message → Message}
    (hid : ∀ m, (f m).id = m.id) (hrole : ∀ m, (f m).role = m.role) : Ids T { s with messages := s.messages.map f } := by
  refine ⟨h.nonempty, h.apart, ?_, ?_, ?_, h.latest⟩
  · intro m hm
    obtain ⟨m, hms, rfl⟩ := mem_map.mp hm
    rw [hid, hrole]
    exact h.tools m hms
  · rw [pairwise_map]
    refine h.distinct.imp fun {m n} hmn => ?_
    rw [hid, hid, hrole, hrole]
    exact hmn
  · intro m hm
    obtain ⟨m, hms, rfl⟩ := mem_map.mp hm
    rw [hid, hrole]
    exact h.others m hms

theorem updateAt_eq_map {messages : List Message} {i : Option ℕ} {f g : Message → Message}
    (h : ∀ k m, messages[k]? = some m → (if i = some k then f m else m) = g m) : updateAt messages i f = messages.map g := by
  refine ext_getElem? fun k => ?_
  rw [getElem?_map]
  cases hm : messages[k]? with
  | none =>
    cases i with
    | none => simp [updateAt, hm]
    | some i => rw [updateAt, getElem?_modify, hm]; rfl
  | some m =>
    have hk := h k m hm
    cases i with
    | none => simpa [updateAt, hm] using hk
    | some i =>
      rw [updateAt, getElem?_modify, hm, map_some, ← hk]
      simp

theorem storageIdIndex_some {messages : List Message} {k : ℕ} (h : storageIdIndex messages id = some k) :
    ∃ m, messages[k]? = some m ∧ m.id = id := by
  rw [storageIdIndex, findIdx?_eq_some_iff_getElem] at h
  obtain ⟨hk, hid, -⟩ := h
  exact ⟨messages[k], getElem?_eq_getElem hk, of_decide_eq_true hid⟩

section

variable {T : JsString → Prop} {now : ℕ}

variable {id : JsString} {ids : List JsString} {s' : FoldState Json} {entry : ClaudeMessageEntry}

/-- A row that a tool's result finds is that tool, or a message. -/
theorem findTarget_some (h : Ids T s) (hne : id ≠ []) {k : ℕ} {m : Message}
    (hk : findTarget s (some id) = some k) (hm : s.messages[k]? = some m) (hr : m.role = some toolRole) : m.id = id := by
  have htool := h.tools m (mem_of_getElem? hm) hr
  simp only [findTarget, truthy_of_ne_nil hne, or_eq_some_iff] at hk
  rcases hk with hk | ⟨-, hk⟩
  · obtain ⟨m', hm', hid⟩ := storageIdIndex_some hk
    obtain rfl := some.inj (hm.symm.trans hm')
    unfold lookupId at hid
    cases hg : s.latestByWireId.get id with
    | none => rw [hid, hg, getD_none]
    | some v =>
      rw [hg, getD_some] at hid
      exact absurd (hid ▸ (h.latest id v hg).2) (h.apart _ htool)
  · obtain ⟨m', hm', hid⟩ := storageIdIndex_some hk
    obtain rfl := some.inj (hm.symm.trans hm')
    exact hid

/-- The tool with the id is found. -/
theorem findTarget_tool (h : Ids T s) {k : ℕ} {m : Message} (hm : s.messages[k]? = some m)
    (hr : m.role = some toolRole) : findTarget s (some m.id) = some k := by
  have htool := h.tools m (mem_of_getElem? hm) hr
  have htruthy := truthy_of_ne_nil (h.nonempty _ htool)
  have hlookup : lookupId s m.id = m.id := by
    cases hg : s.latestByWireId.get m.id with
    | none => rw [lookupId, hg, getD_none]
    | some v => exact absurd (h.latest _ v hg).1 (h.apart _ htool)
  obtain ⟨hlt, hget⟩ := List.getElem?_eq_some_iff.mp hm
  have hindex : storageIdIndex s.messages m.id = some k := by
    rw [storageIdIndex, findIdx?_eq_some_iff_getElem]
    refine ⟨hlt, by rw [hget]; simp, fun j hj => ?_⟩
    have hjlt : j < s.messages.length := by omega
    simp only [decide_eq_true_eq]
    intro heq
    have hjmem : s.messages[j] ∈ s.messages := getElem_mem hjlt
    by_cases hjr : s.messages[j].role = some toolRole
    · have := pairwise_iff_getElem.mp h.distinct j k hjlt hlt hj hjr (by rw [hget]; exact hr)
      rw [hget] at this
      exact this heq
    · exact h.apart _ htool (heq ▸ h.others _ hjmem hjr)
  simp only [findTarget, htruthy, hlookup, hindex, some_or]

theorem onToolEnd_result (id text : JsString) (isError : Bool) (m : Message) (hr : m.role = some toolRole) :
    onToolEnd { toolCallId := some id } (.content [some text]) isError m =
      { m with content := .text text, toolResult := some ⟨text, isError⟩ } := by
  have hargs : (m.toolCall.map fun c : ToolCall => { c with args := none <|> c.args }) = m.toolCall := by
    cases m.toolCall <;> rfl
  have htext : extractToolResultText (.content [some text]) = text := by simp [extractToolResultText]
  rw [onToolEnd, if_pos hr, htext]
  simp only [Message.mk.injEq, true_and, and_true]
  exact hargs

variable (now) in
theorem foldStep_toolResult (h : Ids T s) (hne : id ≠ []) (text : JsString) (isError : Bool) :
    foldStep now s (toolResultEvent id text isError) = { s with messages := s.messages.map (showOn [id] ⟨text, isError⟩) } := by
  have hmap : updateAt s.messages (findTarget s (some id)) (onToolEnd { toolCallId := some id } (.content [some text]) isError) =
      s.messages.map (showOn [id] ⟨text, isError⟩) := by
    refine updateAt_eq_map fun k m hm => ?_
    by_cases hr : m.role = some toolRole
    · by_cases hid : m.id = id
      · rw [← hid, findTarget_tool h hm hr, if_pos rfl, onToolEnd_result _ _ _ _ hr]
        simp [showOn, hr]
      · rw [if_neg fun hk => hid (findTarget_some h hne hk hm hr), showOn_of_not_mem (fun _ => by simp [hid])]
    · rw [showOn_of_not_mem fun h => absurd h hr, onToolEnd, if_neg hr, ite_self]
  simp only [toolResultEvent, foldStep, foldEvent]
  exact congrArg (fun ms : List Message => { s with messages := ms }) hmap

theorem foldl_closePendingTools (h : Ids T s) (hne : ∀ id ∈ ids, id ≠ []) (text : JsString) (isError : Bool) :
    (closePendingTools ids text isError).foldl (foldStep now) s =
      { s with messages := s.messages.map (showOn ids ⟨text, isError⟩) } := by
  induction ids generalizing s with
  | nil => simp [closePendingTools, funext (showOn_nil ⟨text, isError⟩)]
  | cons id ids ih =>
    have hstep := foldStep_toolResult now h (hne id (by simp)) text isError
    have hids := h.map (showOn_id [id] ⟨text, isError⟩) (showOn_role [id] ⟨text, isError⟩)
    have hrest := ih hids fun t ht => hne t (by simp [ht])
    simp only [closePendingTools, map_cons, foldl_cons] at hrest ⊢
    rw [hstep, hrest]
    simp only [List.map_map]
    congr 2
    funext m
    exact showOn_cons id ids _ m

/-! ## The rows follow the blocks -/

/-- The rows built so far are those of the blocks so far; `ws` are the messages and `ahead`
    the tools to come. -/
structure Inv (T : JsString → Prop) (ws ahead : List JsString) (b : Board) (done : List Block) (s : FoldState Json) : Prop
    extends Ids T s where
  apart_ahead : ∀ t, T t → t ∉ ws.foldl allocate s.usedIds
  rows : List.Forall₂ (IsRowOf b.shown) done s.messages
  opened : ∀ t ∈ b.opened, ∃ m ∈ s.messages, m.role = some toolRole ∧ m.id = t
  nodup : b.opened.Nodup
  ahead_nodup : ahead.Nodup
  ahead_new : ∀ t ∈ ahead, T t ∧ ∀ m ∈ s.messages, m.role = some toolRole → m.id ≠ t

variable {ws ahead : List JsString} {b : Board} {done : List Block}

theorem Inv.opened_ne_nil (h : Inv T ws ahead b done s) : ∀ t ∈ b.opened, t ≠ [] := by
  intro t ht
  obtain ⟨m, hm, hr, rfl⟩ := h.opened t ht
  exact h.nonempty _ (h.tools m hm hr)

theorem Inv.congr (h : Inv T ws ahead b done s) (hm : s'.messages = s.messages)
    (hu : s'.usedIds = s.usedIds) (hl : s'.latestByWireId = s.latestByWireId) : Inv T ws ahead b done s' where
  nonempty := h.nonempty
  apart := by rw [hu]; exact h.apart
  apart_ahead := by rw [hu]; exact h.apart_ahead
  tools := by rw [hm]; exact h.tools
  distinct := by rw [hm]; exact h.distinct
  others := by rw [hm, hu]; exact h.others
  latest := by rw [hl, hu]; exact h.latest
  rows := by rw [hm]; exact h.rows
  opened := by rw [hm]; exact h.opened
  nodup := h.nodup
  ahead_nodup := h.ahead_nodup
  ahead_new := by rw [hm]; exact h.ahead_new

theorem isRowOf_showOn {shown shown' : JsString → Option ToolResult} {r : ToolResult}
    (hshown : ∀ id, shown' id = if id ∈ ids then some r else shown id) {blk : Block} {m : Message}
    (h : IsRowOf shown blk m) : IsRowOf shown' blk (showOn ids r m) := by
  have hother : m.role ≠ some toolRole → showOn ids r m = m := fun hr => showOn_of_not_mem (fun hr' => absurd hr' hr) r
  cases blk with
  | user text | assistant text =>
    obtain ⟨hrole, h⟩ := h
    rw [hother (by rw [hrole]; decide)]
    exact ⟨hrole, h⟩
  | tool id name args =>
    obtain ⟨rfl, hrole, hcall, hresult, hcontent⟩ := h
    by_cases hmem : m.id ∈ ids
    · simp only [IsRowOf, hshown, hmem, if_true, showOn, hrole, and_self, true_and]
      exact ⟨hcall, rfl⟩
    · rw [showOn_of_not_mem (fun _ => hmem)]
      simp only [IsRowOf, hshown, hmem, if_false]
      exact ⟨trivial, hrole, hcall, hresult, hcontent⟩

/-- A result is put on tools, and some tools are no longer open. -/
theorem Inv.put (h : Inv T ws ahead b done s) {r : ToolResult} {b' : Board}
    (hshown : ∀ id, b'.shown id = if id ∈ ids then some r else b.shown id) (hopened : b'.opened.Sublist b.opened) :
    Inv T ws ahead b' done { s with messages := s.messages.map (showOn ids r) } where
  toIds := h.toIds.map (showOn_id ids r) (showOn_role ids r)
  apart_ahead := h.apart_ahead
  rows := by
    rw [forall₂_map_right_iff]
    exact h.rows.imp fun blk m hm => isRowOf_showOn hshown hm
  opened := by
    intro t ht
    obtain ⟨m, hm, hr, hid⟩ := h.opened t (hopened.subset ht)
    exact ⟨showOn ids r m, mem_map_of_mem hm, by rw [showOn_role, hr], by rw [showOn_id, hid]⟩
  nodup := h.nodup.sublist hopened
  ahead_nodup := h.ahead_nodup
  ahead_new := by
    intro t ht
    refine ⟨(h.ahead_new t ht).1, fun m hm => ?_⟩
    obtain ⟨m, hms, rfl⟩ := mem_map.mp hm
    rw [showOn_id, showOn_role]
    exact (h.ahead_new t ht).2 m hms

theorem mem_allocate {used : List JsString} (ws : List JsString) (h : id ∈ used) : id ∈ ws.foldl allocate used := by
  induction ws generalizing used with
  | nil => exact h
  | cons w ws ih => exact ih (mem_append_left _ h)

/-- The id itself is taken, now at the latest. -/
theorem mem_allocate_self (used : List JsString) (w : JsString) : w ∈ allocate used w := by
  by_cases h : w ∈ used
  · exact mem_append_left _ h
  · have hfirst : firstFree used (storageCandidate w) = w := firstFree_of_free h
    rw [allocate, hfirst]
    simp

/-- A message is started. -/
theorem Inv.message {w : JsString} (h : Inv T (w :: ws) ahead b done s) {row : Message}
    (hrole : row.role ≠ some toolRole) (hid : row.id = storageIdForStart s w) {blk : Block} (hrow : IsRowOf b.shown blk row)
    (hm : s'.messages = s.messages ++ [row]) (hu : s'.usedIds = allocate s.usedIds w)
    (hl : s'.latestByWireId = s.latestByWireId.set w row.id) : Inv T ws ahead b (done ++ [blk]) s' where
  nonempty := h.nonempty
  apart := by
    intro t ht hmem
    rw [hu] at hmem
    exact h.apart_ahead t ht (mem_allocate ws hmem)
  apart_ahead := by
    rw [hu]
    exact h.apart_ahead
  tools := by
    rw [hm]
    intro m hmem hr
    rcases mem_append.mp hmem with hmem | hmem
    · exact h.tools m hmem hr
    · obtain rfl := mem_singleton.mp hmem
      exact absurd hr hrole
  distinct := by
    rw [hm, pairwise_append]
    refine ⟨h.distinct, pairwise_singleton _ _, fun m _ n hn _ hr => ?_⟩
    obtain rfl := mem_singleton.mp hn
    exact absurd hr hrole
  others := by
    rw [hm, hu]
    intro m hmem hr
    rcases mem_append.mp hmem with hmem | hmem
    · exact mem_append_left _ (h.others m hmem hr)
    · obtain rfl := mem_singleton.mp hmem
      rw [hid]
      exact mem_append_right _ (mem_singleton.mpr rfl)
  latest := by
    rw [hl, hu]
    intro k v hk
    by_cases hkw : k = w
    · subst hkw
      rw [JsMap.get_set_same, hid] at hk
      refine ⟨mem_allocate_self _ _, ?_⟩
      rw [← some.inj hk]
      exact mem_append_right _ (mem_singleton.mpr rfl)
    · rw [JsMap.get_set_ne _ _ hkw] at hk
      obtain ⟨hk, hv⟩ := h.latest k v hk
      exact ⟨mem_append_left _ hk, mem_append_left _ hv⟩
  rows := by
    rw [hm]
    exact rel_append h.rows (.cons hrow .nil)
  opened := by
    rw [hm]
    intro t ht
    obtain ⟨m, hmem, hr⟩ := h.opened t ht
    exact ⟨m, mem_append_left _ hmem, hr⟩
  nodup := h.nodup
  ahead_nodup := h.ahead_nodup
  ahead_new := by
    rw [hm]
    intro t ht
    refine ⟨(h.ahead_new t ht).1, fun m hmem hr => ?_⟩
    rcases mem_append.mp hmem with hmem | hmem
    · exact (h.ahead_new t ht).2 m hmem hr
    · obtain rfl := mem_singleton.mp hmem
      exact absurd hr hrole

/-- A tool is started: it is open, and nothing is shown on it yet. -/
theorem Inv.tool {t name : JsString} {args : Json} (h : Inv T ws (t :: ahead) b done s) {row : Message}
    (hrow : IsRowOf (fun _ => none) (.tool t name args) row) (hm : s'.messages = s.messages ++ [row])
    (hu : s'.usedIds = s.usedIds) (hl : s'.latestByWireId = s.latestByWireId) :
    Inv T ws ahead ⟨b.opened ++ [t], fun id => if id = t then none else b.shown id⟩ (done ++ [.tool t name args]) s' := by
  obtain ⟨hid, hrole, hcall, hresult, hcontent⟩ := hrow
  obtain ⟨hT, hnew⟩ := h.ahead_new t (by simp)
  have hahead := nodup_cons.mp h.ahead_nodup
  constructor
  · constructor
    · exact h.nonempty
    · rw [hu]
      exact h.apart
    · rw [hm]
      intro m hmem hr
      rcases mem_append.mp hmem with hmem | hmem
      · exact h.tools m hmem hr
      · obtain rfl := mem_singleton.mp hmem
        rw [hid]
        exact hT
    · rw [hm, pairwise_append]
      refine ⟨h.distinct, pairwise_singleton _ _, fun m hmem n hn hr _ => ?_⟩
      obtain rfl := mem_singleton.mp hn
      rw [hid]
      exact hnew m hmem hr
    · rw [hm, hu]
      intro m hmem hr
      rcases mem_append.mp hmem with hmem | hmem
      · exact h.others m hmem hr
      · obtain rfl := mem_singleton.mp hmem
        exact absurd hrole hr
    · rw [hl, hu]
      exact h.latest
  · rw [hu]
    exact h.apart_ahead
  · rw [hm]
    refine rel_append ?_ (.cons ⟨hid, hrole, hcall, ?_, ?_⟩ .nil)
    · refine forall₂_iff_get.mpr ⟨h.rows.length_eq, fun i hi hj => ?_⟩
      have hrow := h.rows.get hi hj
      have hne := hnew _ (get_mem s.messages ⟨i, hj⟩)
      cases hblk : done.get ⟨i, hi⟩ with
      | user text | assistant text => rw [hblk] at hrow; exact hrow
      | tool id name args =>
        rw [hblk] at hrow
        obtain ⟨rfl, hr, hrest⟩ := hrow
        refine ⟨rfl, hr, ?_⟩
        simp only [if_neg (hne hr)]
        exact hrest
    · simpa using hresult
    · simpa using hcontent
  · rw [hm]
    intro u hu'
    rcases mem_append.mp hu' with hu' | hu'
    · obtain ⟨m, hmem, hr⟩ := h.opened u hu'
      exact ⟨m, mem_append_left _ hmem, hr⟩
    · obtain rfl := mem_singleton.mp hu'
      exact ⟨row, by simp, hrole, hid⟩
  · refine nodup_append.mpr ⟨h.nodup, nodup_singleton _, fun u hu' v hv => ?_⟩
    obtain rfl := mem_singleton.mp hv
    obtain ⟨m, hmem, hr, rfl⟩ := h.opened u hu'
    exact hnew m hmem hr
  · exact hahead.2
  · rw [hm]
    intro u hu'
    refine ⟨(h.ahead_new u (by simp [hu'])).1, fun m hmem hr => ?_⟩
    rcases mem_append.mp hmem with hmem | hmem
    · exact (h.ahead_new u (by simp [hu'])).2 m hmem hr
    · obtain rfl := mem_singleton.mp hmem
      rw [hid]
      rintro rfl
      exact hahead.1 hu'

/-! ## One entry -/

theorem targets_ne_nil (h : Inv T ws ahead b done s) (entry : ClaudeMessageEntry) : ∀ id ∈ targets b.opened entry, id ≠ [] := by
  have hopened := h.opened_ne_nil
  have hid := toolId_ne_nil entry
  intro id hmem
  rw [targets] at hmem
  cases he : truthy entry.toolCallId with
  | some explicit =>
    rw [toolId_of_explicit he] at hid
    simp only [he] at hmem
    split_ifs at hmem
    · rw [mem_singleton.mp hmem]; exact hid
    · exact hopened id hmem
    · rw [mem_singleton.mp hmem]; exact hid
  | none =>
    simp only [he] at hmem
    split_ifs at hmem
    · exact hopened id hmem
    · rw [mem_singleton.mp hmem]; exact hid

theorem toolResult_inv (h : Inv T ws ahead b done s) (ht : entry.type = .toolResult) :
    Inv T ws ahead (boardStep b entry) done ((entryEvents b.opened entry).foldl (foldStep now) s) := by
  have hevents : entryEvents b.opened entry =
      closePendingTools (targets b.opened entry) (recordedResult entry).output (recordedResult entry).isError := by
    rw [entryEvents, if_pos ht]
  rw [hevents, foldl_closePendingTools h.toIds (targets_ne_nil h entry)]
  refine h.put ?_ ?_
  · intro id
    simp only [boardStep, putBy, ht, reduceCtorEq, false_and, if_false, if_true]
    split <;> rfl
  · simp only [boardStep, openedAfter, ht, reduceCtorEq, if_false, if_true]
    exact filter_sublist

variable (now) in
/-- What ends the open tools puts the placeholder on them. -/
theorem boundary_inv (h : Inv T ws ahead b done s) (hb : isBoundary entry) :
    Inv T ws ahead (boardStep b entry) done ((closePendingTools b.opened noResultText false).foldl (foldStep now) s) := by
  have htool : entry.type ≠ .tool := by
    intro ht
    simp [isBoundary, ht] at hb
  have hresult : entry.type ≠ .toolResult := by
    intro ht
    simp [isBoundary, ht] at hb
  rw [foldl_closePendingTools h.toIds (h.opened_ne_nil)]
  refine h.put ?_ ?_
  · intro id
    simp only [boardStep, putBy, htool, hresult, hb, false_and, true_and, if_false]
    split <;> rfl
  · simp only [boardStep, openedAfter, htool, hresult, hb, if_false, if_true]
    exact nil_sublist _

/-- An entry that is none of these changes no result. -/
theorem boardStep_other (ht : entry.type ≠ .tool) (hr : entry.type ≠ .toolResult)
    (hb : isBoundary entry = false) (b : Board) : boardStep b entry = b := by
  simp [boardStep, openedAfter, putBy, ht, hr, hb]

theorem foldl_user (ht : entry.type = .user) (s : FoldState Json) : ((claudeEntryToEvent entry).foldl (foldStep now) s) = { s with
        messages := s.messages ++ [{
          id := storageIdForStart s (userId entry)
          role := some userRole
          content := .text (entry.content.getD [])
          timestamp := now }]
        activeMessageId := none
        usedIds := s.usedIds ++ [storageIdForStart s (userId entry)]
        latestByWireId := s.latestByWireId.set (userId entry) (storageIdForStart s (userId entry)) } := by
  have hne : truthy (some (userId entry)) = some (userId entry) := by
    simp [truthy, userId, js, utf16]
  simp only [claudeEntryToEvent, ht, foldl_cons, foldl_nil, foldStep, foldEvent, hne, getD_some,
    WireMessage.initialContent]

theorem orEmptyObject_ne_null (v : Option Json) : orEmptyObject v ≠ .null := by
  unfold orEmptyObject
  split
  all_goals (try split) <;> simp_all

theorem foldl_toolStart (now : ℕ) (entry : ClaudeMessageEntry) (s : FoldState Json) : foldStep now s (.event (.toolStart {
      toolCallId := some (toolId entry)
      toolName := some ((truthy entry.toolName).getD (js "unknown"))
      args := some (orEmptyObject entry.toolInput) })) =
      { s with
        messages := s.messages ++ [{
          id := toolId entry
          role := some toolRole
          content := .text []
          timestamp := now
          toolCall := some ⟨toolId entry, (truthy entry.toolName).getD (js "unknown"), some (orEmptyObject entry.toolInput)⟩ }] } := by
  have hid := truthy_of_ne_nil (toolId_ne_nil entry)
  have hname : truthy (some ((truthy entry.toolName).getD (js "unknown"))) =
      some ((truthy entry.toolName).getD (js "unknown")) := by
    refine truthy_of_ne_nil ?_
    cases h : truthy entry.toolName with
    | none => simp [js, utf16]
    | some name => exact ne_nil_of_truthy h
  have hargs := nullish_of_ne_null (orEmptyObject_ne_null entry.toolInput) none
  simp only [foldStep, foldEvent, ToolFields.callId, ToolFields.callName, ToolFields.callArgs, orElse_eq_orElse,
    orElse_eq_or, some_or, hid, hname, hargs, getD_some]

theorem blocks_cons (ha : isAssistant entry = false) (rest : List ClaudeMessageEntry) :
    blocks (entry :: rest) = blocks [entry] ++ blocks rest := by
  cases ht : entry.type with
  | assistant => simp [isAssistant, ht] at ha
  | _ => simp [blocks, ht]

/-- An entry that is no message and no tool tells no block. -/
theorem rowless_entry (h : entry.type = .toolResult ∨ entry.type = .meta_ ∨ entry.type = .error) (rest : List ClaudeMessageEntry) :
    toolIds (entry :: rest) = toolIds rest ∧ wireIds (entry :: rest) = wireIds rest ∧ blocks [entry] = [] := by
  rcases h with ht | ht | ht <;> simp [toolIds, wireIds, blocks, ht]

variable (now) in
theorem entry_inv (ha : isAssistant entry = false) {rest : List ClaudeMessageEntry}
    (h : Inv T (wireIds (entry :: rest)) (toolIds (entry :: rest)) b done s) :
    Inv T (wireIds rest) (toolIds rest) (boardStep b entry) (done ++ blocks [entry])
      ((entryEvents b.opened entry).foldl (foldStep now) s) := by
  cases ht : entry.type with
  | assistant => simp [isAssistant, ht] at ha
  | toolResult =>
    obtain ⟨hids, hws, hblocks⟩ := rowless_entry (.inl ht) rest
    rw [hids, hws] at h
    rw [hblocks, append_nil]
    exact toolResult_inv h ht
  | meta_ =>
    obtain ⟨hids, hws, hblocks⟩ := rowless_entry (.inr (.inl ht)) rest
    rw [hids, hws] at h
    rw [hblocks, append_nil]
    cases hb : isBoundary entry with
    | true =>
      have hinv := boundary_inv now h hb
      simp only [entryEvents, ht, reduceCtorEq, if_false, hb, if_true, foldl_append, claudeEntryToEvent]
      exact hinv.congr rfl rfl rfl
    | false =>
      rw [boardStep_other (by rw [ht]; decide) (by rw [ht]; decide) hb]
      simp only [entryEvents, ht, reduceCtorEq, if_false, hb, Bool.false_eq_true, claudeEntryToEvent]
      exact h.congr rfl rfl rfl
  | error =>
    obtain ⟨hids, hws, hblocks⟩ := rowless_entry (.inr (.inr ht)) rest
    have hb : isBoundary entry = false := by simp [isBoundary, ht]
    rw [hids, hws] at h
    rw [hblocks, append_nil, boardStep_other (by rw [ht]; decide) (by rw [ht]; decide) hb]
    simp only [entryEvents, ht, reduceCtorEq, if_false, hb, Bool.false_eq_true, claudeEntryToEvent]
    exact h.congr rfl rfl rfl
  | user =>
    have hids : toolIds (entry :: rest) = toolIds rest := by simp [toolIds, ht]
    have hws : wireIds (entry :: rest) = userId entry :: wireIds rest := by simp [wireIds, ht]
    have hblocks : blocks [entry] = [.user (entry.content.getD [])] := by simp [blocks, ht]
    have hb : isBoundary entry = false := by simp [isBoundary, ht]
    have hevents : entryEvents b.opened entry = claudeEntryToEvent entry := by simp [entryEvents, ht, hb]
    rw [hids, hws] at h
    rw [hblocks, boardStep_other (by rw [ht]; decide) (by rw [ht]; decide) hb, hevents, foldl_user ht]
    refine h.message ?_ rfl ?_ rfl rfl rfl
    · show some userRole ≠ some toolRole
      decide
    · exact ⟨rfl, rfl, rfl, rfl⟩
  | tool =>
    have hids : toolIds (entry :: rest) = toolId entry :: toolIds rest := by simp [toolIds, ht]
    have hws : wireIds (entry :: rest) = wireIds rest := by simp [wireIds, ht]
    have hblocks : blocks [entry] = [toolBlock entry] := by simp [blocks, ht]
    have hb : isBoundary entry = false := by simp [isBoundary, ht]
    have hevents : entryEvents b.opened entry = claudeEntryToEvent entry := by simp [entryEvents, ht, hb]
    rw [hids, hws] at h
    rw [hblocks, hevents]
    have hadded := congrArg FoldState.messages (foldl_toolStart now entry s)
    have hstart := h.tool ⟨rfl, rfl, rfl, rfl, rfl⟩ hadded rfl rfl
    cases ho : entry.toolOutput with
    | none =>
      have hboard : boardStep b entry =
          ⟨b.opened ++ [toolId entry], fun id => if id = toolId entry then none else b.shown id⟩ := by
        simp only [boardStep, openedAfter, putBy, ht, ho, if_true, true_and, ne_eq, not_true, and_false, if_false,
          none_or]
      rw [hboard]
      simp only [claudeEntryToEvent, ht, ho, foldl_cons, foldl_nil]
      exact hstart
    | some output =>
      have hput := foldStep_toolResult now hstart.toIds (toolId_ne_nil entry) output (entry.isError.getD false)
      simp only [claudeEntryToEvent, ht, ho, foldl_cons, foldl_nil]
      rw [hput]
      refine hstart.put ?_ ?_
      · intro id
        simp only [boardStep, putBy, ht, ho, true_and, ne_eq, reduceCtorEq, not_false_eq_true, and_true, if_true,
          mem_singleton, recordedResult, getD_some]
        split <;> simp
      · simp only [boardStep, openedAfter, ht, ho, if_true, reduceCtorEq, if_false]
        exact sublist_append_left _ _

/-! ## A run of assistant entries -/

/-- The row of a run, once its text is there. -/
def runRow (now : ℕ) (s : FoldState Json) (msgId text : JsString) : Message where
  id := storageIdForStart s msgId
  role := some assistantRole
  content := .parts (if text = [] then [] else [{ type := .text, text := some text }])
  timestamp := now

/-- The started row is the first with its id. -/
theorem storageIdIndex_started (h : Ids T s) {w : JsString} (hw : ∀ t, T t → t ∉ allocate s.usedIds w) {row : Message}
    (hid : row.id = storageIdForStart s w) : storageIdIndex (s.messages ++ [row]) row.id = some s.messages.length := by
  rw [storageIdIndex, findIdx?_append]
  have hnone : s.messages.findIdx? (fun m => decide (m.id = row.id)) = none := by
    rw [findIdx?_eq_none_iff]
    intro m hm
    simp only [decide_eq_false_iff_not]
    intro heq
    by_cases hr : m.role = some toolRole
    · refine hw _ (h.tools m hm hr) ?_
      rw [heq, hid]
      exact mem_append_right _ (mem_singleton.mpr rfl)
    · refine firstFree_free s.usedIds (storageCandidate_injective w) ?_
      have := h.others m hm hr
      rw [heq, hid] at this
      exact this
  rw [hnone]
  simp

variable (now) in
theorem foldStep_delta (hid : truthy (some id) = some id) {k : ℕ} (hk : findTarget s (some id) = some k)
    (e : Option AssistantEvent) :
    foldStep now s (.event (.messageUpdate (some id) e)) = { s with messages := updateAt s.messages (some k) (onDelta e) } := by
  have htarget : ((truthy (some id)) <|> s.activeMessageId) = some id := by
    rw [hid]
    rfl
  simp only [foldStep, foldEvent, htarget, hk]

theorem foldl_assistant (h : Ids T s) {msgId : JsString} (hne : msgId ≠ [])
    (hw : ∀ t, T t → t ∉ allocate s.usedIds msgId) (text : JsString) : (assistantEvents msgId text).foldl (foldStep now) s =
      { s with
        messages := s.messages ++ [runRow now s msgId text]
        activeMessageId := none
        usedIds := s.usedIds ++ [storageIdForStart s msgId]
        latestByWireId := s.latestByWireId.set msgId (storageIdForStart s msgId) } := by
  have hid := truthy_of_ne_nil hne
  by_cases htext : text = []
  · simp only [assistantEvents, htext, if_true, append_nil, singleton_append, foldl_cons, foldl_nil, foldStep,
      foldEvent, hid, getD_some, WireMessage.initialContent, getD_none, runRow]
    rfl
  · have hfind : findTarget (foldStep now s (.event (.messageStart { id := some msgId, role := some assistantRole })))
        (some msgId) = some s.messages.length := by
      simp only [findTarget, foldStep, foldEvent, lookupId, hid, getD_some, JsMap.get_set_same]
      rw [storageIdIndex_started h hw rfl, some_or]
    simp only [assistantEvents, htext, if_false, foldl_cons, foldl_nil, List.cons_append, nil_append]
    have hupdate := foldStep_delta now hid hfind (some ⟨.textDelta, some text⟩)
    rw [hupdate]
    simp only [foldStep, foldEvent, hid, getD_some, updateAt_last, runRow, htext, if_false]
    rfl

theorem isBoundary_of_assistant (ha : isAssistant entry = true) : isBoundary entry = true := by
  have ht := of_decide_eq_true ha
  simp [isBoundary, ht]

variable (now) in
theorem run_inv (h : Inv T (asstId entry :: ws) ahead b done s) (ha : isAssistant entry = true) (text : JsString) :
    Inv T ws ahead (boardStep b entry) (done ++ [.assistant text])
      ((closePendingTools b.opened noResultText false ++ assistantEvents (asstId entry) text).foldl (foldStep now) s) := by
  have hclosed := boundary_inv now h (isBoundary_of_assistant ha)
  have hfresh : ∀ t, T t → t ∉ allocate ((closePendingTools b.opened noResultText false).foldl (foldStep now) s).usedIds (asstId entry) :=
    fun t ht hmem => hclosed.apart_ahead t ht (mem_allocate ws hmem)
  rw [foldl_append, foldl_assistant hclosed.toIds (by simp [asstId, js, utf16]) hfresh]
  refine hclosed.message ?_ rfl ?_ rfl rfl rfl
  · show some assistantRole ≠ some toolRole
    decide
  · exact ⟨rfl, rfl, rfl, rfl⟩

theorem opened_after_assistant (ha : isAssistant entry = true) (b : Board) : (boardStep b entry).opened = [] := by
  have ht := of_decide_eq_true ha
  simp [boardStep, openedAfter, ht, isBoundary_of_assistant ha]

/-- With no tool open, more assistant text changes no result. -/
theorem foldl_boardStep_run {run : List ClaudeMessageEntry} (hrun : ∀ e ∈ run, isAssistant e = true) {b : Board}
    (hb : b.opened = []) : run.foldl boardStep b = b := by
  induction run with
  | nil => rfl
  | cons e run ih =>
    have ha := hrun e (by simp)
    have ht := of_decide_eq_true ha
    have hstep : boardStep b e = b := by
      obtain ⟨opened, shown⟩ := b
      subst hb
      simp [boardStep, openedAfter, putBy, ht, isBoundary_of_assistant ha]
    rw [foldl_cons, hstep]
    exact ih fun e' he' => hrun e' (by simp [he'])

theorem toolIds_dropWhile (rest : List ClaudeMessageEntry) : toolIds (rest.dropWhile isAssistant) = toolIds rest := by
  induction rest with
  | nil => rfl
  | cons e rest ih =>
    cases ha : isAssistant e with
    | true =>
      have ht := of_decide_eq_true ha
      rw [dropWhile_cons_of_pos ha, ih]
      simp [toolIds, ht]
    | false => rw [dropWhile_cons_of_neg (by simp [ha])]

theorem loop_cons {rest : List ClaudeMessageEntry} (ha : isAssistant entry = false)
    (h : Inv T (wireIds (entry :: rest)) (toolIds (entry :: rest)) b done s)
    (ih : ∀ {b : Board} {done : List Block} {s : FoldState Json}, Inv T (wireIds rest) (toolIds rest) b done s →
      Inv T [] [] (rest.foldl boardStep b) (done ++ blocks rest) ((replayLoop b.opened rest).foldl (foldStep now) s)) :
    Inv T [] [] ((entry :: rest).foldl boardStep b) (done ++ blocks (entry :: rest))
      ((replayLoop b.opened (entry :: rest)).foldl (foldStep now) s) := by
  have hentry := entry_inv now ha h
  rw [blocks_cons ha, replayLoop_cons h.nodup ha, foldl_append, ← append_assoc]
  exact ih hentry

variable (now) in
theorem loop_inv {entries : List ClaudeMessageEntry} (h : Inv T (wireIds entries) (toolIds entries) b done s) :
    Inv T [] [] (entries.foldl boardStep b) (done ++ blocks entries) ((replayLoop b.opened entries).foldl (foldStep now) s) := by
  induction entries using blocks.induct generalizing b done s with
  | case1 =>
    rw [blocks, replayLoop, append_nil]
    simpa [wireIds, toolIds] using h
  | case2 entry rest ht ih =>
    have ha : isAssistant entry = true := decide_eq_true ht
    have hids : toolIds (entry :: rest) = toolIds (rest.dropWhile isAssistant) := by
      rw [toolIds_dropWhile]
      simp [toolIds, ht]
    have hws : wireIds (entry :: rest) = asstId entry :: wireIds (rest.dropWhile isAssistant) := by
      simp [wireIds, ht]
    rw [hids, hws] at h
    have hrun := run_inv now h ha (coalescedText (entry :: rest.takeWhile isAssistant))
    have hboard : (entry :: rest).foldl boardStep b = (rest.dropWhile isAssistant).foldl boardStep (boardStep b entry) := by
      have hsplit : rest.foldl boardStep (boardStep b entry) =
          (rest.takeWhile isAssistant ++ rest.dropWhile isAssistant).foldl boardStep (boardStep b entry) := by
        rw [takeWhile_append_dropWhile]
      rw [foldl_cons, hsplit, foldl_append,
        foldl_boardStep_run (fun e he => mem_takeWhile_imp he) (opened_after_assistant ha b)]
    have hblocks : blocks (entry :: rest) =
        [.assistant (coalescedText (entry :: rest.takeWhile isAssistant))] ++ blocks (rest.dropWhile isAssistant) := by
      rw [blocks, ht]
      rfl
    have hloop : replayLoop b.opened (entry :: rest) =
        (closePendingTools b.opened noResultText false ++
          assistantEvents (asstId entry) (coalescedText (entry :: rest.takeWhile isAssistant))) ++
        replayLoop (boardStep b entry).opened (rest.dropWhile isAssistant) := by
      rw [replayLoop, ht, opened_after_assistant ha]
    rw [hboard, hblocks, hloop, foldl_append, ← append_assoc]
    exact ih hrun
  | case3 entry rest ht ih | case4 entry rest ht ih => exact loop_cons (by simp [isAssistant, ht]) h ih
  | case5 entry rest hna hnu hnt ih => exact loop_cons (decide_eq_false hna) h ih

end

/-! ## What was put last is shown -/

theorem mem_toolIds_append (xs ys : List ClaudeMessageEntry) : id ∈ toolIds (xs ++ ys) ↔ id ∈ toolIds xs ∨ id ∈ toolIds ys := by
  simp [toolIds]

/-- A block for each tool entry. -/
theorem mem_toolIds_iff : id ∈ toolIds entries ↔ ∃ name args, Block.tool id name args ∈ blocks entries := by
  induction entries using blocks.induct with
  | case1 => simp [toolIds, blocks]
  | case2 entry rest ht ih =>
    have hids : toolIds (entry :: rest) = toolIds (rest.dropWhile isAssistant) := by
      rw [toolIds_dropWhile]
      simp [toolIds, ht]
    rw [hids, ih, blocks, ht]
    simp
  | case3 entry rest ht ih =>
    have hids : toolIds (entry :: rest) = toolIds rest := by simp [toolIds, ht]
    rw [hids, ih, blocks, ht]
    simp
  | case4 entry rest ht ih =>
    have hids : toolIds (entry :: rest) = toolId entry :: toolIds rest := by simp [toolIds, ht]
    rw [hids, mem_cons, ih, blocks, ht]
    simp only [toolBlock, mem_cons, Block.tool.injEq]
    constructor
    · rintro (rfl | ⟨name, args, hmem⟩)
      · exact ⟨_, _, .inl ⟨rfl, rfl, rfl⟩⟩
      · exact ⟨name, args, .inr hmem⟩
    · rintro ⟨name, args, ⟨rfl, -, -⟩ | hmem⟩
      · exact .inl rfl
      · exact .inr ⟨name, args, hmem⟩
  | case5 entry rest hna hnu hnt ih =>
    have hids : toolIds (entry :: rest) = toolIds rest := by
      rw [toolIds, filter_cons_of_neg (by simpa using hnt), toolIds]
    rw [hids, ih]
    cases ht : entry.type <;> simp_all [blocks]

theorem shown_kept {post : List ClaudeMessageEntry} (hid : id ∉ toolIds post) {b : Board}
    (h : Run.Along openedAfter (fun opened f => putBy opened f id = none) b.opened post) :
    (post.foldl boardStep b).shown id = b.shown id := by
  induction post generalizing b with
  | nil => rfl
  | cons e post ih =>
    have hsplit := (mem_toolIds_append [e] post).not.mp hid
    simp only [not_or] at hsplit
    have hstep : (boardStep b e).shown id = b.shown id := by
      have hnot : ¬ (e.type = .tool ∧ id = toolId e) := by
        rintro ⟨ht, rfl⟩
        exact hsplit.1 (by simp [toolIds, ht])
      simp only [boardStep, if_neg hnot, h.1, none_or]
    rw [foldl_cons, ih hsplit.2 h.2, hstep]

theorem board_append (pre : List ClaudeMessageEntry) (e : ClaudeMessageEntry) : board (pre ++ [e]) = boardStep (board pre) e := by
  rw [board, foldl_append]
  rfl

theorem opened_board (entries : List ClaudeMessageEntry) : (board entries).opened = openedBy entries :=
  board_opened entries _

theorem put_of_shown {r : ToolResult} (hid : id ∈ toolIds entries) (h : (board entries).shown id = some r) :
    ∃ pre e post, entries = pre ++ e :: post ∧ id ∈ toolIds (pre ++ [e]) ∧ putBy (openedBy pre) e id = some r := by
  induction entries using List.reverseRecOn with
  | nil => simp [toolIds] at hid
  | append_singleton pre e ih =>
    rw [board_append] at h
    simp only [boardStep, opened_board] at h
    by_cases hput : putBy (openedBy pre) e id = some r
    · exact ⟨pre, e, [], by simp, hid, hput⟩
    · have hnot : ¬ (e.type = .tool ∧ id = toolId e) := by
        intro hown
        rw [if_pos hown] at h
        exact hput h
      rw [if_neg hnot] at h
      have hpre : id ∈ toolIds pre := by
        refine ((mem_toolIds_append pre [e]).mp hid).resolve_right fun hown => ?_
        by_cases ht : e.type = .tool
        · exact hnot ⟨ht, by simpa [toolIds, ht] using hown⟩
        · simp [toolIds, ht] at hown
      rcases or_eq_some_iff.mp h with h | ⟨-, h⟩
      · exact absurd h hput
      · obtain ⟨pre', e', post, hsplit, hmem, hput'⟩ := ih hpre h
        exact ⟨pre', e', post ++ [e], by rw [hsplit]; simp, hmem, hput'⟩

theorem shown_of_put {pre : List ClaudeMessageEntry} {e : ClaudeMessageEntry} {post : List ClaudeMessageEntry}
    {r : ToolResult} (hput : putBy (openedBy pre) e id = some r) (hid : id ∉ toolIds post)
    (h : Run.Along openedAfter (fun opened f => putBy opened f id = none) (openedBy (pre ++ [e])) post) :
    (board (pre ++ e :: post)).shown id = some r := by
  have hboard : board (pre ++ e :: post) = post.foldl boardStep (board (pre ++ [e])) := by
    simp [board]
  rw [← opened_board] at h
  rw [hboard, shown_kept hid h, board_append]
  simp only [boardStep, opened_board, hput, some_or, ite_self]

/-! ## The replay -/

/-- Tool ids are distinct, and none is the id of a message. -/
structure ToolIdsApart (entries : List ClaudeMessageEntry) : Prop where
  distinct : (toolIds entries).Nodup
  apart : ∀ t ∈ toolIds entries, t ∉ messageIds entries

theorem rows_of_blocks (now : ℕ) (h : ToolIdsApart entries) : List.Forall₂ (IsRowOf (board entries).shown) (blocks entries)
      (foldEvents now (historyToReplayEvents entries) []).messages := by
  have hstart : Inv (· ∈ toolIds entries) (wireIds entries) (toolIds entries) ⟨[], fun _ => none⟩ [] (.start []) := {
    nonempty := by
      intro t ht
      obtain ⟨e, -, rfl⟩ := mem_map.mp ht
      exact toolId_ne_nil e
    apart := fun _ _ => not_mem_nil
    tools := fun _ hm => absurd hm not_mem_nil
    distinct := .nil
    others := fun _ hm => absurd hm not_mem_nil
    latest := nofun
    apart_ahead := h.apart
    rows := .nil
    opened := fun _ ht => absurd ht not_mem_nil
    nodup := nodup_nil
    ahead_nodup := h.distinct
    ahead_new := fun t ht => ⟨ht, fun _ hm => absurd hm not_mem_nil⟩ }
  have hend := (loop_inv now hstart).rows
  rwa [nil_append] at hend

/-- The result of an entry that names its tool goes on that tool only. -/
theorem putBy_named {e : ClaudeMessageEntry} (ht : e.type = .toolResult) (hid : truthy e.toolCallId = some id)
    (hnamed : id ∈ opened ∨ opened = [] ∨ isGeneratedFallbackToolCallId id = false) (t : JsString) :
    putBy opened e t = if t = id then some (recordedResult e) else none := by
  have htargets : targets opened e = [id] := by
    rw [targets, hid]
    simp only
    by_cases hmem : id ∈ opened
    · rw [if_pos hmem]
    · rw [if_neg hmem, if_neg]
      rintro ⟨hne, hgen⟩
      rcases hnamed with h | h | h
      · exact hmem h
      · exact hne h
      · rw [h] at hgen
        cases hgen
  simp only [putBy, ht, reduceCtorEq, if_false, if_true, htargets, mem_singleton]

/-- One row for each block, in order; a result that names its tool is put on it and on no
    other, and shown unless a later entry puts something there; what a tool shows, an entry
    put on it. -/
theorem replay_faithful (now : ℕ) {entries : List ClaudeMessageEntry} (h : ToolIdsApart entries) :
    List.Forall₂ (IsRowOf (board entries).shown) (blocks entries) (foldEvents now (historyToReplayEvents entries) []).messages ∧
    (∀ pre e post, entries = pre ++ e :: post → e.type = .toolResult → ∀ id, truthy e.toolCallId = some id →
      id ∈ openedBy pre ∨ openedBy pre = [] ∨ isGeneratedFallbackToolCallId id = false →
      (∀ t, t ≠ id → putBy (openedBy pre) e t = none) ∧
      (id ∈ toolIds pre → Run.Along openedAfter (fun opened f => putBy opened f id = none) (openedBy (pre ++ [e])) post →
        ∃ m ∈ (foldEvents now (historyToReplayEvents entries) []).messages,
          m.role = some toolRole ∧ m.id = id ∧ m.toolResult = some (recordedResult e))) ∧
    ∀ m ∈ (foldEvents now (historyToReplayEvents entries) []).messages, ∀ r, m.toolResult = some r →
      ∃ pre e post, entries = pre ++ e :: post ∧ m.id ∈ toolIds (pre ++ [e]) ∧ putBy (openedBy pre) e m.id = some r := by
  have hrows := rows_of_blocks now h
  refine ⟨hrows, ?_, ?_⟩
  · intro pre e post hsplit ht id hid hnamed
    have hput := putBy_named ht hid hnamed
    refine ⟨fun t ht => by rw [hput, if_neg ht], fun hmem hlater => ?_⟩
    have hnot : id ∉ toolIds post := by
      have hnodup := h.distinct
      rw [hsplit] at hnodup
      simp only [toolIds, filter_append, map_append, nodup_append] at hnodup
      intro hpost
      refine hnodup.2.2 id hmem id ?_ rfl
      simpa [toolIds, ht] using hpost
    have hshown : (board entries).shown id = some (recordedResult e) := by
      rw [hsplit]
      exact shown_of_put (by rw [hput, if_pos rfl]) hnot hlater
    have hid' : id ∈ toolIds entries := by
      rw [hsplit, mem_toolIds_append]
      exact .inl hmem
    obtain ⟨name, args, hblock⟩ := mem_toolIds_iff.mp hid'
    obtain ⟨i, hi, hget⟩ := getElem_of_mem hblock
    have hlen := hrows.length_eq
    have hrow := hrows.get hi (by omega)
    simp only [get_eq_getElem, hget] at hrow
    obtain ⟨hrid, hrole, -, hresult, -⟩ := hrow
    exact ⟨_, getElem_mem _, hrole, hrid, hresult.trans hshown⟩
  · intro m hm r hr
    obtain ⟨i, hi, rfl⟩ := getElem_of_mem hm
    have hlen := hrows.length_eq
    have hi' : i < (blocks entries).length := by omega
    have hrow := hrows.get hi' hi
    simp only [get_eq_getElem] at hrow
    cases hblock : (blocks entries)[i] with
    | user text =>
      rw [hblock] at hrow
      rw [hrow.2.2.2] at hr
      cases hr
    | assistant text =>
      rw [hblock] at hrow
      rw [hrow.2.2.1] at hr
      cases hr
    | tool id name args =>
      rw [hblock] at hrow
      obtain ⟨hid, -, -, hresult, -⟩ := hrow
      have hmem : id ∈ toolIds entries := mem_toolIds_iff.mpr ⟨name, args, hblock ▸ getElem_mem _⟩
      rw [hid]
      exact put_of_shown hmem (hresult.symm.trans hr)

def oneTool : List ClaudeMessageEntry :=
  [{ type := .user, content := some (js "run it"), timestamp := .fin 5 },
    { type := .tool, toolCallId := some (js "toolu_1"), toolName := some (js "Bash"), timestamp := .fin 5 },
    { type := .toolResult, toolCallId := some (js "toolu_1"), toolOutput := some (js "ok"), timestamp := .fin 6 },
    { type := .assistant, content := some (js "done"), timestamp := .fin 7 }]

theorem the_result_of_one_tool : ∃ m ∈ (foldEvents 0 (historyToReplayEvents oneTool) []).messages,
      m.role = some toolRole ∧ m.id = js "toolu_1" ∧ m.toolResult = some ⟨js "ok", false⟩ := by
  have hapart : ToolIdsApart oneTool := by
    refine ⟨by decide +kernel, ?_⟩
    simp only [messageIds, oneTool, wireIds, List.dropWhile, foldl_cons, foldl_nil]
    decide +kernel
  exact ((replay_faithful 0 hapart).2.1 [_, _] _ [_] rfl rfl (js "toolu_1") rfl (.inl (by decide +kernel))).2
    (by decide +kernel) (by decide +kernel)

/-- A result with a generated id is shown on the open tool, one that comes before its tool
    is not shown, nor is one whose tool has the id of a message's copy. -/
theorem a_guessed_result : ((foldEvents 0 (historyToReplayEvents
        [{ type := .tool, toolCallId := some (js "toolu_1"), timestamp := .fin 1 },
          { type := .toolResult, toolCallId := some (js "tc_s_2"), toolOutput := some (js "x"), timestamp := .fin 2 }])
      []).messages.map fun m => (m.id, m.toolResult)) = [(js "toolu_1", some ⟨js "x", false⟩)] ∧
    ((foldEvents 0 (historyToReplayEvents
        [{ type := .toolResult, toolCallId := some (js "toolu_1"), toolOutput := some (js "x"), timestamp := .fin 1 },
          { type := .tool, toolCallId := some (js "toolu_1"), timestamp := .fin 2 }])
      []).messages.map fun m => (m.id, m.toolResult)) = [(js "toolu_1", none)] ∧
    ((foldEvents 0 (historyToReplayEvents
        [{ type := .user, timestamp := .fin 5 }, { type := .user, timestamp := .fin 5 },
          { type := .tool, toolCallId := some (js "user_5#2"), timestamp := .fin 6 },
          { type := .toolResult, toolCallId := some (js "user_5#2"), toolOutput := some (js "x"), timestamp := .fin 7 }])
      []).messages.map fun m => (m.id, m.toolResult)) =
      [(js "user_5", none), (js "user_5#2", none), (js "user_5#2", none)] := by
  simp only [historyToReplayEvents, replayLoop]
  decide +kernel

end PiWebUi.Transcript
