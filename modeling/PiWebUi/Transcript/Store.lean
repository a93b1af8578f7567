/-
  PiWebUi.Transcript.Store — the browser's session store (client/src/store/sessionStore.ts).

  A session's rows stand in four places: `messages` (what is visible, of the current
  session), `sessionData`, `sessionMessages` and the LRU `sessionCache`. The handlers of
  the server's messages and the store's own actions each write some of them. Inside a
  history window (`history_start` to `history_end`) the events of the session are buffered
  and folded at its end, or every thousand events.
-/

import PiWebUi.Transcript.Fold

namespace PiWebUi.Transcript

open PiWebUi.Lib PiWebUi.Lib.JsNumber

abbrev SessionId := JsString

/-- `Date.now()` and `Math.random().toString(36).substr(2, 6)`. -/
structure Clock where
  now : ℕ
  random : JsString := []
  deriving DecidableEq

/-! ## Events -/

/-- The events that are not folded. `other` is one whose handler touches no rows. -/
inductive OtherEvent
  | agentStart
  | agentEnd
  | toolUpdate (raw : ToolFields) (text : JsString)
  | apiError (message provider model : Option JsString)
  | error
  | sessionInit (model : Option JsString)
  | staleStreamReset
  | sessionRecovered
  | rateLimit
  | message (id : Option JsString) (stopReason errorMessage provider model : Option JsString)
  | other
  deriving DecidableEq

abbrev SessionEvent := BufferItem OtherEvent

/-! ## The store -/

structure CacheEntry where
  messages : List Message
  lastAccess : ℕ
  deriving DecidableEq

/-- The ids tracked for the message under way. -/
structure TrackedIds where
  current : Option JsString := none
  wire : Option JsString := none
  stored : Option JsString := none
  deriving DecidableEq

structure Store where
  currentSessionId : Option SessionId := none
  messages : List Message := []
  sessionData : SessionId → Option (List Message) := fun _ => none
  sessionMessages : SessionId → Option (List Message) := fun _ => none
  sessionCache : JsMap SessionId CacheEntry := JsMap.empty
  historyBuffers : JsMap SessionId (List SessionEvent) := JsMap.empty
  tracked : SessionId → TrackedIds := fun _ => {}

def put {α : Type} (f : SessionId → α) (sid : SessionId) (v : α) : SessionId → α :=
  fun other => if other = sid then v else f other

@[simp] theorem put_same {α : Type} (f : SessionId → α) (sid : SessionId) (v : α) : put f sid v sid = v := if_pos rfl

theorem put_other {α : Type} (f : SessionId → α) {sid other : SessionId} (h : other ≠ sid) (v : α) :
    put f sid v other = f other := if_neg h

/-! ## Updates -/

/-- `Partial<Message> & { toolCallArgs }`: the properties that are there. -/
structure Updates where
  id : Option JsString := none
  role : Option JsString := none
  customType : Option JsString := none
  content : Option Content := none
  timestamp : Option ℕ := none
  toolCall : Option ToolCall := none
  toolResult : Option ToolResult := none
  error : Option MessageError := none
  toolCallArgs : Option Json := none

def Updates.apply (u : Updates) (previousMessage : Message) : Message where
  id := u.id.getD previousMessage.id
  role := u.role.or previousMessage.role
  customType := u.customType.or previousMessage.customType
  content := u.content.getD previousMessage.content
  timestamp := u.timestamp.getD previousMessage.timestamp
  toolCall :=
    match u.toolCallArgs, previousMessage.toolCall with
    | some args, some call => some { call with args := some args }
    | _, _ => u.toolCall.or previousMessage.toolCall
  toolResult := u.toolResult.or previousMessage.toolResult
  error := u.error.or previousMessage.error

/-- Every row with the id becomes the updated copy of the first. -/
def replaceById (messages : List Message) (id : JsString) (u : Updates) : Option (List Message) :=
  (messages.find? (·.id = id)).map fun previousMessage =>
    messages.map fun msg => if msg.id = id then u.apply previousMessage else msg

/-! ## Actions -/

def maxCachedSessions : ℕ := 2

/-- The ids `evictIfNeeded` removes: the oldest first, never the current session. -/
def toEvict (size : ℕ) (currentSessionId : Option SessionId) : List SessionId → List SessionId → List SessionId
  | [], evicted => evicted
  | id :: ids, evicted =>
    if some id ≠ currentSessionId ∧ maxCachedSessions < size - evicted.length then
      toEvict size currentSessionId ids (evicted ++ [id])
    else toEvict size currentSessionId ids evicted

def evictIfNeeded (s : Store) : Store :=
  if s.sessionCache.size ≤ maxCachedSessions then s
  else
    let entries := s.sessionCache.entries.mergeSort (fun a b => a.2.lastAccess ≤ b.2.lastAccess)
    let evicted := toEvict s.sessionCache.size s.currentSessionId (entries.map (·.1)) []
    { s with
      sessionCache := evicted.foldl JsMap.delete s.sessionCache
      sessionMessages := fun sid => if sid ∈ evicted then none else s.sessionMessages sid }

section

variable (c : Clock)

/-- The current session's rows are written where they are cached, if there are any. -/
def saveCurrent (s : Store) : Store :=
  match s.currentSessionId with
  | some currentId =>
    if s.messages = [] then s
    else { s with
      sessionMessages := put s.sessionMessages currentId (some s.messages)
      sessionCache := s.sessionCache.set currentId ⟨s.messages, c.now⟩ }
  | none => s

/-- What a switch to the session shows: its cache entry, else its `sessionMessages`. -/
def cachedMessages (s : Store) (sid : SessionId) : List Message :=
  ((s.sessionCache.get sid).map (·.messages)).getD ((s.sessionMessages sid).getD [])

def setCurrentSession (sessionId : Option SessionId) (s : Store) : Store :=
  let s := saveCurrent c s
  evictIfNeeded <|
    match sessionId with
    | some sid => { s with
      currentSessionId := some sid
      messages := cachedMessages s sid
      sessionCache := s.sessionCache.set sid ⟨cachedMessages s sid, c.now⟩ }
    | none => { s with currentSessionId := none, messages := [] }

/-- The rows are written to the cached projections of a session, and to its data if it has some. -/
def writeCurrent (sid : SessionId) (messages : List Message) (s : Store) : Store :=
  { s with
    messages
    sessionMessages := put s.sessionMessages sid (some messages)
    sessionCache := s.sessionCache.set sid ⟨messages, c.now⟩
    sessionData := if (s.sessionData sid).isSome then put s.sessionData sid (some messages) else s.sessionData }

def addMessage (message : Message) (s : Store) : Store :=
  match s.currentSessionId with
  | some sid => writeCurrent c sid (s.messages ++ [message]) s
  | none => { s with messages := s.messages ++ [message] }

def updateMessage (id : JsString) (updates : Updates) (s : Store) : Store :=
  match replaceById s.messages id updates with
  | none => s
  | some newMessages =>
    match s.currentSessionId with
    | some sid => writeCurrent c sid newMessages s
    | none => { s with messages := newMessages }

/-- The rows of a session are written everywhere. -/
def writeSession (sid : SessionId) (messages : List Message) (s : Store) : Store :=
  { s with
    messages := if s.currentSessionId = some sid then messages else s.messages
    sessionData := put s.sessionData sid (some messages)
    sessionMessages := put s.sessionMessages sid (some messages)
    sessionCache := s.sessionCache.set sid ⟨messages, c.now⟩ }

def addMessageToSession (sid : SessionId) (message : Message) (s : Store) : Store :=
  let baseMessages :=
    if s.currentSessionId = some sid ∧ s.messages ≠ [] then s.messages else (s.sessionData sid).getD []
  writeSession c sid (baseMessages ++ [message]) s

def updateMessageInSession (sid : SessionId) (messageId : JsString) (updates : Updates) (s : Store) : Store :=
  match s.sessionData sid with
  | none => s
  | some existing =>
    let baseMessages := if s.currentSessionId = some sid ∧ s.messages.any (·.id = messageId) then s.messages else existing
    match replaceById baseMessages messageId updates with
    | none => s
    | some newMessages => writeSession c sid newMessages s

/-- What `setSessionStatus` and `updateSessionData` do to the rows: data without rows is made
    for a session that has none. -/
def ensureSessionData (sid : SessionId) (s : Store) : Store :=
  match s.sessionData sid with
  | some _ => s
  | none => { s with sessionData := put s.sessionData sid (some []) }

def clearSessionMessages (sid : SessionId) (s : Store) : Store :=
  { s with sessionMessages := put s.sessionMessages sid none, sessionCache := s.sessionCache.delete sid }

/-! ## Live events -/

def allocateStoredMessageId (s : Store) (sid : SessionId) (wireId : JsString) : JsString :=
  firstFree (((s.sessionData sid).getD []).map (·.id)) (storageCandidate wireId)

def messageTextOf : Content → JsString
  | .text s => s
  | .parts ps => ps.flatMap fun p => if p.type = .text then p.text.getD [] else []

def optimisticUserIdPrefix : JsString := js "optimistic_"

def isOptimistic (text : JsString) (m : Message) : Bool :=
  m.role = some userRole ∧ optimisticUserIdPrefix.isPrefixOf m.id ∧ messageTextOf m.content = text

/-- The oldest optimistic copy with the text, the first of those equally old. -/
def findOptimisticUserMatch (messages : List Message) (text : JsString) : Option Message :=
  (messages.filter (isOptimistic text)).foldl
    (fun best m => match best with
      | none => some m
      | some b => if m.timestamp < b.timestamp then some m else some b) none

/-- The payload of a text or a thinking part, if it has one. -/
def ContentPart.payload (p : ContentPart) : JsString :=
  match p.type with
  | .text => p.text.getD []
  | .thinking => p.thinking.getD []
  | .other _ => []

def ContentPart.withPayload (p : ContentPart) (payload : JsString) : ContentPart :=
  match p.type with
  | .text => { p with text := some payload }
  | _ => { p with thinking := some payload }

/-- One turn of `fillEmptyStreamedBlocksFromEnd`'s loop: the parts and whether any changed. -/
def fillPart (st : List ContentPart × Bool) (i : ℕ) (finalPart : ContentPart) : List ContentPart × Bool :=
  if finalPart.payload = [] then st
  else
    match st.1[i]? with
    | none => (st.1 ++ [finalPart], true)
    | some streamedPart =>
      if streamedPart.type ≠ finalPart.type ∨ streamedPart.payload ≠ [] then st
      else (st.1.set i (streamedPart.withPayload finalPart.payload), true)

def fillEmptyStreamedBlocksFromEnd (streamed final : Content) : Option (List ContentPart) :=
  let r := final.toParts.zipIdx.foldl (fun st p => fillPart st p.2 p.1) (streamed.toParts, false)
  if r.2 then some r.1 else none

def handleMessageStart (sid : SessionId) (message : WireMessage) (s : Store) : Store :=
  let wireId := (truthy message.id).getD (js "msg_" ++ natText c.now)
  let storedId := allocateStoredMessageId s sid wireId
  let s := { s with tracked := put s.tracked sid { s.tracked sid with wire := some wireId, stored := some storedId } }
  let matched :=
    if message.role = some userRole then
      (s.sessionData sid).bind (findOptimisticUserMatch · (messageTextOf (message.content.getD (.text []))))
    else none
  let s' := match matched with
    | some m => updateMessageInSession c sid m.id { id := some storedId } s
    | none => addMessageToSession c sid {
        id := storedId
        role := message.role
        customType := message.customType
        content := message.initialContent
        timestamp := c.now } s
  { s' with tracked := put s'.tracked sid { s'.tracked sid with current := some storedId } }

/-- The row an update is for: its own id or the tracked one; the wire id under way stands for
    the stored one. -/
def updateTarget (ids : TrackedIds) (id : Option JsString) : Option JsString :=
  match (truthy id) <|> truthy ids.current with
  | some messageId => if ids.wire = some messageId then some (ids.stored.getD messageId) else some messageId
  | none => none

def handleMessageUpdate (sid : SessionId) (id : Option JsString) (e : Option AssistantEvent) (s : Store) : Store :=
  match updateTarget (s.tracked sid) id with
  | none => s
  | some messageId =>
    match ((s.sessionData sid).getD []).find? (·.id = messageId) with
    | none => s
    | some existingMsg =>
      match e.bind (appendDelta existingMsg.content) with
      | none => s
      | some content => updateMessageInSession c sid messageId { content := some content } s

/-- The row a terminal message fills: the stored one, the tracked one, the last assistant's. -/
def endTarget (ids : TrackedIds) (messages : List Message) : Option Message :=
  ((truthy ids.stored).bind fun id => messages.find? (·.id = id)) <|>
  ((truthy ids.current).bind fun id => messages.find? (·.id = id)) <|>
  messages.reverse.find? (·.role = some assistantRole)

def handleMessageEnd (sid : SessionId) (message : Option WireMessage) (s : Store) : Store :=
  match message with
  | none => s
  | some endMessage =>
    if endMessage.role = some userRole then s
    else
      match endTarget (s.tracked sid) ((s.sessionData sid).getD []) with
      | none => s
      | some target =>
        if target.role ≠ some assistantRole then s
        else
          match fillEmptyStreamedBlocksFromEnd target.content (endMessage.content.getD (.parts [])) with
          | none => s
          | some filled => updateMessageInSession c sid target.id { content := some (.parts filled) } s

def handleToolStart (sid : SessionId) (raw : ToolFields) (s : Store) : Store :=
  let toolCallId := raw.callId.getD (js "tool_" ++ natText c.now)
  addMessageToSession c sid {
    id := toolCallId
    role := some toolRole
    content := .text []
    timestamp := c.now
    toolCall := some ⟨toolCallId, raw.callName.getD [], raw.callArgs⟩ } s

/-- Without a result `extractBackgroundIdentity` throws, before anything is written. -/
def handleToolEnd (sid : SessionId) (raw : ToolFields) (result : ResultValue) (isError : Bool) (s : Store) : Store :=
  match raw.callId with
  | none => s
  | some toolCallId =>
    if result = .absent then s
    else updateMessageInSession c sid toolCallId {
      content := some (.text (extractToolResultText result))
      toolResult := some ⟨extractToolResultText result, isError⟩
      toolCallArgs := raw.callArgs } s

def handleFoldable (sid : SessionId) (s : Store) : Event → Store
  | .messageStart message => handleMessageStart c sid message s
  | .messageUpdate id e => handleMessageUpdate c sid id e s
  | .messageEnd message => handleMessageEnd c sid message s
  | .toolStart raw => handleToolStart c sid raw s
  | .toolEnd raw result isError => handleToolEnd c sid raw result isError s

/-! ## Other events -/

/-- A tool without a result is completed. -/
def completeTool (m : Message) : Message :=
  if m.role = some toolRole ∧ m.toolCall.isSome ∧ m.toolResult.isNone then
    { m with toolResult := some ⟨js "Tool completed", false⟩ }
  else m

def handleAgentEnd (sid : SessionId) (s : Store) : Store :=
  let s := ensureSessionData sid s
  let s := { s with tracked := put s.tracked sid {} }
  if s.currentSessionId = some sid then { s with messages := s.messages.map completeTool } else s

def errorRow (id : JsString) (message : JsString) (provider model : Option JsString) : Message where
  id
  role := some assistantRole
  content := .parts []
  timestamp := c.now
  error := some ⟨message, truthy provider, truthy model⟩

/-- An error row is added to the session, and to the visible rows once more. -/
def addErrorRow (sid : SessionId) (row : Message) (s : Store) : Store :=
  let s := addMessageToSession c sid row s
  if s.currentSessionId = some sid then addMessage c row s else s

def handleOther (sid : SessionId) (s : Store) : OtherEvent → Store
  | .agentStart | .error | .staleStreamReset | .sessionRecovered | .rateLimit => ensureSessionData sid s
  | .agentEnd => handleAgentEnd sid s
  | .toolUpdate raw text =>
    match raw.callId with
    | none => s
    | some toolCallId =>
      updateMessageInSession c sid toolCallId { content := some (.text text), toolResult := some ⟨text, false⟩ } s
  | .apiError message provider model =>
    let errorId := js "api-error-" ++ natText c.now ++ js "-" ++ c.random
    addErrorRow c sid (errorRow c errorId ((truthy message).getD (js "API error occurred")) provider model) s
  | .sessionInit model => if (truthy model).isSome then ensureSessionData sid s else s
  | .message id stopReason errorMessage provider model =>
    match truthy errorMessage with
    | some text =>
      if stopReason ≠ some (js "error") then s
      else
        let known := (truthy id).any fun id => ((s.sessionMessages sid).getD []).any (·.id = id)
        let replayErrorId := (truthy id).getD (js "replay-error-" ++ natText c.now ++ js "-" ++ c.random)
        if known then s else addErrorRow c sid (errorRow c replayErrorId text provider model) s
    | none => s
  | .other => s

def handleSessionEvent (sid : SessionId) (s : Store) : SessionEvent → Store
  | .event e => handleFoldable c sid s e
  | .other e => handleOther c sid s e

/-! ## History windows -/

def historyBufferFlushEvents : ℕ := 1000

/-- Both callers apply the whole buffer. The base is read before the leftovers are handled. -/
def applyHistoryBuffer (sid : SessionId) (s : Store) : Store :=
  match s.historyBuffers.get sid with
  | none | some [] => s
  | some (item :: items) =>
    let folded := foldSessionEvents c.now (item :: items) ((s.sessionData sid).getD [])
    let closed := { s with historyBuffers := s.historyBuffers.delete sid }
    writeSession c sid folded.messages (folded.leftovers.foldl (handleSessionEvent c sid) closed)

def closeHistoryBuffer (sid : SessionId) (s : Store) : Store :=
  { s with historyBuffers := s.historyBuffers.delete sid }

def bufferHistoryEvent (sid : SessionId) (item : SessionEvent) (s : Store) : Store :=
  let buffer := ((s.historyBuffers.get sid).getD []) ++ [item]
  let s := { s with historyBuffers := s.historyBuffers.set sid buffer }
  if historyBufferFlushEvents ≤ buffer.length then
    let s := applyHistoryBuffer c sid s
    if s.historyBuffers.has sid then s else { s with historyBuffers := s.historyBuffers.set sid [] }
  else s

def historyStart (sid : SessionId) (s : Store) : Store :=
  let s := s.historyBuffers.keys.foldl (fun s openSessionId =>
    closeHistoryBuffer openSessionId (if openSessionId ≠ sid then applyHistoryBuffer c openSessionId s else s)) s
  let s := clearSessionMessages sid s
  { s with historyBuffers := s.historyBuffers.set sid [] }

/-- The safety timer of a window. -/
def historySafety (sid : SessionId) (s : Store) : Store := closeHistoryBuffer sid (applyHistoryBuffer c sid s)

def historyEnd (sid : SessionId) (s : Store) : Store := ensureSessionData sid (historySafety c sid s)

/-! ## Steps -/

inductive Action
  | sessionCreated (sessionId : SessionId)
  | sessionSwitched (sessionId : SessionId) (messages : List Message)
  | sessionEvent (sessionId : SessionId) (item : SessionEvent)
  | historyStart (sessionId : SessionId)
  | historyEnd (sessionId : SessionId)
  | historySafety (sessionId : SessionId)
  | addMessage (message : Message)
  | updateMessage (id : JsString) (updates : Updates)
  | setCurrentSession (sessionId : Option SessionId)
  | evictIfNeeded

def sessionCreated (sid : SessionId) (s : Store) : Store :=
  clearSessionMessages sid { s with currentSessionId := some sid, messages := [] }

/-- What the switch takes over of a row. -/
def clientMessage (m : Message) : Message := { m with customType := none, error := none }

def sessionSwitched (sid : SessionId) (serverMessages : List Message) (s : Store) : Store :=
  let clientMessages := serverMessages.map clientMessage
  let s := saveCurrent c s
  evictIfNeeded { s with
    currentSessionId := some sid
    messages := clientMessages
    sessionMessages := put s.sessionMessages sid (some clientMessages)
    sessionCache := s.sessionCache.set sid ⟨clientMessages, c.now⟩ }

/-- `handleServerMessage` of a `session_event`: buffered inside a history window. -/
def sessionEvent (sid : SessionId) (item : SessionEvent) (s : Store) : Store :=
  if s.historyBuffers.has sid then bufferHistoryEvent c sid item s else handleSessionEvent c sid s item

end

def step (s : Store) (a : Clock × Action) : Store :=
  match a.2 with
  | .sessionCreated sid => sessionCreated sid s
  | .sessionSwitched sid messages => sessionSwitched a.1 sid messages s
  | .sessionEvent sid item => sessionEvent a.1 sid item s
  | .historyStart sid => historyStart a.1 sid s
  | .historyEnd sid => historyEnd a.1 sid s
  | .historySafety sid => historySafety a.1 sid s
  | .addMessage message => addMessage a.1 message s
  | .updateMessage id updates => updateMessage a.1 id updates s
  | .setCurrentSession sessionId => setCurrentSession a.1 sessionId s
  | .evictIfNeeded => evictIfNeeded s

end PiWebUi.Transcript
