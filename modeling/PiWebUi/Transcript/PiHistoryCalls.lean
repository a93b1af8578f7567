/-
  PiWebUi.Transcript.PiHistoryCalls — no tool call is lost on a session switch.

  `settled` says of a call what the entries after it make of it, whatever stands between; the
  history's tool messages are those of its calls, each settled so (`tools_perm`). A call is
  lost where its result has details that no summary is made of, and nowhere else.
-/

import PiWebUi.Transcript.PiHistory
import Mathlib.Data.List.Perm.Basic

namespace PiWebUi.Transcript

open PiWebUi.Lib List Option

/-! ## Calls and what follows them -/

/-- The message of a user's or an assistant's entry. -/
def spoken (now : JsNumber) (raw : Json) : Option PiSessionHistoryMessage :=
  match entryKind raw with
  | .spoken role message => some (spokenMessage now role raw message)
  | _ => none

/-- Every tool call of the entries, with the entries that follow it. -/
def callsIn (now : JsNumber) : List Json → List (PendingToolCall × List Json)
  | [] => []
  | raw :: rest => ((entryKind raw).calls now).map (·, rest) ++ callsIn now rest

/-- The first result for the call. -/
def resultFor (toolCallId : JsString) : List Json → Option Json
  | [] => none
  | raw :: rest =>
    match entryKind raw with
    | .result id message => if id = toolCallId then some message else resultFor toolCallId rest
    | _ => resultFor toolCallId rest

/-- The tool's message of a call that these entries follow. -/
def settled (now : JsNumber) (rest : List Json) (waiting : PendingToolCall) : Option PiSessionHistoryMessage :=
  match resultFor waiting.call.id rest with
  | none => some (toolMessage waiting.call waiting.timestamp none)
  | some message => resultMessage now waiting.call message

/-! ## The pending calls -/

theorem perm_delete {α β : Type} [DecidableEq α] {m : JsMap α β} {k : α} {v : β} (h : m.get k = some v) :
    m.entries.Perm ((k, v) :: (m.delete k).entries) := by
  have hnodup : ∀ m : JsMap α β, m.entries.Nodup := fun m => List.Nodup.of_map _ m.nodup
  have hfresh : (k, v) ∉ (m.delete k).entries := fun hmem => (JsMap.mem_delete.mp hmem).1 rfl
  apply (perm_ext_iff_of_nodup (hnodup m) (nodup_cons.mpr ⟨hfresh, hnodup _⟩)).mpr
  intro e
  rw [mem_cons, JsMap.mem_delete]
  constructor
  · intro he
    by_cases hk : e.1 = k
    · have hget := JsMap.get_of_mem he
      rw [hk, h] at hget
      exact .inl (Prod.ext hk (some.inj hget).symm)
    · exact .inr ⟨hk, he⟩
  · intro he
    rcases he with rfl | ⟨_, he⟩
    · exact JsMap.get_eq_some.mp h
    · exact he

/-- A call waits under its own id. -/
def PiHistory.Keyed (h : PiHistory) : Prop := ∀ e ∈ h.pending.entries, e.1 = e.2.call.id

section

variable {now : JsNumber} {h : PiHistory} {raw : Json} {rest : List Json} {waiting : PendingToolCall}

theorem pending_call (hkeyed : h.Keyed) (calls : List PendingToolCall) (hfresh : (h.pending.keys ++ calls.map (·.call.id)).Nodup) :
    (calls.foldl PiHistory.call h).messages = h.messages ∧ (calls.foldl PiHistory.call h).Keyed ∧
      (calls.foldl PiHistory.call h).pending.entries = h.pending.entries ++ calls.map fun w => (w.call.id, w) := by
  induction calls generalizing h with
  | nil => exact ⟨rfl, hkeyed, (append_nil _).symm⟩
  | cons w calls ih =>
    have hnone : h.pending.has w.call.id = false := by
      rw [← Bool.not_eq_true, JsMap.has_iff]
      intro hmem
      exact (nodup_append.mp hfresh).2.2 _ hmem _ mem_cons_self rfl
    have hset : (h.call w).pending.entries = h.pending.entries ++ [(w.call.id, w)] :=
      JsMap.set_entries_of_not_has hnone w
    have hkeyed' : (h.call w).Keyed := by
      intro e he
      rw [hset] at he
      rcases mem_append.mp he with he | he
      · exact hkeyed e he
      · rw [mem_singleton.mp he]
    have hkeys : (h.call w).pending.keys = h.pending.keys ++ [w.call.id] := by
      rw [JsMap.keys, hset, map_append]
      rfl
    obtain ⟨hmessages, hall, hentries⟩ := ih hkeyed' (by rw [hkeys, append_assoc]; exact hfresh)
    refine ⟨hmessages, hall, ?_⟩
    rw [foldl_cons, hentries, hset, append_assoc]
    rfl

theorem settled_skip (hkind : ∀ id message, entryKind raw = .result id message → id ≠ waiting.call.id) :
    settled now (raw :: rest) waiting = settled now rest waiting := by
  have hresult : resultFor waiting.call.id (raw :: rest) = resultFor waiting.call.id rest := by
    rw [resultFor]
    split
    next id message heq => rw [if_neg (hkind id message heq)]
    next => rfl
  rw [settled, settled, hresult]

variable {message : Json} {m : PiSessionHistoryMessage}

theorem settled_result (hkind : entryKind raw = .result waiting.call.id message) :
    settled now (raw :: rest) waiting = resultMessage now waiting.call message := by
  unfold settled
  rw [resultFor, hkind]
  dsimp only
  rw [if_pos rfl]

def PiSessionHistoryMessage.isTool (m : PiSessionHistoryMessage) : Bool := m.role = .tool

theorem isTool_resultMessage {call : ToolCall}
    (hm : resultMessage now call message = some m) : m.isTool = true ∧ m.toolCall = some call := by
  unfold resultMessage at hm
  split at hm
  · split at hm
    · cases hm
    · obtain rfl := some.inj hm
      exact ⟨rfl, rfl⟩
  · obtain rfl := some.inj hm
    exact ⟨rfl, rfl⟩

theorem role_of_spoken {role : HistoryRole} (hkind : entryKind raw = .spoken role message) : role ≠ .tool := by
  unfold entryKind at hkind
  split at hkind
  · cases hkind
  · split at hkind
    · cases hkind
      decide
    split at hkind
    · cases hkind
      decide
    split at hkind
    · split at hkind <;> cases hkind
    · cases hkind

theorem filter_toList_resultMessage (call : ToolCall) (message : Json) :
    (resultMessage now call message).toList.filter (·.isTool) = (resultMessage now call message).toList := by
  apply filter_eq_self.mpr
  intro m hm
  exact (isTool_resultMessage (mem_toList.mp hm)).1

/-- A result of a call that does not wait. -/
theorem pending_unknown {id : JsString} (hkeyed : h.Keyed) (hkind : entryKind raw = .result id message)
    (hget : h.pending.get id = none) :
    h.pending.values.filterMap (settled now (raw :: rest)) = h.pending.values.filterMap (settled now rest) := by
  refine filterMap_congr fun w hw => settled_skip ?_
  intro id' message' heq hid
  rw [hkind] at heq
  cases heq
  obtain ⟨e, he, rfl⟩ := mem_map.mp hw
  exact JsMap.get_eq_none.mp hget (mem_map.mpr ⟨e, he, (hkeyed e he).trans hid.symm⟩)

/-- A result settles its call, and none of the others. -/
theorem pending_result (hkeyed : h.Keyed) (hkind : entryKind raw = .result waiting.call.id message)
    (hget : h.pending.get waiting.call.id = some waiting) :
    (h.pending.values.filterMap (settled now (raw :: rest))).Perm ((resultMessage now waiting.call message).toList ++
      (h.pending.delete waiting.call.id).values.filterMap (settled now rest)) := by
  have hvalues : h.pending.values.Perm ([waiting] ++ (h.pending.delete waiting.call.id).values) :=
    List.Perm.map (fun e : JsString × PendingToolCall => e.2) (perm_delete hget)
  have hfirst : [waiting].filterMap (settled now (raw :: rest)) = (resultMessage now waiting.call message).toList := by
    rw [filterMap_cons, settled_result hkind]
    cases resultMessage now waiting.call message <;> rfl
  have hothers : (h.pending.delete waiting.call.id).values.filterMap (settled now (raw :: rest)) =
      (h.pending.delete waiting.call.id).values.filterMap (settled now rest) := by
    refine filterMap_congr fun w hw => settled_skip ?_
    intro id' message' heq hid
    rw [hkind] at heq
    injection heq with hsame
    obtain ⟨e, he, rfl⟩ := mem_map.mp hw
    obtain ⟨hne, hmem⟩ := JsMap.mem_delete.mp he
    exact hne ((hkeyed e hmem).trans (hid.symm.trans hsame.symm))
  have hsettled := hvalues.filterMap (settled now (raw :: rest))
  rw [filterMap_append, hfirst, hothers] at hsettled
  exact hsettled

/-- The tool messages of a history: those it has, and its pending calls and the calls of the
    entries to come, each settled by the entries after it. -/
theorem tools_perm (entries : List Json) : ∀ h : PiHistory, h.Keyed →
    (h.pending.keys ++ (callsIn now entries).map (·.1.call.id)).Nodup →
    ((entries.foldl (PiHistory.entry now) h).finish.filter (·.isTool)).Perm
      (h.messages.filter (·.isTool) ++ h.pending.values.filterMap (settled now entries) ++
        (callsIn now entries).filterMap fun p => settled now p.2 p.1) := by
  induction entries with
  | nil =>
    intro h _ _
    have hwait : h.pending.values.filterMap (settled now []) =
        h.pending.values.map fun waiting => toolMessage waiting.call waiting.timestamp none :=
      congrFun filterMap_eq_map _
    show (h.messages ++ _).filter (·.isTool) |>.Perm (_ ++ _ ++ [])
    rw [hwait, append_nil, filter_append]
    refine List.Perm.append_left _ (List.Perm.of_eq (filter_eq_self.mpr ?_))
    intro m hm
    obtain ⟨_, _, rfl⟩ := mem_map.mp hm
    rfl
  | cons raw rest ih =>
    intro h hkeyed hdistinct
    rw [callsIn, map_append, List.map_map] at hdistinct
    rw [foldl_cons, callsIn, filterMap_append]
    cases hkind : entryKind raw with
    | other =>
      have hentry : h.entry now raw = h := by rw [PiHistory.entry, hkind]
      have hskip : h.pending.values.filterMap (settled now (raw :: rest)) = h.pending.values.filterMap (settled now rest) :=
        filterMap_congr fun w _ => settled_skip fun id message heq => by rw [hkind] at heq; cases heq
      rw [hentry, hskip]
      rw [hkind] at hdistinct
      exact ih h hkeyed hdistinct
    | spoken role message =>
      have hskip : h.pending.values.filterMap (settled now (raw :: rest)) = h.pending.values.filterMap (settled now rest) :=
        filterMap_congr fun w _ => settled_skip fun id message heq => by rw [hkind] at heq; cases heq
      have hentry : h.entry now raw = ((entryKind raw).calls now).foldl PiHistory.call
          { h with messages := h.messages ++ [spokenMessage now role raw message] } := by
        rw [PiHistory.entry, hkind]
      obtain ⟨hmessages, hall, hentries⟩ := pending_call
        (h := { h with messages := h.messages ++ [spokenMessage now role raw message] }) hkeyed ((entryKind raw).calls now)
        (hdistinct.sublist (by rw [← append_assoc]; exact sublist_append_left _ _))
      rw [← hentry] at hmessages hall hentries
      have hkeys : (h.entry now raw).pending.keys = h.pending.keys ++ ((entryKind raw).calls now).map (·.call.id) := by
        rw [JsMap.keys, hentries, map_append, List.map_map]
        rfl
      have hvalues : (h.entry now raw).pending.values = h.pending.values ++ (entryKind raw).calls now := by
        rw [JsMap.values, hentries, map_append, List.map_map]
        exact congrArg (h.pending.values ++ ·) (List.map_id _)
      have hspoken : (h.entry now raw).messages.filter (·.isTool) = h.messages.filter (·.isTool) := by
        have hrole : (spokenMessage now role raw message).isTool = false := decide_eq_false (role_of_spoken hkind)
        rw [hmessages, filter_append, filter_singleton, hrole]
        exact append_nil _
      have hrest := ih (h.entry now raw) hall (by rw [hkeys, append_assoc]; exact hdistinct)
      rw [hspoken, hvalues, filterMap_append, hkind] at hrest
      rw [hskip, filterMap_map]
      simp only [append_assoc] at hrest ⊢
      exact hrest
    | result id message =>
      rw [hkind] at hdistinct
      show List.Perm _ (_ ++ ([] ++ _))
      rw [nil_append]
      cases hget : h.pending.get id with
      | none =>
        have hentry : h.entry now raw = h := by
          rw [PiHistory.entry, hkind]
          dsimp only
          rw [hget]
        rw [hentry, pending_unknown hkeyed hkind hget]
        exact ih h hkeyed hdistinct
      | some waiting =>
        have hentry : h.entry now raw = {
            messages := h.messages ++ (resultMessage now waiting.call message).toList
            pending := h.pending.delete id } := by
          rw [PiHistory.entry, hkind]
          dsimp only
          rw [hget]
        have hid : id = waiting.call.id := hkeyed _ (JsMap.get_eq_some.mp hget)
        subst hid
        have hrest := ih (h.entry now raw)
          (by rw [hentry]; exact fun e he => hkeyed e (JsMap.mem_delete.mp he).2)
          (by
            rw [hentry]
            exact hdistinct.sublist (List.Sublist.append_right (filter_sublist.map _) _))
        rw [hentry] at hrest ⊢
        rw [filter_append, filter_toList_resultMessage] at hrest
        refine hrest.trans ?_
        refine List.Perm.append_right _ ?_
        rw [append_assoc]
        exact List.Perm.append_left _ (pending_result hkeyed hkind hget).symm

theorem messages_call (calls : List PendingToolCall) : ∀ h : PiHistory, (calls.foldl PiHistory.call h).messages = h.messages := by
  induction calls with
  | nil => exact fun _ => rfl
  | cons w calls ih => exact fun h => ih (h.call w)

/-- The other messages of a history: those it has, and one for each user's or assistant's
    entry to come. -/
theorem spoken_in_order (entries : List Json) : ∀ h : PiHistory, (entries.foldl (PiHistory.entry now) h).finish.filter (!·.isTool) =
      h.messages.filter (!·.isTool) ++ entries.filterMap (spoken now) := by
  induction entries with
  | nil =>
    intro h
    have hnone : (h.pending.values.map fun w => toolMessage w.call w.timestamp none).filter (!·.isTool) = [] := by
      apply filter_eq_nil_iff.mpr
      intro m hm
      obtain ⟨_, _, rfl⟩ := mem_map.mp hm
      exact Bool.false_ne_true
    show (h.messages ++ h.pending.values.map fun w => toolMessage w.call w.timestamp none).filter (!·.isTool) = _ ++ []
    rw [filter_append, hnone]
  | cons raw rest ih =>
    intro h
    have hstep : (h.entry now raw).messages.filter (!·.isTool) = h.messages.filter (!·.isTool) ++ (spoken now raw).toList := by
      rw [PiHistory.entry, spoken]
      cases hkind : entryKind raw with
      | other => exact (append_nil _).symm
      | spoken role message =>
        have hrole : (spokenMessage now role raw message).isTool = false := decide_eq_false (role_of_spoken hkind)
        dsimp only
        rw [messages_call, filter_append, filter_singleton, hrole]
        rfl
      | result id message =>
        dsimp only
        cases h.pending.get id with
        | none => exact (append_nil _).symm
        | some waiting =>
          dsimp only
          have hnone : (resultMessage now waiting.call message).toList.filter (!·.isTool) = [] := by
            apply filter_eq_nil_iff.mpr
            intro m hm
            rw [(isTool_resultMessage (mem_toList.mp hm)).1]
            decide
          rw [filter_append, hnone]
          rfl
    rw [foldl_cons, ih, hstep, append_assoc, filterMap_cons]
    cases spoken now raw <;> rfl

/-! ## Every call is shown -/

theorem tools_settled {entries : List Json} (hdistinct : ((callsIn now entries).map (·.1.call.id)).Nodup) :
    ((parsePiSessionHistory now entries).filter (·.isTool)).Perm ((callsIn now entries).filterMap fun p => settled now p.2 p.1) :=
  tools_perm entries {} nofun hdistinct

theorem toolCall_settled (hm : settled now rest waiting = some m) : m.toolCall = some waiting.call := by
  unfold settled at hm
  split at hm
  · obtain rfl := some.inj hm
    rfl
  · exact (isTool_resultMessage hm).2

/-- The details of the call's result, if it is a subagent's and has one, are recognised. -/
def Recognised (waiting : PendingToolCall) (rest : List Json) : Prop :=
  ∀ result, resultFor waiting.call.id rest = some result → isSubagentTool waiting.call.name = true →
    (summarizeSubagentDetails waiting.call.name (field result "details")).isSome = true

theorem settled_isSome_iff : (settled now rest waiting).isSome = true ↔ Recognised waiting rest := by
  unfold settled Recognised
  split
  next hnone =>
    simp only [isSome_some, true_iff]
    intro result hresult
    rw [hnone] at hresult
    cases hresult
  next message hmessage =>
    rw [hmessage, resultMessage]
    constructor
    · intro h result hresult hsubagent
      obtain rfl := some.inj hresult
      rw [if_pos hsubagent] at h
      cases hsummary : summarizeSubagentDetails waiting.call.name (field message "details") with
      | none =>
        rw [hsummary] at h
        cases h
      | some summary => rfl
    · intro h
      split
      next hsubagent =>
        obtain ⟨summary, hsummary⟩ := isSome_iff_exists.mp (h message rfl hsubagent)
        rw [hsummary]
        rfl
      next => rfl

/-- The result of a settled call is there where one follows it, with its error flag. -/
theorem settled_answered (hm : settled now rest waiting = some m) :
    (m.toolResult.isSome = true ↔ (resultFor waiting.call.id rest).isSome = true) ∧
      ∀ result shown b, resultFor waiting.call.id rest = some result → m.toolResult = some shown →
        field result "isError" = some (.bool b) → shown.isError = b := by
  unfold settled at hm
  cases hresult : resultFor waiting.call.id rest with
  | none =>
    rw [hresult] at hm
    obtain rfl := some.inj hm
    refine ⟨Iff.rfl, ?_⟩
    intro result shown b hnone
    cases hnone
  | some message =>
    rw [hresult] at hm
    simp only [resultMessage] at hm
    split at hm
    · split at hm
      · cases hm
      · obtain rfl := some.inj hm
        refine ⟨Iff.rfl, ?_⟩
        intro result shown b hsame hshown hflag
        cases hsame
        cases hshown
        rw [summaryIsError, hflag]
    · obtain rfl := some.inj hm
      refine ⟨Iff.rfl, ?_⟩
      intro result shown b hsame hshown hflag
      cases hsame
      cases hshown
      show decide (field message "isError" = some (.bool true)) = b
      rw [hflag]
      cases b <;> rfl

end

/-- What a session switch shows of the entries. -/
structure Accounted (now : JsNumber) (entries : List Json) (shown : List PiSessionHistoryMessage) : Prop where
  spoken : shown.filter (!·.isTool) = entries.filterMap (spoken now)
  called : ((shown.filter (·.isTool)).map (·.toolCall)).Perm ((callsIn now entries).map fun p => some p.1.call)
  answered : ∀ p ∈ callsIn now entries, ∀ m ∈ shown, m.toolCall = some p.1.call →
    (m.toolResult.isSome = true ↔ (resultFor p.1.call.id p.2).isSome = true) ∧
      ∀ result shown b, resultFor p.1.call.id p.2 = some result → m.toolResult = some shown →
        field result "isError" = some (.bool b) → shown.isError = b

theorem isTool_of_toolCall {now : JsNumber} {entries : List Json} {m : PiSessionHistoryMessage} {call : ToolCall}
    (hm : m ∈ parsePiSessionHistory now entries) (hcall : m.toolCall = some call) : m.isTool = true := by
  by_contra htool
  have hmem : m ∈ entries.filterMap (spoken now) := by
    have hall : (parsePiSessionHistory now entries).filter (!·.isTool) = entries.filterMap (spoken now) := spoken_in_order entries {}
    rw [← hall, mem_filter, Bool.not_eq_true', ← Bool.not_eq_true]
    exact ⟨hm, htool⟩
  obtain ⟨raw, -, hraw⟩ := mem_filterMap.mp hmem
  unfold spoken at hraw
  split at hraw
  · obtain rfl := some.inj hraw
    cases hcall
  · cases hraw

theorem no_call_lost_iff (now : JsNumber) (entries : List Json) (hdistinct : ((callsIn now entries).map (·.1.call.id)).Nodup) :
    Accounted now entries (parsePiSessionHistory now entries) ↔ ∀ p ∈ callsIn now entries, Recognised p.1 p.2 := by
  have htools := tools_settled hdistinct
  constructor
  · intro h p hp
    have hlength := (htools.map (·.toolCall)).symm.trans h.called
    have heq : ((callsIn now entries).filterMap fun p => settled now p.2 p.1).length = (callsIn now entries).length := by
      simpa only [length_map] using hlength.length_eq
    have hall := filterMap_length_eq_length.mp heq
    exact settled_isSome_iff.mp (hall p hp)
  · intro h
    refine ⟨spoken_in_order entries {}, (htools.map _).trans (List.Perm.of_eq ?_), ?_⟩
    · rw [map_filterMap, ← filterMap_eq_map]
      refine filterMap_congr fun p hp => ?_
      obtain ⟨m, hm⟩ := isSome_iff_exists.mp (settled_isSome_iff.mpr (h p hp))
      rw [hm]
      exact congrArg some (toolCall_settled hm)
    · intro p hp m hm hcall
      have hmem : m ∈ (callsIn now entries).filterMap fun p => settled now p.2 p.1 := by
        exact htools.mem_iff.mp (mem_filter.mpr ⟨hm, isTool_of_toolCall hm hcall⟩)
      obtain ⟨q, hq, hsettled⟩ := mem_filterMap.mp hmem
      have hsame : q = p := by
        apply inj_on_of_nodup_map hdistinct hq hp
        have heq := (toolCall_settled hsettled).symm.trans hcall
        rw [some.inj heq]
      subst hsame
      exact settled_answered hsettled

/-! ## A session -/

def jsonRecord (fields : List (String × Json)) : Json := .obj (fields.map fun f => (js f.1, f.2))

def jsonText (s : String) : Json := .str (js s)

/-- An assistant's entry with a text and a tool call. -/
def callEntry (id name : String) : Json :=
  jsonRecord [("type", jsonText "message"), ("id", jsonText "e1"), ("message", jsonRecord [("role", jsonText "assistant"), ("timestamp", .num (.fin 5)),
    ("content", .arr [jsonRecord [("type", jsonText "text"), ("text", jsonText "on it")],
      jsonRecord [("type", jsonText "toolCall"), ("id", jsonText id), ("name", jsonText name), ("arguments", jsonRecord [])]])])]

def resultEntry (id : String) (fields : List (String × Json)) : Json :=
  jsonRecord [("type", jsonText "message"), ("message", jsonRecord ([("role", jsonText "toolResult"), ("toolCallId", jsonText id),
    ("timestamp", .num (.fin 6))] ++ fields))]

/-- A subagent's call with a summary, a failed command, and a call that still runs. -/
def switched : List Json :=
  [callEntry "a" "subagent", resultEntry "a" [("details", jsonRecord [("results", .arr [])])], callEntry "b" "bash",
    resultEntry "b" [("isError", .bool true), ("content", jsonText "no such file")], callEntry "c" "evaluated_subagent"]

theorem switched_accounted : Accounted (.fin 0) switched (parsePiSessionHistory (.fin 0) switched) := by
  have hcalls : (callsIn (.fin 0) switched).all (fun p => (settled (.fin 0) p.2 p.1).isSome) = true := by decide +kernel
  exact (no_call_lost_iff (.fin 0) switched (by decide +kernel)).mpr fun p hp =>
    settled_isSome_iff.mp (all_eq_true.mp hcalls p hp)

/-- The result of a subagent's call without details: the call is shown nowhere. -/
theorem subagent_lost :
    (callsIn (.fin 0) [callEntry "a" "subagent", resultEntry "a" [("isError", .bool true)]]).map (·.1.call.id) = [js "a"] ∧
      (parsePiSessionHistory (.fin 0) [callEntry "a" "subagent", resultEntry "a" [("isError", .bool true)]]).filter (·.isTool) = [] := by
  decide +kernel

end PiWebUi.Transcript
