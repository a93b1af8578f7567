/-
  PiWebUi.EventBroker.JsonSize — the size that is counted without building the text
  (event-payload-budget.ts), on values that may hold undefined, functions and symbols.

  `jsonBytes` counts the escapes, the separators of the members that are kept, and the
  UTF-8 of the rest. On data it is the UTF-8 length of the `JSON.stringify` text, so the
  budget decides about a `message_update` as about any other event (`json_bytes_exact`). An
  object with a `toJSON` of its own is written as what that returns, which is not counted
  (`toJSON_not_counted`).
-/

import PiWebUi.EventBroker.PayloadBudget
import PiWebUi.Lib.JsValue
import PiWebUi.Lib.Utf8

namespace PiWebUi.EventBroker

open Lib List

/-! ## Strings -/

def shortEscape (u : UInt16) : Prop := u = 34 ∨ u = 92 ∨ u = 8 ∨ u = 9 ∨ u = 10 ∨ u = 12 ∨ u = 13

instance (u : UInt16) : Decidable (shortEscape u) := inferInstanceAs (Decidable (_ ∨ _))

theorem hexDigit_ascii : ∀ n < 16, (Json.hexDigit n).toNat < 128 := by decide

theorem unicodeEscape_ascii (u : UInt16) : ∀ v ∈ Json.unicodeEscape u, v.toNat < 128 := by
  have hu : u.toNat < 65536 := u.toNat_lt
  simp only [Json.unicodeEscape, mem_cons, not_mem_nil, or_false]
  rintro v (rfl | rfl | rfl | rfl | rfl | rfl)
  · decide
  · decide
  · exact hexDigit_ascii _ (by omega)
  · exact hexDigit_ascii _ (by omega)
  · exact hexDigit_ascii _ (by omega)
  · exact hexDigit_ascii _ (by omega)

theorem utf8Length_ascii {s : JsString} (h : ∀ u ∈ s, u.toNat < 128) : utf8Length s = s.length := by
  induction s with
  | nil => rfl
  | cons u s ih =>
    rw [Utf8.utf8Length_cons (h u mem_cons_self), ih fun v hv => h v (mem_cons_of_mem u hv), length_cons]
    omega

theorem shortEscape_ascii {u : UInt16} (h : shortEscape u) :
    (Json.escapeUnit u).length = 2 ∧ (Json.escapeUnit u).all (fun v => v.toNat < 128) = true := by
  rcases h with rfl | rfl | rfl | rfl | rfl | rfl | rfl <;> exact ⟨by decide, by decide⟩

/-- What one code unit becomes: an escape of two or of six units, or itself. -/
theorem escapeUnit_cases (u : UInt16) : shortEscape u ∧ (Json.escapeUnit u).length = 2 ∧ (∀ v ∈ Json.escapeUnit u, v.toNat < 128) ∨
    ¬ shortEscape u ∧ (u < 32 ∨ Utf8.isSurrogate u = true) ∧ Json.escapeUnit u = Json.unicodeEscape u ∨
    ¬ shortEscape u ∧ ¬ u < 32 ∧ Utf8.isSurrogate u = false ∧ Json.escapeUnit u = [u] := by
  by_cases hs : shortEscape u
  · left
    obtain ⟨hlen, hall⟩ := shortEscape_ascii hs
    exact ⟨hs, hlen, fun v hv => of_decide_eq_true (all_eq_true.mp hall v hv)⟩
  · right
    have hne := hs
    simp only [shortEscape, not_or] at hne
    obtain ⟨h1, h2, h3, h4, h5, h6, h7⟩ := hne
    by_cases hc : u < 32 ∨ Utf8.isSurrogate u = true
    · left
      refine ⟨hs, hc, ?_⟩
      have hc' : u < 32 ∨ isHighSurrogate u = true ∨ isLowSurrogate u = true := by simpa [Utf8.isSurrogate] using hc
      simp only [Json.escapeUnit, h1, h2, h3, h4, h5, h6, h7, if_false, if_pos hc']
    · right
      have hc' : ¬ (u < 32 ∨ isHighSurrogate u = true ∨ isLowSurrogate u = true) := by simpa [Utf8.isSurrogate] using hc
      rw [not_or] at hc
      refine ⟨hs, hc.1, by simpa using hc.2, ?_⟩
      simp only [Json.escapeUnit, h1, h2, h3, h4, h5, h6, h7, if_false, if_neg hc']

theorem escapeUnit_plain (u : UInt16) : ∀ v ∈ Json.escapeUnit u, Utf8.isSurrogate v = false := by
  have hascii : ∀ v : UInt16, v.toNat < 128 → Utf8.isSurrogate v = false := by
    intro v hv
    rw [← Bool.not_eq_true, Utf8.surrogate_toNat]
    omega
  intro v hv
  rcases escapeUnit_cases u with h | h | h
  · exact hascii v (h.2.2 v hv)
  · exact hascii v (unicodeEscape_ascii u v (h.2.2 ▸ hv))
  · rw [h.2.2.2, mem_singleton] at hv
    exact hv ▸ h.2.2.1

/-- What the escape of one unpaired code unit adds. -/
def addedBytes (u : UInt16) : ℕ := if shortEscape u then 1 else if u < 32 then 5 else if Utf8.isSurrogate u then 3 else 0

theorem utf8Length_escapeUnit (u : UInt16) : utf8Length (Json.escapeUnit u) = utf8Length [u] + addedBytes u := by
  have hone : ∀ v : UInt16, v.toNat < 128 → utf8Length [v] = 1 := fun v hv => utf8Length_ascii (s := [v]) (by simpa using hv)
  rcases escapeUnit_cases u with ⟨hs, hlen, hascii⟩ | ⟨hs, hc, heq⟩ | ⟨hs, hc, hp, heq⟩
  · rw [utf8Length_ascii hascii, hlen, addedBytes, if_pos hs, hone u]
    rcases hs with rfl | rfl | rfl | rfl | rfl | rfl | rfl <;> decide
  · rw [heq, utf8Length_ascii (unicodeEscape_ascii u), addedBytes, if_neg hs]
    by_cases hlow : u < 32
    · have hascii : u.toNat < 128 := by grind [UInt16.lt_iff_toNat_lt]
      rw [if_pos hlow, hone u hascii]
      rfl
    · have hsur := hc.resolve_left hlow
      have hthree : utf8Length [u] = 3 := by
        have hnat := Utf8.surrogate_toNat.mp hsur
        have h1 : ¬ u < 0x80 := by grind [UInt16.lt_iff_toNat_lt]
        have h2 : ¬ u < 0x800 := by grind [UInt16.lt_iff_toNat_lt]
        rw [utf8Length, if_neg h1, if_neg h2]
      rw [if_neg hlow, if_pos hsur, hthree]
      rfl
  · rw [heq, addedBytes, if_neg hs, if_neg hc, if_neg (by simp [hp])]
    omega

theorem escapeBytes_pair {u v : UInt16} (h : (isHighSurrogate u && isLowSurrogate v) = true) (r : JsString) :
    escapeBytes (u :: v :: r) = escapeBytes r := by
  rw [Bool.and_eq_true] at h
  have hnat := Utf8.high_toNat.mp h.1
  have hne : ∀ w : UInt16, w.toNat < 128 → u ≠ w := by
    rintro w hw rfl
    omega
  have hlow : ¬ u < 32 := by grind [UInt16.lt_iff_toNat_lt]
  simp only [escapeBytes, h.1, h.2, if_true, hlow, if_false, hne 34 (by decide), hne 92 (by decide), hne 8 (by decide), hne 9 (by decide),
    hne 10 (by decide), hne 12 (by decide), hne 13 (by decide), decide_false, Bool.or_false, Bool.false_eq_true]

theorem escapeBytes_single {u : UInt16} {r : JsString} (h : ∀ v ∈ r.head?, (isHighSurrogate u && isLowSurrogate v) = false) :
    escapeBytes (u :: r) = addedBytes u + escapeBytes r := by
  have hshort : (decide (u = 34) || decide (u = 92) || decide (u = 8) || decide (u = 9) || decide (u = 10) || decide (u = 12) ||
      decide (u = 13)) = decide (shortEscape u) := by
    rw [Bool.eq_iff_iff, decide_eq_true_iff]
    simp [shortEscape, or_assoc]
  rw [escapeBytes.eq_def, addedBytes]
  simp only [hshort]
  by_cases hs : shortEscape u
  · simp [hs]
  · by_cases hlow : u < 32
    · simp [hs, hlow]
    · cases hhigh : isHighSurrogate u with
      | true =>
        cases r with
        | nil => simp [hs, hlow, Utf8.isSurrogate, hhigh, escapeBytes]
        | cons v r =>
          have hv : isLowSurrogate v = false := by simpa [hhigh] using h v rfl
          simp [hs, hlow, Utf8.isSurrogate, hhigh, hv]
      | false =>
        cases hl : isLowSurrogate u <;> simp [hs, hlow, Utf8.isSurrogate, hhigh, hl]

/-- The escaped text is as much longer as the escapes were counted. -/
theorem utf8Length_escape (s : JsString) : utf8Length (Json.escape s) = utf8Length s + escapeBytes s := by
  induction s using Json.escape.induct with
  | case1 => rfl
  | case2 u =>
    rw [Json.escape, utf8Length_escapeUnit, escapeBytes_single (by simp)]
    simp [escapeBytes]
  | case3 u v r h ih =>
    have hboth : isHighSurrogate u = true ∧ isLowSurrogate v = true := by simpa using h
    rw [Json.escape, if_pos h, escapeBytes_pair h, Utf8.utf8Length_eq, Utf8.encode, if_pos h, Utf8.utf8Length_eq (u :: v :: r), Utf8.encode,
      if_pos h, length_append, length_append, ← Utf8.utf8Length_eq, ← Utf8.utf8Length_eq, ih]
    omega
  | case4 u v r h ih =>
    have hpair : (isHighSurrogate u && isLowSurrogate v) = false := by simpa using h
    have hsplit : utf8Length (u :: v :: r) = utf8Length [u] + utf8Length (v :: r) := by
      rw [Utf8.utf8Length_eq, Utf8.encode, if_neg h, length_append, ← Utf8.utf8Length_eq, Utf8.utf8Length_eq [u]]
      rfl
    have hsingle : escapeBytes (u :: v :: r) = addedBytes u + escapeBytes (v :: r) := escapeBytes_single (by simpa using hpair)
    rw [Json.escape, if_neg h, Utf8.utf8Length_append (escapeUnit_plain u), ih, utf8Length_escapeUnit, hsingle, hsplit]
    omega

theorem escapeBytes_zero {s : JsString} (h : s.any escapesOrSurrogate = false) : escapeBytes s = 0 := by
  induction s with
  | nil => rfl
  | cons u s ih =>
    rw [any_cons, Bool.or_eq_false_iff] at h
    have hu := h.1
    simp only [escapesOrSurrogate, Bool.or_eq_false_iff, decide_eq_false_iff_not] at hu
    obtain ⟨⟨⟨⟨hq, hb⟩, hc⟩, hhigh⟩, hlow⟩ := hu
    have hne : ∀ w : UInt16, w < 32 → u ≠ w := by
      rintro w hw rfl
      exact hc hw
    have hs : ¬ shortEscape u := by
      simp only [shortEscape, not_or]
      exact ⟨hq, hb, hne 8 (by decide), hne 9 (by decide), hne 10 (by decide), hne 12 (by decide), hne 13 (by decide)⟩
    rw [escapeBytes_single (by simp [hhigh]), ih h.2, addedBytes, if_neg hs, if_neg hc, if_neg (by simp [Utf8.isSurrogate, hhigh, hlow])]

theorem jsonStringBytes_eq (s : JsString) : jsonStringBytes s = utf8Length (Json.quote s) := by
  have hquote : utf8Length (Json.quote s) = utf8Length s + escapeBytes s + 2 := by
    have hnil : utf8Length ([] : JsString) = 0 := rfl
    rw [Json.quote, Utf8.utf8Length_cons (by decide), Utf8.utf8Length_append_cons _ (by decide), utf8Length_escape, hnil]
    omega
  rw [hquote, jsonStringBytes]
  split
  · rfl
  · next h => rw [escapeBytes_zero (by simpa using h), Nat.add_zero]

/-! ## Values -/

namespace Values

open JsValue

mutual
def jsonBytes : JsValue → ℕ
  | .null => 4
  | .str s => jsonStringBytes s
  | .bool true => 4
  | .bool false => 5
  | .num x => if x.isFinite then utf8Length x.toText else 4
  | .arr xs => 2 + (xs.length - 1) + jsonBytesItems xs
  | .obj fs => jsonBytesMembers 2 0 fs
  | .undefined | .symbol | .function _ => 0

/-- An omitted item is counted as `null`. -/
def jsonBytesItems : List JsValue → ℕ
  | [] => 0
  | x :: xs => (if x.omitted then 4 else jsonBytes x) + jsonBytesItems xs

/-- The loop over `Object.keys(value)`. -/
def jsonBytesMembers (bytes retained : ℕ) : List (JsString × JsValue) → ℕ
  | [] => bytes
  | (key, item) :: fs =>
    if item.omitted then jsonBytesMembers bytes retained fs
    else jsonBytesMembers (bytes + (if 0 < retained then 1 else 0) + jsonStringBytes key + 1 + jsonBytes item) (retained + 1) fs
end

theorem utf8Length_elements (xs : List Json) (r : JsString) :
    utf8Length (r ++ Json.stringifyElements xs) = utf8Length r + utf8Length (Json.stringifyElements xs) := by
  cases xs <;>
  · rw [Json.stringifyElements, Utf8.utf8Length_append_cons r (by decide), Utf8.utf8Length_cons (by decide)]
    omega

theorem utf8Length_members (fs : List (JsString × Json)) (r : JsString) :
    utf8Length (r ++ Json.stringifyMembers fs) = utf8Length r + utf8Length (Json.stringifyMembers fs) := by
  cases fs <;>
  · rw [Json.stringifyMembers, Utf8.utf8Length_append_cons r (by decide), Utf8.utf8Length_cons (by decide)]
    omega

theorem utf8Length_member (k : JsString) (v : Json) (fs : List (JsString × Json)) :
    utf8Length (Json.quote k ++ 58 :: (Json.stringify v ++ Json.stringifyMembers fs)) =
      jsonStringBytes k + 1 + utf8Length (Json.stringify v) + utf8Length (Json.stringifyMembers fs) := by
  rw [Utf8.utf8Length_append_cons _ (by decide), utf8Length_members, ← jsonStringBytes_eq]
  omega

theorem utf8Length_first (k : JsString) (v : Json) (fs : List (JsString × Json)) :
    utf8Length (Json.stringify (.obj ((k, v) :: fs))) =
      jsonStringBytes k + 2 + utf8Length (Json.stringify v) + utf8Length (Json.stringifyMembers fs) := by
  rw [Json.stringify, Utf8.utf8Length_cons (by decide), utf8Length_member]
  omega

/-- What an item is counted for, given that it is counted right. -/
theorem item_bytes {x : JsValue} (hd : Data x) (h : ∀ j, x.toJson = some j → jsonBytes x = utf8Length j.stringify) :
    (if x.omitted then 4 else jsonBytes x) = utf8Length (Json.stringify (x.toJson.getD .null)) := by
  cases ho : x.omitted with
  | true =>
    rw [toJson_of_omitted ho]
    rfl
  | false =>
    obtain ⟨j, hj⟩ := exists_toJson hd ho
    rw [hj]
    exact h j hj

mutual
theorem jsonBytes_eq : ∀ v : JsValue, Data v → ∀ j, v.toJson = some j → jsonBytes v = utf8Length j.stringify
  | .undefined, _, _, h | .symbol, _, _, h | .function _, _, _, h => by cases h
  | .null, _, _, h => by
    cases h
    rfl
  | .bool true, _, _, h | .bool false, _, _, h => by
    cases h
    rfl
  | .num x, _, _, h => by
    cases h
    rw [jsonBytes, Json.stringify]
    split <;> rfl
  | .str s, _, _, h => by
    cases h
    rw [jsonBytes, jsonStringBytes_eq, Json.stringify]
  | .arr [], _, _, h => by
    cases h
    rfl
  | .arr (x :: xs), hd, _, h => by
    cases h
    have hitem := item_bytes hd.1 (jsonBytes_eq x hd.1)
    have hitems := jsonBytesItems_eq xs hd.2
    rw [jsonBytes, jsonBytesItems, hitem, itemsToJson, Json.stringify, Utf8.utf8Length_cons (by decide), utf8Length_elements, ← hitems]
    simp only [length_cons]
    omega
  | .obj fs, hd, _, h => by
    have hcustom : custom fs = none := hd.1
    have hmembers := jsonBytesMembers_first fs hd.2 2
    simp only [toJson, hcustom, Option.some.injEq] at h
    subst h
    rw [jsonBytes]
    omega

/-- The items after the first, each with its comma, and the bracket. -/
theorem jsonBytesItems_eq : ∀ xs : List JsValue, DataItems xs →
    jsonBytesItems xs + xs.length + 1 = utf8Length (Json.stringifyElements (itemsToJson xs))
  | [], _ => rfl
  | x :: xs, hd => by
    have hitem := item_bytes hd.1 (jsonBytes_eq x hd.1)
    have hitems := jsonBytesItems_eq xs hd.2
    rw [jsonBytesItems, hitem, itemsToJson, Json.stringifyElements, Utf8.utf8Length_cons (by decide), utf8Length_elements, ← hitems,
      length_cons]
    omega

/-- The members after the first that is kept, each with its comma, and the brace. -/
theorem jsonBytesMembers_eq : ∀ fs : List (JsString × JsValue), DataFields fs → ∀ bytes retained, 0 < retained →
    jsonBytesMembers bytes retained fs + 1 = bytes + utf8Length (Json.stringifyMembers (fieldsToJson fs))
  | [], _, _, _, _ => rfl
  | (k, v) :: fs, hd, bytes, retained, hpos => by
    rw [jsonBytesMembers, fieldsToJson]
    cases ho : v.omitted with
    | true =>
      rw [if_pos rfl, toJson_of_omitted ho]
      exact jsonBytesMembers_eq fs hd.2 bytes retained hpos
    | false =>
      obtain ⟨j, hj⟩ := exists_toJson hd.1 ho
      have hvalue := jsonBytes_eq v hd.1 j hj
      have hmembers := jsonBytesMembers_eq fs hd.2 (bytes + 1 + jsonStringBytes k + 1 + jsonBytes v) (retained + 1) (by omega)
      rw [if_neg (by simp), if_pos hpos, hmembers, hj]
      simp only [Json.stringifyMembers]
      rw [Utf8.utf8Length_cons (by decide), utf8Length_member, ← hvalue]
      omega

/-- The loop before a member is kept. -/
theorem jsonBytesMembers_first : ∀ fs : List (JsString × JsValue), DataFields fs → ∀ bytes,
    jsonBytesMembers bytes 0 fs + 2 = bytes + utf8Length (Json.stringify (.obj (fieldsToJson fs)))
  | [], _, _ => rfl
  | (k, v) :: fs, hd, bytes => by
    rw [jsonBytesMembers, fieldsToJson]
    cases ho : v.omitted with
    | true =>
      rw [if_pos rfl, toJson_of_omitted ho]
      exact jsonBytesMembers_first fs hd.2 bytes
    | false =>
      obtain ⟨j, hj⟩ := exists_toJson hd.1 ho
      have hvalue := jsonBytes_eq v hd.1 j hj
      have hmembers := jsonBytesMembers_eq fs hd.2 (bytes + 0 + jsonStringBytes k + 1 + jsonBytes v) (0 + 1) (by omega)
      rw [if_neg (by simp), hj]
      simp only [utf8Length_first, ← hvalue, Nat.lt_irrefl, if_false]
      omega
end

/-! ## The budget -/

/-- An event whose data and other properties may hold any values. -/
structure Event where
  type : JsString
  timestamp : JsNumber
  data : JsValue
  rest : List (JsString × JsValue)

def Event.toValue (e : Event) : JsValue :=
  .obj ([(js "type", .str e.type)] ++ e.rest ++ [(js "timestamp", .num e.timestamp), (js "data", e.data)])

/-- `JSON.stringify(event)`; nothing at all has no octets. -/
def Event.text (e : Event) : JsString := (JsValue.stringify e.toValue).getD []

structure MeasuredEvent where
  event : Event
  serialized : JsString
  bytes : ℕ
  truncated : Bool
  originalBytes : ℕ

/-- `{ event, ...serialize(event), truncated, originalBytes }`. -/
def measured (event : Event) (truncated : Bool) (originalBytes : ℕ) : MeasuredEvent where
  event
  serialized := event.text
  bytes := utf8Length event.text
  truncated
  originalBytes

/-- The fields of a record; none for anything else. -/
def recordFields : JsValue → Option (List (JsString × JsValue))
  | .obj fs => some fs
  | _ => none

def slimMessage (message : JsValue) : Option JsValue :=
  (recordFields message).map fun fs => .obj ([js "id", js "stopReason", js "role"].filterMap fun key =>
    match (JsValue.obj fs).get key with
    | .undefined => none
    | v => some (key, v))

mutual
def truncateStrings (maxStringLength : JsNumber) : JsValue → JsValue
  | .str s => .str (truncateString maxStringLength s)
  | .arr xs => .arr (truncateItems maxStringLength xs)
  | .obj fs => .obj (truncateMembers maxStringLength fs)
  | v => v

def truncateItems (maxStringLength : JsNumber) : List JsValue → List JsValue
  | [] => []
  | x :: xs => truncateStrings maxStringLength x :: truncateItems maxStringLength xs

def truncateMembers (maxStringLength : JsNumber) : List (JsString × JsValue) → List (JsString × JsValue)
  | [] => []
  | (k, v) :: fs => (k, truncateStrings maxStringLength v) :: truncateMembers maxStringLength fs
end

def stripAssistantMessageEventPartial : JsValue → JsValue
  | .obj fs => .obj (fs.filter (·.1 ≠ js "partial"))
  | v => v

def marker (originalBytes : ℕ) (budgetBytes : JsNumber) : JsValue :=
  .obj [(js "originalBytes", .num (num originalBytes)), (js "budgetBytes", .num budgetBytes)]

/-- `{ ...fields, assistantMessageEvent }` when there is one. -/
def stripDelta (fields : List (JsString × JsValue)) : JsValue → List (JsString × JsValue)
  | .undefined => fields
  | v => JsValue.setField fields (js "assistantMessageEvent") (stripAssistantMessageEventPartial v)

def candidateData (e : Event) (originalBytes : ℕ) (budgetBytes : JsNumber) : List (JsString × JsValue) :=
  let data := (recordFields e.data).getD []
  let slimmed :=
    if e.type = NormalizedEvent.message_update then
      let withMessage :=
        match slimMessage ((JsValue.obj data).get (js "message")) with
        | some message => JsValue.setField data (js "message") message
        | none => data
      stripDelta withMessage ((JsValue.obj data).get (js "assistantMessageEvent"))
    else truncateMembers ((EventBroker.num 16).max (budgetBytes.divNat 4).floor) data
  JsValue.setField slimmed (js "payloadTruncated") (marker originalBytes budgetBytes)

/-- What is sent of an event over the budget. -/
def slim (e : Event) (originalBytes : ℕ) (budgetBytes : JsNumber) : MeasuredEvent :=
  let candidate := measured { e with data := .obj (candidateData e originalBytes budgetBytes) } true originalBytes
  if (num candidate.bytes).le budgetBytes then candidate
  else measured { e with data := .obj [(js "payloadTruncated", marker originalBytes budgetBytes)] } true originalBytes

def measureAndSlim (e : Event) (budgetBytes : JsNumber) : MeasuredEvent :=
  if (num 0).lt budgetBytes && decide (e.type = NormalizedEvent.message_update) then
    let originalBytes := jsonBytes e.toValue
    if (num originalBytes).le budgetBytes then measured e false originalBytes else slim e originalBytes budgetBytes
  else
    let originalBytes := utf8Length e.text
    if decide (budgetBytes = num 0) || (num originalBytes).le budgetBytes then measured e false originalBytes
    else slim e originalBytes budgetBytes

theorem slim_truncated (e : Event) (originalBytes : ℕ) (budgetBytes : JsNumber) :
    (slim e originalBytes budgetBytes).truncated = true ∧ (slim e originalBytes budgetBytes).originalBytes = originalBytes := by
  simp only [slim]
  split <;> exact ⟨rfl, rfl⟩

/-- The size an event is judged by, counted or measured, is that of its text. -/
theorem jsonBytes_event {e : Event} (h : Data e.toValue) : jsonBytes e.toValue = utf8Length e.text := by
  obtain ⟨j, hj⟩ := exists_toJson h rfl
  rw [jsonBytes_eq e.toValue h j hj, Event.text, JsValue.stringify, hj]
  rfl

/-- On data the counted size is the UTF-8 length of the text, and an event of any type is kept
    as it is exactly when there is no budget or its text is within it. -/
theorem json_bytes_exact : (∀ (v : JsValue) (text : JsString), Data v → v.stringify = some text → jsonBytes v = utf8Length text) ∧
    ∀ (e : Event) (budgetBytes : JsNumber), Data e.toValue →
      ((measureAndSlim e budgetBytes).truncated = false ↔ budgetBytes = num 0 ∨ (num (utf8Length e.text)).le budgetBytes = true) ∧
      ((measureAndSlim e budgetBytes).truncated = false → (measureAndSlim e budgetBytes).event = e) ∧
      (measureAndSlim e budgetBytes).originalBytes = utf8Length e.text := by
  refine ⟨fun v text hd h => ?_, fun e budgetBytes hd => ?_⟩
  · obtain ⟨j, hj, rfl⟩ := Option.map_eq_some_iff.mp h
    exact jsonBytes_eq v hd j hj
  · have hslim := slim_truncated e (utf8Length e.text) budgetBytes
    have hsame : measureAndSlim e budgetBytes =
        if budgetBytes = num 0 ∨ (num (utf8Length e.text)).le budgetBytes = true then measured e false (utf8Length e.text)
        else slim e (utf8Length e.text) budgetBytes := by
      rw [measureAndSlim, jsonBytes_event hd]
      by_cases hfast : ((num 0).lt budgetBytes && decide (e.type = NormalizedEvent.message_update)) = true
      · -- a budget that is over zero is not zero
        have hne : budgetBytes ≠ num 0 := by
          rintro rfl
          simp [num, JsNumber.lt] at hfast
        rw [if_pos hfast]
        simp only [hne, false_or]
      · rw [if_neg hfast]
        simp only [Bool.or_eq_true, decide_eq_true_eq]
    rw [hsame]
    split
    · next hkept => exact ⟨⟨fun _ => hkept, fun _ => rfl⟩, fun _ => rfl, rfl⟩
    · next hover =>
      refine ⟨⟨fun h => ?_, fun h => absurd h hover⟩, fun h => ?_, hslim.2⟩
      all_goals
        rw [hslim.1] at h
        cases h

/-- A member that is undefined, a lone surrogate and a pair. -/
def surrogates : JsValue := .obj [(js "a", .undefined), (js "b", .str [0xD800]), (js "c", .str [0xD83D, 0xDE00])]

theorem json_bytes_exact_surrogates : jsonBytes surrogates = 25 := by
  have hdata : Data surrogates := ⟨rfl, trivial, trivial, trivial, trivial⟩
  exact (json_bytes_exact.1 surrogates _ hdata rfl).trans (by decide)

/-- An object that writes itself as `null`. -/
theorem toJSON_not_counted : ¬ ∀ (v : JsValue) (text : JsString), v.stringify = some text → jsonBytes v = utf8Length text := by
  intro h
  have hbytes := h (.obj [(js "toJSON", .function (some .null))]) (js "null") rfl
  revert hbytes
  decide

end Values

end PiWebUi.EventBroker
