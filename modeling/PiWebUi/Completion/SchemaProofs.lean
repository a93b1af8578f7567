/-
  PiWebUi.Completion.SchemaProofs — the schema reads back what it writes.

  Proved: the block's own JSON is accepted and is the block
  (`completionBlockSchema_toJson`); every accepted value prints as `JSON.parse` needs it
  (`completionBlockSchema_plain`).
-/

import PiWebUi.Lib.JsonRoundTrip
import PiWebUi.Completion.Schema

namespace PiWebUi.Completion

open Lib List

variable {α : Type} {f : α → Json}

/-! ## Object members -/

theorem get_cons (k key : JsString) (v : Json) (fs : List (JsString × Json)) :
    Json.get (.obj ((k, v) :: fs)) key = if k = key then some v else Json.get (.obj fs) key := by
  simp only [Json.get, find?_cons]
  split <;> simp_all

theorem get_append_optional (k key : JsString) (f : α → Json) (x : Option α) (fs : List (JsString × Json)) :
    Json.get (.obj (optionalField k f x ++ fs)) key = if k = key ∧ x.isSome then x.map f else Json.get (.obj fs) key := by
  cases x with
  | none => simp [optionalField]
  | some x => by_cases h : k = key <;> simp [optionalField, get_cons, h]

theorem get_optional (k key : JsString) (f : α → Json) (x : Option α) :
    Json.get (.obj (optionalField k f x)) key = if k = key then x.map f else none := by
  have h := get_append_optional k key f x []
  rw [append_nil] at h
  rw [h]
  cases x <;> simp [Json.get]

theorem ite_isSome {α β : Type} (x : Option α) (f : α → β) : (if x.isSome then x.map f else none) = x.map f := by
  cases x <;> rfl

theorem strict_obj (shape : List JsString) (fs : List (JsString × Json)) :
    strict shape (.obj fs) = some () ↔ ∀ f ∈ fs, f.1 ∈ shape := by
  simp only [strict, ite_eq_left_iff, reduceCtorEq, imp_false, not_not, all_eq_true, contains_iff_mem]

variable {k : JsString} {shape : List JsString} {v : Json}

theorem strict_cons {fs : List (JsString × Json)} (hk : k ∈ shape)
    (h : strict shape (.obj fs) = some ()) : strict shape (.obj ((k, v) :: fs)) = some () :=
  (strict_obj shape _).mpr (forall_mem_cons.mpr ⟨hk, (strict_obj shape fs).mp h⟩)

theorem strict_append_optional {x : Option α}
    {fs : List (JsString × Json)} (hk : k ∈ shape) (h : strict shape (.obj fs) = some ()) :
    strict shape (.obj (optionalField k f x ++ fs)) = some () := by
  cases x with
  | none => simpa [optionalField] using h
  | some x => exact strict_cons hk h

theorem strict_optional {x : Option α}
    (hk : k ∈ shape) : strict shape (.obj (optionalField k f x)) = some () := by
  cases x <;> simp [strict, optionalField, hk]

/-! ## A block's JSON is the block -/

theorem text_textJson {lo hi : ℕ} (t : Text lo hi) : text lo hi (textJson t) = some t := by
  simp [text, textJson, t.2]

theorem exitCode_num (n : Fin 256) : exitCode (.num (.fin (n.val : ℚ))) = some n := by
  have hn := n.2
  have hd : (n.val : ℚ).den = 1 := Rat.den_natCast _
  have hq : (n.val : ℚ).num = n.val := Rat.num_natCast _
  simp only [exitCode, hd, hq]
  rw [dif_pos ⟨trivial, by omega, by omega⟩]
  simp

theorem array_arrayJson {n : ℕ} {item : Json → Option α} (h : ∀ x, item (f x) = some x)
    (xs : Capped α n) : array item n (arrayJson f xs) = some xs := by
  have hm : (xs.1.map f).mapM item = some xs.1 := by
    induction xs.1 with
    | nil => rfl
    | cons x l ih => simp [h, ih]
  simp [array, arrayJson, hm, xs.2]

theorem optional_map {schema : Json → Option α} (h : ∀ x, schema (f x) = some x)
    {key : JsString} {x : Option α} (hg : v.get key = x.map f) : optional schema v key = some x := by
  cases x <;> simp_all [optional]

theorem commandSchema_toJson (c : Command) : commandSchema c.toJson = some c := by
  have hs : strict commandKeys c.toJson = some () :=
    strict_cons (by decide) (strict_cons (by decide) (strict_optional (by decide)))
  have h1 : c.toJson.get (js "command") = some (textJson c.command) := rfl
  have h2 : c.toJson.get (js "exitCode") = some (.num (.fin (c.exitCode.val : ℚ))) := rfl
  have h3 : optional (text 0 MAX_NOTE_CHARS) c.toJson (js "note") = some c.note :=
    optional_map text_textJson (by
      simp +decide only [Command.toJson, List.cons_append, nil_append, get_cons, get_optional, if_true, if_false])
  simp [commandSchema, hs, required, h1, h2, h3, text_textJson, exitCode_num]

theorem testSchema_toJson (t : TestCase) : testSchema t.toJson = some t := by
  have hs : strict testKeys t.toJson = some () :=
    strict_cons (by decide) (strict_cons (by decide) (strict_optional (by decide)))
  have h1 : t.toJson.get (js "name") = some (textJson t.name) := rfl
  have h2 : t.toJson.get (js "result") = some (.str t.result.text) := rfl
  have h3 : optional (text 0 MAX_NOTE_CHARS) t.toJson (js "note") = some t.note :=
    optional_map text_textJson (by
      simp +decide only [TestCase.toJson, List.cons_append, nil_append, get_cons, get_optional, if_true, if_false])
  have hr : enum [.pass, .fail, .skip] TestResult.text (.str t.result.text) = some t.result := by
    cases t.result <;> decide
  simp [testSchema, hs, required, h1, h2, h3, text_textJson, hr]

theorem commitSchema_toJson (c : Commit) : commitSchema c.toJson = some c := by
  have hs : strict commitKeys c.toJson = some () :=
    strict_cons (by decide) (strict_cons (by decide) (strict_optional (by decide)))
  have h1 : c.toJson.get (js "sha") = some (.str c.sha.1) := rfl
  have h2 : c.toJson.get (js "repo") = some (textJson c.repo) := rfl
  have h3 : optional (text 0 MAX_NOTE_CHARS) c.toJson (js "subject") = some c.subject :=
    optional_map text_textJson (by
      simp +decide only [Commit.toJson, List.cons_append, nil_append, get_cons, get_optional, if_true, if_false])
  have hsha : sha (.str c.sha.1) = some c.sha := by simp [sha, c.sha.2]
  simp [commitSchema, hs, required, h1, h2, h3, text_textJson, hsha]

theorem strict_toJson (b : CompletionBlock) : strict blockKeys b.toJson = some () := by
  simp only [CompletionBlock.toJson, append_assoc, List.cons_append, nil_append]
  refine strict_cons (by decide) (strict_cons (by decide) ?_)
  iterate 6 refine strict_append_optional (by decide) ?_
  exact strict_optional (by decide)

/-- The members of a block's JSON, found under their keys. -/
theorem get_toJson (b : CompletionBlock) : b.toJson.get (js "schema") = some (.str COMPLETION_SCHEMA_NAME) ∧
    b.toJson.get (js "status") = some (.str b.status.text) ∧ b.toJson.get (js "summary") = b.summary.map textJson ∧
    b.toJson.get (js "commands") = b.commands.map (arrayJson Command.toJson) ∧
    b.toJson.get (js "tests") = b.tests.map (arrayJson TestCase.toJson) ∧
    b.toJson.get (js "commits") = b.commits.map (arrayJson Commit.toJson) ∧
    b.toJson.get (js "filesChanged") = b.filesChanged.map (arrayJson textJson) ∧
    b.toJson.get (js "openIssues") = b.openIssues.map (arrayJson textJson) ∧
    b.toJson.get (js "blockedReason") = b.blockedReason.map textJson := by
  simp +decide only [CompletionBlock.toJson, append_assoc, List.cons_append, nil_append, get_cons,
    get_append_optional, get_optional, if_true, if_false, false_and, true_and, and_true, ite_isSome]

theorem completionBlockSchema_toJson (b : CompletionBlock) : completionBlockSchema b.toJson = some b := by
  obtain ⟨h1, h2, h3, h4, h5, h6, h7, h8, h9⟩ := get_toJson b
  have hs : enum [.done, .blocked, .partially] CompletionStatus.text (.str b.status.text) = some b.status := by
    cases b.status <;> decide
  simp only [completionBlockSchema, strict_toJson, required, h1, h2, Option.bind_some, schemaName, hs,
    optional_map text_textJson h3, optional_map (array_arrayJson commandSchema_toJson) h4,
    optional_map (array_arrayJson testSchema_toJson) h5, optional_map (array_arrayJson commitSchema_toJson) h6,
    optional_map (array_arrayJson text_textJson) h7, optional_map (array_arrayJson text_textJson) h8,
    optional_map text_textJson h9, Option.bind_eq_bind, if_true]
  exact dif_pos b.reasoned

/-! ## A block's JSON has no key twice -/

theorem keys_optionalField (k : JsString) (f : α → Json) (x : Option α) :
    ((optionalField k f x).map (·.1)).Sublist [k] := by
  cases x <;> simp [optionalField]

theorem forall_optionalField {P : Json → Prop} (h : ∀ a, P (f a))
    (x : Option α) : ∀ m ∈ optionalField k f x, P m.2 := by
  cases x <;> simp [optionalField, h]

theorem uniqueKeys_arrayJson {n : ℕ} (h : ∀ a, (f a).UniqueKeys) (xs : Capped α n) :
    (arrayJson f xs).UniqueKeys := by
  simp only [arrayJson, Json.UniqueKeys, Json.uniqueKeysElements_iff, forall_mem_map]
  exact fun a _ => h a

theorem uniqueKeys_textJson {lo hi : ℕ} (t : Text lo hi) : (textJson t).UniqueKeys := trivial

/-- Two required members and an optional one. -/
theorem uniqueKeys_item {a b c : JsString} (hab : [a, b, c].Nodup) {w : Json} (hv : v.UniqueKeys)
    (hw : w.UniqueKeys) (note : Option (Text 0 MAX_NOTE_CHARS)) :
    Json.UniqueKeys (.obj ([(a, v), (b, w)] ++ optionalField c textJson note)) := by
  simp only [Json.UniqueKeys, Json.uniqueKeysMembers_iff, map_append, forall_mem_append,
    forall_mem_cons]
  exact ⟨hab.sublist (List.Sublist.append (List.Sublist.refl [a, b]) (keys_optionalField c textJson note)),
    ⟨hv, hw, by simp⟩, forall_optionalField uniqueKeys_textJson note⟩

theorem uniqueKeys_toJson (b : CompletionBlock) : b.toJson.UniqueKeys := by
  have hstr (s : JsString) : (Json.str s).UniqueKeys := trivial
  have hnum (x : JsNumber) : (Json.num x).UniqueKeys := trivial
  have hc (c : Command) : c.toJson.UniqueKeys := uniqueKeys_item (by decide) (hstr _) (hnum _) c.note
  have ht (t : TestCase) : t.toJson.UniqueKeys := uniqueKeys_item (by decide) (hstr _) (hstr _) t.note
  have hm (c : Commit) : c.toJson.UniqueKeys := uniqueKeys_item (by decide) (hstr _) (hstr _) c.subject
  simp only [CompletionBlock.toJson, Json.UniqueKeys, Json.uniqueKeysMembers_iff, map_append,
    forall_mem_append]
  constructor
  · have hkeys := ((((((((List.Sublist.refl [js "schema", js "status"]).append
      (keys_optionalField (js "summary") textJson b.summary)).append
      (keys_optionalField (js "commands") (arrayJson Command.toJson) b.commands)).append
      (keys_optionalField (js "tests") (arrayJson TestCase.toJson) b.tests)).append
      (keys_optionalField (js "commits") (arrayJson Commit.toJson) b.commits)).append
      (keys_optionalField (js "filesChanged") (arrayJson textJson) b.filesChanged)).append
      (keys_optionalField (js "openIssues") (arrayJson textJson) b.openIssues)).append
      (keys_optionalField (js "blockedReason") textJson b.blockedReason))
    exact List.Nodup.sublist hkeys (by decide)
  · exact ⟨⟨⟨⟨⟨⟨⟨by simp [Json.UniqueKeys], forall_optionalField uniqueKeys_textJson _⟩,
      forall_optionalField (uniqueKeys_arrayJson hc) _⟩, forall_optionalField (uniqueKeys_arrayJson ht) _⟩,
      forall_optionalField (uniqueKeys_arrayJson hm) _⟩,
      forall_optionalField (uniqueKeys_arrayJson uniqueKeys_textJson) _⟩,
      forall_optionalField (uniqueKeys_arrayJson uniqueKeys_textJson) _⟩,
      forall_optionalField uniqueKeys_textJson _⟩

/-! ## A documented `safeParse` -/

/-- A `safeParse` that reports one general issue for whatever the schema does not declare. -/
def schemaZod : Zod := fun v =>
  match completionBlockSchema v with
  | some block => .ok block
  | none => .error [{ code := .other, path := [], message := js "Invalid input" }]

theorem schemaZod_documented : Zod.Documented schemaZod := by
  refine ⟨fun v b => ?_, fun v issues h => ?_, fun v issues h i hi => ?_⟩
  · cases h : completionBlockSchema v <;> simp [schemaZod, h]
  · unfold schemaZod at h
    split at h <;> simp at h
    simp [← h]
  · unfold schemaZod at h
    split at h <;> simp at h
    rw [← h] at hi
    simp only [mem_singleton] at hi
    subst hi
    exact ⟨trivial, by simp, by simp, fun _ => by decide⟩

/-! ## Accepted values are plain -/

/-- A schema reads only values that a round trip keeps. -/
def ReadsPlain {α : Type} (schema : Json → Option α) : Prop :=
  ∀ v a, schema v = some a → v.UniqueKeys → v.Plain

theorem text_plain (lo hi : ℕ) : ReadsPlain (text lo hi) := by
  intro v a h _
  cases v <;> simp [text, Json.Plain] at h ⊢

theorem sha_plain : ReadsPlain sha := by
  intro v a h _
  cases v <;> simp [sha, Json.Plain] at h ⊢

theorem schemaName_plain : ReadsPlain schemaName := by
  intro v a h _
  cases v <;> simp [schemaName, Json.Plain] at h ⊢

theorem enum_plain (values : List α) (t : α → JsString) : ReadsPlain (enum values t) := by
  intro v a h _
  cases v <;> simp [enum, Json.Plain] at h ⊢

theorem exitCode_plain : ReadsPlain exitCode := by
  intro v a h _
  cases v with
  | num x =>
    cases x with
    | fin q =>
      simp only [exitCode, Option.dite_none_right_eq_some] at h
      obtain ⟨hq, -⟩ := h
      refine ⟨q.num.toNat, by omega, ?_⟩
      have hz : ((q.num.toNat : ℤ) : ℚ) = q := by
        rw [Int.toNat_of_nonneg hq.2.1, Rat.coe_int_num_of_den_eq_one hq.1]
      exact congrArg JsNumber.fin hz.symm
    | _ => simp [exitCode] at h
  | _ => simp [exitCode] at h

theorem exists_of_mapM {α β : Type} {f : α → Option β} {xs : List α} {ys : List β} (h : xs.mapM f = some ys) :
    ∀ x ∈ xs, ∃ y, f x = some y := by
  induction xs generalizing ys with
  | nil => simp
  | cons x xs ih =>
    simp only [mapM_cons, Option.bind_eq_bind, Option.bind_eq_some_iff] at h
    obtain ⟨y, hy, zs, hzs, -⟩ := h
    exact forall_mem_cons.mpr ⟨⟨y, hy⟩, ih hzs⟩

theorem array_plain {item : Json → Option α} (h : ReadsPlain item) (n : ℕ) : ReadsPlain (array item n) := by
  intro v a hv hu
  cases v with
  | arr xs =>
    simp only [array, Option.bind_eq_bind, Option.bind_eq_some_iff] at hv
    obtain ⟨ys, hys, -⟩ := hv
    simp only [Json.UniqueKeys, Json.uniqueKeysElements_iff] at hu
    simp only [Json.Plain, Json.plainElements_iff]
    intro x hx
    obtain ⟨y, hy⟩ := exists_of_mapM hys x hx
    exact h x y hy (hu x hx)
  | _ => simp [array] at hv

/-- A strict object is plain when what it has under each key of the shape is. -/
theorem strict_plain (h : strict shape v = some ()) (hu : v.UniqueKeys)
    (hf : ∀ k ∈ shape, ∀ w, v.get k = some w → w.UniqueKeys → w.Plain) : v.Plain := by
  cases v with
  | obj fs =>
    rw [strict_obj] at h
    simp only [Json.UniqueKeys, Json.uniqueKeysMembers_iff] at hu
    simp only [Json.Plain, Json.plainMembers_iff]
    exact ⟨hu.1, fun f hfs => hf f.1 (h f hfs) f.2 (Json.get_of_mem hu.1 hfs) (hu.2 f hfs)⟩
  | _ => simp [strict] at h

theorem required_plain {schema : Json → Option α} (h : ReadsPlain schema) {key : JsString}
    {a : α} (hr : required schema v key = some a) : ∀ w, v.get key = some w → w.UniqueKeys → w.Plain := by
  intro w hw
  simp only [required, hw, Option.bind_some] at hr
  exact h w a hr

theorem optional_plain {schema : Json → Option α} (h : ReadsPlain schema) {key : JsString}
    {a : Option α} (hr : optional schema v key = some a) : ∀ w, v.get key = some w → w.UniqueKeys → w.Plain := by
  intro w hw
  simp only [optional, hw, Option.map_eq_some_iff] at hr
  obtain ⟨b, hb, -⟩ := hr
  exact h w b hb

theorem commandSchema_plain : ReadsPlain commandSchema := by
  intro v c h hu
  simp only [commandSchema, Option.bind_eq_bind, Option.bind_eq_some_iff] at h
  obtain ⟨_, hs, _, h1, _, h2, _, h3, -⟩ := h
  refine strict_plain hs hu ?_
  simp only [commandKeys, forall_mem_cons]
  exact ⟨required_plain (text_plain _ _) h1, required_plain exitCode_plain h2,
    optional_plain (text_plain _ _) h3, by simp⟩

theorem testSchema_plain : ReadsPlain testSchema := by
  intro v c h hu
  simp only [testSchema, Option.bind_eq_bind, Option.bind_eq_some_iff] at h
  obtain ⟨_, hs, _, h1, _, h2, _, h3, -⟩ := h
  refine strict_plain hs hu ?_
  simp only [testKeys, forall_mem_cons]
  exact ⟨required_plain (text_plain _ _) h1, required_plain (enum_plain _ _) h2,
    optional_plain (text_plain _ _) h3, by simp⟩

theorem commitSchema_plain : ReadsPlain commitSchema := by
  intro v c h hu
  simp only [commitSchema, Option.bind_eq_bind, Option.bind_eq_some_iff] at h
  obtain ⟨_, hs, _, h1, _, h2, _, h3, -⟩ := h
  refine strict_plain hs hu ?_
  simp only [commitKeys, forall_mem_cons]
  exact ⟨required_plain sha_plain h1, required_plain (text_plain _ _) h2,
    optional_plain (text_plain _ _) h3, by simp⟩

theorem completionBlockSchema_plain : ReadsPlain completionBlockSchema := by
  intro v b h hu
  simp only [completionBlockSchema, Option.bind_eq_bind, Option.bind_eq_some_iff] at h
  obtain ⟨_, hs, _, h1, _, h2, _, h3, _, h4, _, h5, _, h6, _, h7, _, h8, _, h9, -⟩ := h
  refine strict_plain hs hu ?_
  simp only [blockKeys, forall_mem_cons]
  exact ⟨required_plain schemaName_plain h1, required_plain (enum_plain _ _) h2,
    optional_plain (text_plain _ _) h3, optional_plain (array_plain commandSchema_plain _) h4,
    optional_plain (array_plain testSchema_plain _) h5, optional_plain (array_plain commitSchema_plain _) h6,
    optional_plain (array_plain (text_plain _ _) _) h7, optional_plain (array_plain (text_plain _ _) _) h8,
    optional_plain (text_plain _ _) h9, by simp⟩

end PiWebUi.Completion
