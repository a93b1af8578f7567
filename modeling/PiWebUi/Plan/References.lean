/-
  PiWebUi.Plan.References — what a dependency string refers to.

  The ids of a markdown plan's tasks are distinct, for the index in an id is read back from
  it (`generateTaskId_index`, `markdown_ids_nodup`). An id resolves to itself, and a string
  that is in no id and no title resolves by its number or not at all. Between the two
  stands the first task that contains the string, whatever else the string is: a title, a
  number or nothing. So a reference means what it says exactly if that task is the one it
  names (`reference_means_iff`).
-/

import PiWebUi.Plan.PlanParser

namespace PiWebUi.Plan

open Lib Lib.RegExp List Option

variable {toLowerCase : JsString → JsString}

/-! ## The ids of a markdown plan -/

theorem generateTaskId_ne_nil (title : JsString) (index : ℕ) : generateTaskId toLowerCase title index ≠ [] := by
  simp [generateTaskId, JsNumber.natText_ne_nil]

theorem generateTaskId_index {title title' : JsString} {i j : ℕ}
    (h : generateTaskId toLowerCase title i = generateTaskId toLowerCase title' j) : i = j := by
  simp only [generateTaskId, append_assoc] at h
  have htail := append_cancel_left h
  -- The digits of the index end at the first hyphen.
  have hdigits : ∀ (n : ℕ) (r : JsString),
      (JsNumber.natText n ++ (js "-" ++ r)).takeWhile isDigit = JsNumber.natText n := by
    intro n r
    rw [takeWhile_append_of_pos fun u hu => JsNumber.natText_digits hu]
    simp [js, utf16, isDigit]
  have hnumber := congrArg (List.takeWhile isDigit) htail
  rw [hdigits, hdigits] at hnumber
  have := JsNumber.natText_injective hnumber
  omega

/-- The tasks' ids are those of different indices below `n`. -/
structure Numbered (toLowerCase : JsString → JsString) (tasks : List TaskNode) (n : ℕ) : Prop where
  nodup : (tasks.map (·.id)).Nodup
  indexed : ∀ task ∈ tasks, ∃ i < n, ∃ title, task.id = generateTaskId toLowerCase title i

variable {tasks : List TaskNode} {d : JsString}

theorem Numbered.succ {n : ℕ} (h : Numbered toLowerCase tasks n) : Numbered toLowerCase tasks (n + 1) := by
  refine ⟨h.nodup, fun task ht => ?_⟩
  obtain ⟨i, hi, title, hid⟩ := h.indexed task ht
  exact ⟨i, by omega, title, hid⟩

theorem Numbered.concat {n : ℕ} (h : Numbered toLowerCase tasks n) {task : TaskNode}
    {title : JsString} (hid : task.id = generateTaskId toLowerCase title n) : Numbered toLowerCase (tasks ++ [task]) (n + 1) := by
  constructor
  · rw [map_append, map_singleton, nodup_append]
    refine ⟨h.nodup, by simp, ?_⟩
    rintro _ hmem _ hlast rfl
    obtain ⟨other, hother, hsame⟩ := mem_map.mp hmem
    obtain ⟨i, hi, title', hid'⟩ := h.indexed other hother
    rw [mem_singleton.mp hlast, hid, hid'] at hsame
    have := generateTaskId_index hsame
    omega
  · exact forall_mem_append.mpr ⟨h.succ.indexed, forall_mem_singleton.mpr ⟨n, by omega, title, hid⟩⟩

/-- The tasks that are saved are numbered, and the current one has the last index. -/
def MarkdownState.Indexed (toLowerCase : JsString → JsString) (s : MarkdownState) : Prop :=
  match s.currentTask with
  | none => Numbered toLowerCase s.tasks s.taskIndex
  | some task => ∃ n title, s.taskIndex = n + 1 ∧ task.id = generateTaskId toLowerCase title n ∧
      Numbered toLowerCase s.tasks n

theorem MarkdownState.Indexed.save {s : MarkdownState} (h : s.Indexed toLowerCase) : Numbered toLowerCase s.save s.taskIndex := by
  rw [MarkdownState.save]
  rw [MarkdownState.Indexed] at h
  cases htask : s.currentTask with
  | none => simpa only [htask] using h
  | some task =>
    simp only [htask] at h ⊢
    obtain ⟨n, title, hindex, hid, hnumbered⟩ := h
    rw [hindex]
    by_cases hempty : task.title = []
    · rw [if_pos hempty]
      exact hnumbered.succ
    · rw [if_neg hempty]
      exact hnumbered.concat hid

theorem MarkdownState.Indexed.line {s : MarkdownState} (h : s.Indexed toLowerCase) (line : JsString) :
    (markdownLine toLowerCase s line).Indexed toLowerCase := by
  rw [markdownLine]
  cases hheader : taskHeader.captures line with
  | some groups => exact ⟨s.taskIndex, trim (groups 2), rfl, rfl, h.save⟩
  | none =>
    cases htask : s.currentTask with
    | none => exact h
    | some task =>
      have hcurrent : ∃ n title, s.taskIndex = n + 1 ∧ task.id = generateTaskId toLowerCase title n ∧
          Numbered toLowerCase s.tasks n := by
        simpa only [MarkdownState.Indexed, htask] using h
      cases hdeps : dependsOn.captures line with
      | some groups => simpa only [MarkdownState.Indexed] using hcurrent
      | none => simpa only [MarkdownState.Indexed, htask] using hcurrent

theorem markdown_numbered (toLowerCase : JsString → JsString) (body : JsString) :
    ∃ n, Numbered toLowerCase (parseMarkdownTasks toLowerCase body) n := by
  have hrun : ∀ (ls : List JsString) (s : MarkdownState), s.Indexed toLowerCase →
      (ls.foldl (markdownLine toLowerCase) s).Indexed toLowerCase := by
    intro ls
    induction ls with
    | nil => intro s hs; exact hs
    | cons l ls ih => intro s hs; exact ih _ (hs.line l)
  have hstart : MarkdownState.Indexed toLowerCase {} := ⟨by simp, by simp⟩
  exact ⟨_, (hrun (lines body) {} hstart).save⟩

theorem markdown_ids_nodup (toLowerCase : JsString → JsString) (body : JsString) :
    ((parseMarkdownTasks toLowerCase body).map (·.id)).Nodup := by
  obtain ⟨n, hn⟩ := markdown_numbered toLowerCase body
  exact hn.nodup

/-! ## Resolution -/

/-- Distinct ids name distinct tasks. -/
theorem eq_of_id (hnodup : (tasks.map (·.id)).Nodup) {a b : TaskNode} (ha : a ∈ tasks)
    (hb : b ∈ tasks) (h : a.id = b.id) : a = b := inj_on_of_nodup_map hnodup ha hb h

theorem findTaskId_of_id (h : ∃ t ∈ tasks, t.id = d) : findTaskId toLowerCase tasks d = some d := by
  rw [findTaskId, if_pos (by simpa using h)]

theorem findTaskId_of_not_id (h : ¬ ∃ t ∈ tasks, t.id = d) : findTaskId toLowerCase tasks d = inexactMatch toLowerCase tasks d := by
  rw [findTaskId, if_neg (by simpa using h)]

theorem inexactMatch_of_first {task : TaskNode}
    (h : tasks.find? (contains toLowerCase d) = some task) : inexactMatch toLowerCase tasks d = some task.id := by
  rw [inexactMatch, h]

/-- What a string resolves to is the id of a task. -/
theorem findTaskId_mem {id : JsString} (h : findTaskId toLowerCase tasks d = some id) : ∃ t ∈ tasks, t.id = id := by
  by_cases hid : ∃ t ∈ tasks, t.id = d
  · rw [findTaskId_of_id hid] at h
    exact some.inj h ▸ hid
  · rw [findTaskId_of_not_id hid, inexactMatch] at h
    split at h
    · rename_i task hfind
      exact ⟨task, mem_of_find?_eq_some hfind, some.inj h⟩
    · split at h
      · cases h
      · cases h
      · obtain ⟨task, htask, hid⟩ := map_eq_some_iff.mp h
        exact ⟨task, mem_of_getElem? htask, hid⟩

/-- A task's title contains itself. -/
theorem contains_title {task : TaskNode} : contains toLowerCase task.title task = true := by
  simp [contains, includes_self]

/-! ## What a reference means -/

/-- The string is a task's id, its number or its title. -/
def Names (tasks : List TaskNode) (d : JsString) (task : TaskNode) : Prop :=
  task.id = d ∨ (∃ k, numberOf d = some (k + 1) ∧ tasks[k]? = some task) ∨ task.title = d

/-- Some task is named by the string, or contains it. -/
def Matches (toLowerCase : JsString → JsString) (tasks : List TaskNode) (d : JsString) : Prop :=
  ∃ task ∈ tasks, Names tasks d task ∨ contains toLowerCase d task = true

structure MeansWhatItSays (toLowerCase : JsString → JsString) (tasks : List TaskNode) (d : JsString) : Prop where
  id : ∀ task ∈ tasks, task.id = d → findTaskId toLowerCase tasks d = some task.id
  number : ∀ k task, numberOf d = some (k + 1) → tasks[k]? = some task →
    findTaskId toLowerCase tasks d = some task.id
  title : (∃ task ∈ tasks, task.title = d) → ∃ task ∈ tasks, task.title = d ∧
    findTaskId toLowerCase tasks d = some task.id
  nothing : d = [] ∨ ¬ Matches toLowerCase tasks d → findTaskId toLowerCase tasks d = none
  /-- A reference that names a task resolves to no task it does not name. -/
  named : (∃ task ∈ tasks, Names tasks d task) → ∀ task ∈ tasks,
    findTaskId toLowerCase tasks d = some task.id → Names tasks d task

/-- The task that is met first is one that every reading of the string names. -/
structure Meant (tasks : List TaskNode) (d : JsString) (met : TaskNode) : Prop where
  number : ∀ k task, numberOf d = some (k + 1) → tasks[k]? = some task → met = task
  title : (∃ task ∈ tasks, task.title = d) → met.title = d

/-- The task that has the string as its id, or else the first that contains it, is the one
    that is meant, and nothing contains the empty string. -/
structure Unambiguous (toLowerCase : JsString → JsString) (tasks : List TaskNode) (d : JsString) : Prop where
  id : ∀ met ∈ tasks, met.id = d → Meant tasks d met
  contained : (¬ ∃ task ∈ tasks, task.id = d) → ∀ met, tasks.find? (contains toLowerCase d) = some met →
    d ≠ [] ∧ Meant tasks d met

section

variable {tasks : List TaskNode} (hnodup : (tasks.map (·.id)).Nodup)
include hnodup

/-- Where a string resolves to a task, what holds of the reference is that the task is the
    one that is meant. -/
theorem Meant.of_means {d : JsString} (h : MeansWhatItSays toLowerCase tasks d) {met : TaskNode} (hmet : met ∈ tasks)
    (hfind : findTaskId toLowerCase tasks d = some met.id) : Meant tasks d met := by
  constructor
  · intro k task hk htask
    have hresolved := h.number k task hk htask
    rw [hfind, some.injEq] at hresolved
    exact eq_of_id hnodup hmet (mem_of_getElem? htask) hresolved
  · intro htitled
    obtain ⟨task, htask, htitle, hresolved⟩ := h.title htitled
    rw [hfind, some.injEq] at hresolved
    rw [eq_of_id hnodup hmet htask hresolved]
    exact htitle

theorem Meant.means {d : JsString} {met : TaskNode} (h : Meant tasks d met) (hmet : met ∈ tasks)
    (hfind : findTaskId toLowerCase tasks d = some met.id) (hempty : d ≠ []) (hmatches : Matches toLowerCase tasks d)
    (hid : ∀ task ∈ tasks, task.id = d → met = task) : MeansWhatItSays toLowerCase tasks d where
  id task htask h' := by rw [hfind, hid task htask h']
  number k task hk htask := by rw [hfind, h.number k task hk htask]
  title htitled := ⟨met, hmet, h.title htitled, hfind⟩
  nothing hnothing := by
    rcases hnothing with hnothing | hnothing
    · exact absurd hnothing hempty
    · exact absurd hmatches hnothing
  named hnamed task htask hresolved := by
    rw [hfind, some.injEq] at hresolved
    obtain rfl := eq_of_id hnodup hmet htask hresolved
    obtain ⟨other, hother, hid' | ⟨k, hk, hkth⟩ | htitle⟩ := hnamed
    · rw [hid other hother hid']
      exact .inl hid'
    · rw [h.number k other hk hkth]
      exact .inr (.inl ⟨k, hk, hkth⟩)
    · exact .inr (.inr (h.title ⟨other, hother, htitle⟩))

/-- A string that is in no id and no title resolves by its number alone. -/
theorem means_of_not_contained {d : JsString} (hid : ¬ ∃ task ∈ tasks, task.id = d)
    (hnone : tasks.find? (contains toLowerCase d) = none) : MeansWhatItSays toLowerCase tasks d := by
  have hfind := @findTaskId_of_not_id toLowerCase tasks d hid
  rw [inexactMatch, hnone] at hfind
  dsimp only at hfind
  rw [find?_eq_none] at hnone
  constructor
  · intro task htask h
    exact absurd ⟨task, htask, h⟩ hid
  · intro k task hk htask
    simp [hfind, hk, htask]
  · rintro ⟨task, htask, rfl⟩
    exact absurd contains_title (hnone task htask)
  · intro hnothing
    rw [hfind]
    cases hnumber : numberOf d with
    | none => rfl
    | some num =>
      cases num with
      | zero => rfl
      | succ k =>
        rcases hnothing with rfl | hnothing
        · simp [numberOf] at hnumber
        · simp only [map_eq_none_iff]
          by_contra hsome
          obtain ⟨task, htask⟩ := ne_none_iff_exists'.mp hsome
          exact hnothing ⟨task, mem_of_getElem? htask, .inl (.inr (.inl ⟨k, hnumber, htask⟩))⟩
  · intro _ task htask hresolved
    rw [hfind] at hresolved
    split at hresolved
    · cases hresolved
    · cases hresolved
    · rename_i k hnumber
      obtain ⟨kth, hkth, hsame⟩ := map_eq_some_iff.mp hresolved
      obtain rfl := eq_of_id hnodup (mem_of_getElem? hkth) htask hsame
      exact .inr (.inl ⟨k, hnumber, hkth⟩)

theorem means_iff_unambiguous (hids : ∀ task ∈ tasks, task.id ≠ []) (d : JsString) :
    MeansWhatItSays toLowerCase tasks d ↔ Unambiguous toLowerCase tasks d := by
  constructor
  · intro h
    constructor
    · intro met hmet hid
      exact Meant.of_means hnodup h hmet (h.id met hmet hid)
    · intro hid met hfirst
      have hmet := mem_of_find?_eq_some hfirst
      have hfind : findTaskId toLowerCase tasks d = some met.id := by rw [findTaskId_of_not_id hid, inexactMatch_of_first hfirst]
      refine ⟨fun hempty => ?_, Meant.of_means hnodup h hmet hfind⟩
      have hnothing := h.nothing (.inl hempty)
      rw [hfind] at hnothing
      cases hnothing
  · intro h
    by_cases hid : ∃ task ∈ tasks, task.id = d
    · obtain ⟨met, hmet, rfl⟩ := hid
      refine (h.id met hmet rfl).means hnodup hmet (findTaskId_of_id ⟨met, hmet, rfl⟩) (hids met hmet)
        ⟨met, hmet, .inl (.inl rfl)⟩ ?_
      intro task htask hsame
      exact eq_of_id hnodup hmet htask hsame.symm
    · cases hfirst : tasks.find? (contains toLowerCase d) with
      | none => exact means_of_not_contained hnodup hid hfirst
      | some met =>
        obtain ⟨hempty, hmeant⟩ := h.contained hid met hfirst
        have hmet := mem_of_find?_eq_some hfirst
        refine hmeant.means hnodup hmet (by rw [findTaskId_of_not_id hid, inexactMatch_of_first hfirst]) hempty
          ⟨met, hmet, .inr (find?_some hfirst)⟩ ?_
        intro task htask hsame
        exact absurd ⟨task, htask, hsame⟩ hid

end

/-- A string in a markdown plan, among its dependencies or not, resolves to what it says
    exactly if the task that has it as its id, or else the first task that contains it, is
    the one it names. -/
theorem reference_means_iff (toLowerCase : JsString → JsString) (body d : JsString) :
    MeansWhatItSays toLowerCase (parseMarkdownTasks toLowerCase body) d ↔
      Unambiguous toLowerCase (parseMarkdownTasks toLowerCase body) d := by
  obtain ⟨n, hn⟩ := markdown_numbered toLowerCase body
  refine means_iff_unambiguous hn.nodup (fun task htask => ?_) d
  obtain ⟨i, -, title, hid⟩ := hn.indexed task htask
  rw [hid]
  exact generateTaskId_ne_nil title i

/-! ## A reference that is caught -/

/-- `toLowerCase` of an ASCII text. -/
def asciiLower (text : JsString) : JsString := text.map lower

def setupPlan : JsString := js "## Setup 2 databases\n## Setup\n## Ship\ndepends on: Setup, 2,"

/-- Each of the last task's references is caught by the first task: the title of the second
    task, its number, and the empty piece after the last comma. -/
theorem setupPlan_caught : ∀ d ∈ [js "Setup", js "2", []],
    findTaskId asciiLower (parseMarkdownTasks asciiLower setupPlan) d = some (js "task-1-setup-2-databases") := by
  decide +kernel

theorem reference_caught : ¬ MeansWhatItSays asciiLower (parseMarkdownTasks asciiLower setupPlan) (js "Setup") ∧
    ¬ MeansWhatItSays asciiLower (parseMarkdownTasks asciiLower setupPlan) (js "2") ∧
    ¬ MeansWhatItSays asciiLower (parseMarkdownTasks asciiLower setupPlan) [] := by
  have hsecond : (parseMarkdownTasks asciiLower setupPlan)[1]? =
      some { id := js "task-2-setup", title := js "Setup" } := by decide +kernel
  have hother : js "task-1-setup-2-databases" ≠ js "task-2-setup" := by decide +kernel
  refine ⟨fun h => ?_, fun h => ?_, fun h => ?_⟩
  · -- Only the second task has the title.
    obtain ⟨task, htask, htitle, hresolved⟩ := h.title ⟨_, mem_of_getElem? hsecond, rfl⟩
    rw [setupPlan_caught _ (by simp), some.injEq] at hresolved
    have hall : (parseMarkdownTasks asciiLower setupPlan).all
        (fun t => t.id ≠ js "task-1-setup-2-databases" || t.title ≠ js "Setup") = true := by decide +kernel
    have hthis := all_eq_true.mp hall task htask
    simp [← hresolved, htitle] at hthis
  · have hresolved := h.number 1 _ (by decide +kernel) hsecond
    rw [setupPlan_caught _ (by simp), some.injEq] at hresolved
    exact hother hresolved
  · have hnone := h.nothing (.inl rfl)
    rw [setupPlan_caught _ (by simp)] at hnone
    cases hnone

end PiWebUi.Plan
