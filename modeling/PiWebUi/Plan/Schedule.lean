/-
  PiWebUi.Plan.Schedule — the parallel groups and the check for circular dependencies.

  The groups are the levels of `Lib.Levels` over the ids of the graph, and the check is the
  search of `Lib.DepthFirst`. Both go by ids, and the graph keeps one task of each id: the
  last, at the first one's place. So the groups hold every task exactly if no two have the
  same id, and then the ids' edges are the tasks' dependencies, the search finds a cycle
  exactly if these have one, and without one every level comes after what it needs
  (`schedule_iff`).
-/

import PiWebUi.Plan.References

namespace PiWebUi.Plan

open Lib Lib.RegExp List
open Lib.DepthFirst (Edge)
open Relation (TransGen)

variable {toLowerCase : JsString → JsString}

/-! ## The tasks that are parsed -/

theorem textOr_ne_nil {text : Option JsString} {fallback : JsString} (h : fallback ≠ []) : textOr text fallback ≠ [] := by
  rw [textOr]
  cases hfilter : text.filter (· ≠ []) with
  | none => exact h
  | some t =>
    have hne := (Option.filter_eq_some_iff.mp hfilter).2
    simpa using hne

theorem parseTasks_id_ne_nil (toLowerCase : JsString → JsString) (source : Source) :
    ∀ task ∈ parseTasks toLowerCase source, task.id ≠ [] := by
  intro task htask
  cases source with
  | markdown body =>
    obtain ⟨n, hn⟩ := markdown_numbered toLowerCase body
    obtain ⟨i, -, title, hid⟩ := hn.indexed task htask
    rw [hid]
    exact generateTaskId_ne_nil title i
  | json tasks =>
    obtain ⟨i, hi, rfl⟩ := mem_mapIdx.mp htask
    exact textOr_ne_nil (generateTaskId_ne_nil _ _)

/-! ## The nodes of the graph -/

/-- Every node is a task under its id. -/
structure NodesOf (tasks : List TaskNode) (nodes : JsMap JsString TaskNode) : Prop where
  task : ∀ id task, nodes.get id = some task → task ∈ tasks ∧ task.id = id
  has : ∀ task ∈ tasks, nodes.has task.id = true

theorem addEdges_nodes (tasks all : List TaskNode) (graph : DependencyGraph) :
    (tasks.foldl (addEdges toLowerCase all) graph).nodes = graph.nodes := by
  induction tasks generalizing graph with
  | nil => rfl
  | cons task tasks ih => rw [foldl_cons, ih, addEdges]

theorem buildDependencyGraph_nodes (tasks : List TaskNode) : (buildDependencyGraph toLowerCase tasks).nodes =
      (tasks.foldl addNode { nodes := .empty, edges := .empty }).nodes := addEdges_nodes tasks tasks _

theorem nodesOf_foldl : ∀ (tasks before : List TaskNode) (graph : DependencyGraph), NodesOf before graph.nodes →
    NodesOf (before ++ tasks) (tasks.foldl addNode graph).nodes := by
  intro tasks
  induction tasks with
  | nil => intro before graph h; simpa using h
  | cons task tasks ih =>
    intro before graph h
    have hstep : NodesOf (before ++ [task]) (addNode graph task).nodes := by
      constructor
      · intro id other hget
        rw [addNode, JsMap.get_set] at hget
        split at hget
        · rename_i hid
          obtain rfl := Option.some.inj hget
          exact ⟨by simp, hid.symm⟩
        · obtain ⟨hmem, hid⟩ := h.task id other hget
          exact ⟨mem_append_left _ hmem, hid⟩
      · intro other hother
        rw [addNode, JsMap.has_set]
        rcases mem_append.mp hother with hother | hother
        · exact .inr (h.has other hother)
        · rw [mem_singleton.mp hother]
          exact .inl rfl
    have hrest := ih (before ++ [task]) (addNode graph task) hstep
    rwa [append_assoc, singleton_append] at hrest

theorem nodesOf_graph (toLowerCase : JsString → JsString) (tasks : List TaskNode) :
    NodesOf tasks (buildDependencyGraph toLowerCase tasks).nodes := by
  have h := nodesOf_foldl tasks [] { nodes := .empty, edges := .empty }
    ⟨fun id task h => by simp at h, fun task h => by simp at h⟩
  rw [buildDependencyGraph_nodes]
  simpa using h

/-- Tasks with distinct ids all stay, in their order. -/
theorem foldl_addNode_entries : ∀ (tasks : List TaskNode) (graph : DependencyGraph), (tasks.map (·.id)).Nodup →
    (∀ task ∈ tasks, graph.nodes.has task.id = false) →
    (tasks.foldl addNode graph).nodes.entries = graph.nodes.entries ++ tasks.map fun t => (t.id, t) := by
  intro tasks
  induction tasks with
  | nil => intro graph _ _; simp
  | cons task tasks ih =>
    intro graph hnodup hfresh
    rw [map_cons, nodup_cons] at hnodup
    have hrest : ∀ other ∈ tasks, (addNode graph task).nodes.has other.id = false := by
      intro other hother
      rw [addNode, Bool.eq_false_iff, ne_eq, JsMap.has_set]
      rintro (hsame | hhas)
      · exact hnodup.1 (hsame ▸ mem_map_of_mem hother)
      · rw [hfresh other (mem_cons_of_mem task hother)] at hhas
        cases hhas
    rw [foldl_cons, ih (addNode graph task) hnodup.2 hrest, addNode,
      JsMap.set_entries_of_not_has (hfresh task mem_cons_self)]
    simp

variable {tasks : List TaskNode}

theorem graph_entries (hnodup : (tasks.map (·.id)).Nodup) :
    (buildDependencyGraph toLowerCase tasks).nodes.entries = tasks.map fun t => (t.id, t) := by
  rw [buildDependencyGraph_nodes, foldl_addNode_entries tasks _ hnodup (fun _ _ => rfl)]
  rfl

theorem graph_values (hnodup : (tasks.map (·.id)).Nodup) : (buildDependencyGraph toLowerCase tasks).nodes.values = tasks := by
  rw [JsMap.values, graph_entries hnodup, List.map_map]
  exact List.map_id tasks

theorem NodesOf.get {nodes : JsMap JsString TaskNode} (h : NodesOf tasks nodes)
    (hnodup : (tasks.map (·.id)).Nodup) {task : TaskNode} (htask : task ∈ tasks) : nodes.get task.id = some task := by
  obtain ⟨other, hother⟩ := Option.isSome_iff_exists.mp (JsMap.has_iff_get.mp (h.has task htask))
  obtain ⟨hmem, hid⟩ := h.task task.id other hother
  rw [hother, eq_of_id hnodup hmem htask hid]

/-! ## The groups -/

theorem keys_filterMap_get (m : JsMap JsString TaskNode) : m.keys.filterMap m.get = m.values := by
  rw [JsMap.keys, JsMap.values, filterMap_map, ← filterMap_eq_map]
  apply filterMap_congr
  intro e he
  exact JsMap.get_of_mem he

/-- The groups are the graph's nodes. -/
theorem groups_perm (graph : DependencyGraph) : (analyzeParallelizability toLowerCase graph).flatten.Perm graph.nodes.values := by
  rw [analyzeParallelizability, ← keys_filterMap_get]
  change (List.map (List.filterMap graph.nodes.get) _).flatten.Perm _
  rw [← filterMap_flatten]
  exact (levels_perm [] graph.nodes.keys).filterMap graph.nodes.get

/-- The graph has one task of each id. -/
theorem NodesOf.values_nodup {nodes : JsMap JsString TaskNode} (h : NodesOf tasks nodes) : (nodes.values.map (·.id)).Nodup := by
  have hkeys : nodes.values.map (·.id) = nodes.keys := by
    rw [JsMap.values, JsMap.keys, List.map_map]
    apply map_congr_left
    intro e he
    exact (h.task e.1 e.2 (JsMap.get_of_mem he)).2
  rw [hkeys]
  exact nodes.nodup_keys

/-! ## Dependencies -/

/-- A dependency of the task resolves to the other task. -/
def DependsOn (toLowerCase : JsString → JsString) (tasks : List TaskNode) (a b : TaskNode) : Prop :=
  a ∈ tasks ∧ b ∈ tasks ∧ ∃ d ∈ a.dependencies, findTaskId toLowerCase tasks d = some b.id

/-- `DependsOn`, of the ids. -/
def IdDependsOn (toLowerCase : JsString → JsString) (tasks : List TaskNode) (i j : JsString) : Prop :=
  ∃ a b, a.id = i ∧ b.id = j ∧ DependsOn toLowerCase tasks a b

section

variable {tasks : List TaskNode} (hnodup : (tasks.map (·.id)).Nodup)
include hnodup

theorem mem_validDeps {i j : JsString} :
    j ∈ validDeps toLowerCase (buildDependencyGraph toLowerCase tasks) i ↔ IdDependsOn toLowerCase tasks i j := by
  have hnodes := nodesOf_graph toLowerCase tasks
  rw [validDeps, graph_values hnodup]
  constructor
  · intro h
    cases hget : (buildDependencyGraph toLowerCase tasks).nodes.get i with
    | none => simp [hget] at h
    | some a =>
      obtain ⟨ha, hid⟩ := hnodes.task i a hget
      obtain ⟨d, hd, hfind⟩ := mem_filterMap.mp (by simpa only [hget] using h)
      obtain ⟨b, hb, hbid⟩ := findTaskId_mem hfind
      exact ⟨a, b, hid, hbid, ha, hb, d, hd, by rw [hfind, hbid]⟩
  · rintro ⟨a, b, rfl, rfl, ha, -, d, hd, hfind⟩
    rw [hnodes.get hnodup ha]
    exact mem_filterMap.mpr ⟨d, hd, hfind⟩

theorem mem_nextIds (hids : ∀ task ∈ tasks, task.id ≠ []) {plan : ParsedPlan} (htasks : plan.tasks = tasks)
    (hgraph : plan.dependencyGraph = buildDependencyGraph toLowerCase tasks) {i j : JsString} :
    j ∈ nextIds toLowerCase plan i ↔ IdDependsOn toLowerCase tasks i j := by
  rw [← mem_validDeps hnodup, nextIds, validDeps, hgraph, htasks, graph_values hnodup]
  cases (buildDependencyGraph toLowerCase tasks).nodes.get i with
  | none => rfl
  | some a =>
    simp only [mem_filterMap, resolve, Option.filter_eq_some_iff]
    constructor
    · rintro ⟨d, hd, hfind, -⟩
      exact ⟨d, hd, hfind⟩
    · rintro ⟨d, hd, hfind⟩
      obtain ⟨b, hb, rfl⟩ := findTaskId_mem hfind
      exact ⟨d, hd, hfind, by simpa using hids b hb⟩

theorem idDependsOn_lift {i j : JsString} (h : TransGen (IdDependsOn toLowerCase tasks) i j) :
    ∃ a b, a.id = i ∧ b.id = j ∧ TransGen (DependsOn toLowerCase tasks) a b ∧ a ∈ tasks ∧ b ∈ tasks := by
  induction h with
  | single h =>
    obtain ⟨a, b, ha, hb, hdep⟩ := h
    exact ⟨a, b, ha, hb, .single hdep, hdep.1, hdep.2.1⟩
  | tail _ h ih =>
    obtain ⟨a, b, ha, hb, hpath, hat, hbt⟩ := ih
    obtain ⟨b', c, hb', hc, hdep⟩ := h
    obtain rfl := eq_of_id hnodup hbt hdep.1 (hb.trans hb'.symm)
    exact ⟨a, c, ha, hc, hpath.tail hdep, hat, hdep.2.1⟩

/-- The ids' dependencies have a cycle exactly if the tasks' have one. -/
theorem idDependsOn_cycle_iff :
    (∃ i, TransGen (IdDependsOn toLowerCase tasks) i i) ↔ ∃ a, TransGen (DependsOn toLowerCase tasks) a a := by
  constructor
  · rintro ⟨i, h⟩
    obtain ⟨a, b, ha, hb, hpath, hat, hbt⟩ := idDependsOn_lift hnodup h
    obtain rfl := eq_of_id hnodup hat hbt (ha.trans hb.symm)
    exact ⟨a, hpath⟩
  · rintro ⟨a, h⟩
    exact ⟨a.id, h.lift TaskNode.id fun a b hab => ⟨a, b, rfl, rfl, hab⟩⟩

theorem firstInCycle_iff (hids : ∀ task ∈ tasks, task.id ≠ []) {plan : ParsedPlan} (htasks : plan.tasks = tasks)
    (hgraph : plan.dependencyGraph = buildDependencyGraph toLowerCase tasks) : ∃ found, firstInCycle toLowerCase plan = some found ∧
      (found.isSome ↔ ∃ a, TransGen (DependsOn toLowerCase tasks) a a) := by
  have hedge : ∀ i j, Edge (nextIds toLowerCase plan) i j ↔ IdDependsOn toLowerCase tasks i j :=
    fun i j => mem_nextIds hnodup hids htasks hgraph
  have hnodes : ∀ i, ∀ j ∈ nextIds toLowerCase plan i, i ∈ tasks.map (·.id) ∧ j ∈ tasks.map (·.id) := by
    intro i j hj
    obtain ⟨a, b, rfl, rfl, hdep⟩ := (hedge i j).mp hj
    exact ⟨mem_map_of_mem hdep.1, mem_map_of_mem hdep.2.1⟩
  obtain ⟨found, hfound, hcycle⟩ := @DepthFirst.search_iff _ _ _ (nextIds toLowerCase plan) (tasks.length + 1) _ hnodes
    TaskNode.id tasks (fun i => mem_map) (by simp)
  refine ⟨found, by rw [firstInCycle, htasks]; exact hfound, ?_⟩
  rw [hcycle, ← idDependsOn_cycle_iff hnodup]
  have hsame : Edge (nextIds toLowerCase plan) = IdDependsOn toLowerCase tasks :=
    funext fun i => funext fun j => propext (hedge i j)
  rw [hsame]

/-- Without a cycle, a task's group comes after the groups of the tasks it depends on. -/
theorem groups_ordered (hacyclic : ¬ ∃ a, TransGen (DependsOn toLowerCase tasks) a a) (i : ℕ) (group : List TaskNode)
    (hgroup : (analyzeParallelizability toLowerCase (buildDependencyGraph toLowerCase tasks))[i]? = some group)
    {a b : TaskNode} (ha : a ∈ group) (hdep : DependsOn toLowerCase tasks a b) : ∃ j < i, ∃ earlier,
      (analyzeParallelizability toLowerCase (buildDependencyGraph toLowerCase tasks))[j]? = some earlier ∧ b ∈ earlier := by
  have hnodes := nodesOf_graph toLowerCase tasks
  have hdeps : ∀ i j, j ∈ validDeps toLowerCase (buildDependencyGraph toLowerCase tasks) i →
      i ∈ (buildDependencyGraph toLowerCase tasks).nodes.keys ∧
        (buildDependencyGraph toLowerCase tasks).nodes.has j = true := by
    intro i j hj
    obtain ⟨s, t, rfl, rfl, hst⟩ := (mem_validDeps hnodup).mp hj
    exact ⟨JsMap.has_iff.mp (hnodes.has s hst.1), hnodes.has t hst.2.1⟩
  have hready : ∀ p i, allDepsProcessed toLowerCase (buildDependencyGraph toLowerCase tasks) p i = true ↔
      ∀ j ∈ validDeps toLowerCase (buildDependencyGraph toLowerCase tasks) i, j ∈ p := by
    intro p i
    rw [allDepsProcessed, all_eq_true]
    constructor
    · intro h j hj
      simpa [(hdeps i j hj).2] using h j hj
    · intro h j hj
      simp [h j hj]
  have hwf : WellFounded fun j i => j ∈ validDeps toLowerCase (buildDependencyGraph toLowerCase tasks) i := by
    refine wellFounded_of_acyclic (buildDependencyGraph toLowerCase tasks).nodes.keys
      (fun i j hj => JsMap.has_iff.mp (hdeps i j hj).2) (fun i hcycle => hacyclic ?_)
    rw [← idDependsOn_cycle_iff hnodup]
    exact ⟨i, TransGen.mono (fun s t h => (mem_validDeps hnodup).mp h) i i hcycle⟩
  rw [analyzeParallelizability, getElem?_map, Option.map_eq_some_iff] at hgroup
  obtain ⟨level, hlevel, rfl⟩ := hgroup
  obtain ⟨id, hid, hget⟩ := mem_filterMap.mp ha
  obtain ⟨-, rfl⟩ := hnodes.task id a hget
  have hneeds := (mem_validDeps hnodup).mpr ⟨a, b, rfl, rfl, hdep⟩
  have hcover : ∀ i ∈ (buildDependencyGraph toLowerCase tasks).nodes.keys,
      ∀ j ∈ validDeps toLowerCase (buildDependencyGraph toLowerCase tasks) i,
        j ∈ [] ∨ j ∈ (buildDependencyGraph toLowerCase tasks).nodes.keys :=
    fun i _ j hj => .inr (JsMap.has_iff.mp (hdeps i j hj).2)
  rcases levels_ordered hready hwf [] _ hcover i level hlevel a.id hid b.id hneeds with h | ⟨j, hj, earlier, he, hb⟩
  · simp at h
  · refine ⟨j, hj, earlier.filterMap (buildDependencyGraph toLowerCase tasks).nodes.get, ?_, ?_⟩
    · rw [analyzeParallelizability, getElem?_map, he]
      rfl
    · exact mem_filterMap.mpr ⟨b.id, hb, hnodes.get hnodup hdep.2.1⟩

end

/-! ## The schedule -/

/-- The validation reports a circular dependency. -/
def ReportsCircular (toLowerCase : JsString → JsString) (plan : ParsedPlan) : Prop :=
  ∃ valid issues title, validatePlan toLowerCase plan = some (valid, issues) ∧ Issue.circular title ∈ issues

structure RespectsDependencies (toLowerCase : JsString → JsString) (plan : ParsedPlan) : Prop where
  complete : plan.parallelGroups.flatten.Perm plan.tasks
  validated : ∃ result, validatePlan toLowerCase plan = some result
  circular : ReportsCircular toLowerCase plan ↔ ∃ a, TransGen (DependsOn toLowerCase plan.tasks) a a
  ordered : ¬ ReportsCircular toLowerCase plan → ∀ (i : ℕ) (group : List TaskNode),
    plan.parallelGroups[i]? = some group → ∀ a ∈ group, ∀ b, DependsOn toLowerCase plan.tasks a b →
      ∃ j < i, ∃ earlier, plan.parallelGroups[j]? = some earlier ∧ b ∈ earlier

theorem reportsCircular_iff {plan : ParsedPlan} {found : Option TaskNode}
    (h : firstInCycle toLowerCase plan = some found) : ReportsCircular toLowerCase plan ↔ found.isSome := by
  rw [ReportsCircular, validatePlan, h]
  constructor
  · rintro ⟨valid, issues, title, hresult, hmem⟩
    obtain ⟨-, rfl⟩ := Prod.mk.inj (Option.some.inj hresult)
    by_contra hnone
    rw [Option.not_isSome_iff_eq_none] at hnone
    subst hnone
    simp only [missingDependencies, Option.map_none, Option.toList_none, append_nil, mem_append, mem_flatMap,
      mem_map] at hmem
    rcases hmem with hmem | ⟨task, -, d, -, hissue⟩
    · split at hmem <;> simp at hmem
    · cases hissue
  · intro hsome
    obtain ⟨task, rfl⟩ := Option.isSome_iff_exists.mp hsome
    exact ⟨_, _, task.title, rfl, by simp⟩

/-- Groups that hold every task leave none out for another's id. -/
theorem ids_nodup_of_complete {source : Source}
    (h : (parsePlanContent toLowerCase source).parallelGroups.flatten.Perm (parsePlanContent toLowerCase source).tasks) :
    ((parseTasks toLowerCase source).map (·.id)).Nodup := by
  have hperm : (parseTasks toLowerCase source).Perm _ := h.symm.trans (groups_perm _)
  exact (hperm.map (·.id)).nodup_iff.mpr (nodesOf_graph toLowerCase _).values_nodup

/-- The groups, the check and the order of a parsed plan are right exactly if no two of its
    tasks have the same id. -/
theorem schedule_iff (toLowerCase : JsString → JsString) (source : Source) :
    RespectsDependencies toLowerCase (parsePlanContent toLowerCase source) ↔
      ((parseTasks toLowerCase source).map (·.id)).Nodup := by
  have hids := parseTasks_id_ne_nil toLowerCase source
  constructor
  · intro h
    exact ids_nodup_of_complete h.complete
  · intro hnodup
    obtain ⟨found, hfound, hcycle⟩ := @firstInCycle_iff toLowerCase _ hnodup hids
      (parsePlanContent toLowerCase source) rfl rfl
    have hreports := reportsCircular_iff hfound
    constructor
    · have hperm := @groups_perm toLowerCase (buildDependencyGraph toLowerCase (parseTasks toLowerCase source))
      rwa [graph_values hnodup] at hperm
    · exact ⟨_, by rw [validatePlan, hfound]; rfl⟩
    · rw [hreports, hcycle]
      rfl
    · intro hnone i group hgroup a ha b hdep
      rw [hreports, hcycle] at hnone
      exact groups_ordered hnodup hnone i group hgroup ha hdep

def sameIds : Source := .json [{ id := some (js "a"), title := some (js "One") }, { id := some (js "a"), title := some (js "Two") }]

/-- Of two tasks with one id, the first is in no group. -/
theorem task_in_no_group : ¬ RespectsDependencies asciiLower (parsePlanContent asciiLower sameIds) := by
  intro h
  have hnodup := ids_nodup_of_complete h.complete
  revert hnodup
  decide +kernel

end PiWebUi.Plan
