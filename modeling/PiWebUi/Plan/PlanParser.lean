/-
  PiWebUi.Plan.PlanParser — modular plans and what of them can run in parallel
  (server/src/pi/parallel/plan-parser.ts).

  A plan is written as markdown, where a header starts a task, or as a list of task
  objects. Tasks name what they depend on by strings, which `findTaskId` resolves for
  each of the three that need it: the graph's edges, the parallel groups and the
  validation.
-/

import PiWebUi.Lib.DepthFirst
import PiWebUi.Lib.JsMap
import PiWebUi.Lib.Levels
import PiWebUi.Lib.RegExp

namespace PiWebUi.Plan

open Lib Lib.RegExp

structure TaskNode where
  id : JsString
  title : JsString
  description : JsString := []
  dependencies : List JsString := []
  deriving DecidableEq

structure DependencyGraph where
  nodes : JsMap JsString TaskNode
  /-- The tasks that depend on a task. -/
  edges : JsMap JsString (List JsString)

structure ParsedPlan where
  tasks : List TaskNode
  dependencyGraph : DependencyGraph
  parallelGroups : List (List TaskNode)

/-! ## Tasks of a markdown plan -/

/-- `.`: no line terminator. -/
def dot : Pattern := .unit fun u => u ≠ 10 && u ≠ 13 && u ≠ 0x2028 && u ≠ 0x2029

/-- `/^#{2,4}\s*(?:Task\s*)?(\d+\.?\s*)?(.+)$/i` -/
def taskHeader : Pattern := .cat [
  .start, .among "#", .among "#", .opt (.seq (.among "#") (.opt (.among "#"))), .star .space,
  .opt (.seq (.word "Task") (.star .space)),
  .opt (.group 1 (.cat [.plus (.unit isDigit), .opt (.among "."), .star .space])),
  .group 2 (.plus dot), .finish]

/-- `/(?:depends\s*(?:on)?|dependencies?):\s*(.+)$/i` -/
def dependsOn : Pattern := .cat [
  .oneOf [.cat [.word "depends", .star .space, .opt (.word "on")], .seq (.word "dependencie") (.opt (.word "s"))],
  .among ":", .star .space, .group 1 (.plus dot), .finish]

/-- `/^["']|["']$/g` -/
def quote : Pattern := .oneOf [.seq .start (.among "\"'"), .seq (.among "\"'") .finish]

/-- `text.split(/[…]/)`, the separators single units. -/
def splitAt (separates : UInt16 → Bool) : JsString → List JsString
  | [] => [[]]
  | u :: r =>
    if separates u then [] :: splitAt separates r
    else match splitAt separates r with
      | [] => [[u]]
      | piece :: pieces => (u :: piece) :: pieces

variable (toLowerCase : JsString → JsString)

def sanitized (title : JsString) : JsString :=
  let kept := (toLowerCase title).filter fun u => (97 ≤ u && u ≤ 122) || isDigit u || isWhiteSpace u
  (((Pattern.plus .space).replace (fun _ _ => (js "-", [])) kept).1).take 30

def generateTaskId (title : JsString) (index : ℕ) : JsString :=
  js "task-" ++ JsNumber.natText (index + 1) ++ js "-" ++ sanitized toLowerCase title

/-- The dependencies that a line lists. -/
def listedDependencies (listed : JsString) : List JsString :=
  (splitAt (fun u => u = 44 || u = 59) listed).map fun d => (quote.replace (fun _ _ => ([], [])) (trim d)).1

structure MarkdownState where
  tasks : List TaskNode := []
  currentTask : Option TaskNode := none
  taskIndex : ℕ := 0
  currentSection : List JsString := []

/-- The current task goes to the list, unless it has no title. -/
def MarkdownState.save (s : MarkdownState) : List TaskNode :=
  match s.currentTask with
  | none => s.tasks
  | some task =>
    if task.title = [] then s.tasks
    else s.tasks ++ [{ task with description := trim (joinLines s.currentSection) }]

def markdownLine (s : MarkdownState) (line : JsString) : MarkdownState :=
  match taskHeader.captures line with
  | some groups =>
    let title := trim (groups 2)
    { tasks := s.save
      currentTask := some { id := generateTaskId toLowerCase title s.taskIndex, title := title }
      taskIndex := s.taskIndex + 1 }
  | none =>
    match s.currentTask with
    | none => s
    | some task =>
      match dependsOn.captures line with
      | some groups => { s with currentTask := some { task with dependencies := listedDependencies (groups 1) } }
      | none => { s with currentSection := s.currentSection ++ [line] }

def parseMarkdownTasks (body : JsString) : List TaskNode := ((lines body).foldl (markdownLine toLowerCase) {}).save

/-! ## Tasks of a JSON plan -/

structure JsonTask where
  id : Option JsString := none
  title : Option JsString := none
  description : Option JsString := none
  task : Option JsString := none
  dependencies : Option (List JsString) := none
  dependsOn : Option (List JsString) := none

/-- `text || fallback` -/
def textOr (text : Option JsString) (fallback : JsString) : JsString := (text.filter (· ≠ [])).getD fallback

def jsonTask (task : JsonTask) (index : ℕ) : TaskNode :=
  let title := textOr task.title (js "Task " ++ JsNumber.natText (index + 1))
  { id := textOr task.id (generateTaskId toLowerCase title index)
    title := title
    description := textOr task.description (textOr task.task [])
    dependencies := (task.dependencies.or task.dependsOn).getD [] }

def parseJsonTasks (json : List JsonTask) : List TaskNode := json.mapIdx fun index task => jsonTask toLowerCase task index

/-! ## The graph -/

/-- The number that a string of digits writes (`/^(\d+)$/`). -/
def numberOf (text : JsString) : Option ℕ :=
  if text ≠ [] ∧ text.all isDigit then some (JsNumber.digitsValue text) else none

/-- The task's id or title contains the string, in any case. -/
def contains (partialId : JsString) (task : TaskNode) : Bool :=
  includes (toLowerCase task.id) (toLowerCase partialId) || includes (toLowerCase task.title) (toLowerCase partialId)

/-- The partial match, then the number match. -/
def inexactMatch (tasks : List TaskNode) (partialId : JsString) : Option JsString :=
  match tasks.find? (contains toLowerCase partialId) with
  | some task => some task.id
  | none =>
    match numberOf partialId with
    | none | some 0 => none
    | some (num + 1) => tasks[num]?.map (·.id)

def findTaskId (tasks : List TaskNode) (partialId : JsString) : Option JsString :=
  if tasks.any (·.id = partialId) then some partialId else inexactMatch toLowerCase tasks partialId

/-- `findTaskId(tasks, depId)` as a condition: an empty id does not count. -/
def resolve (tasks : List TaskNode) (depId : JsString) : Option JsString :=
  (findTaskId toLowerCase tasks depId).filter (· ≠ [])

def addNode (graph : DependencyGraph) (task : TaskNode) : DependencyGraph :=
  { nodes := graph.nodes.set task.id task
    edges := graph.edges.set task.id [] }

def addEdge (taskId : JsString) (edges : JsMap JsString (List JsString)) (actualDepId : JsString) :
    JsMap JsString (List JsString) :=
  match edges.get actualDepId with
  | none => edges
  | some dependents => edges.set actualDepId (dependents ++ [taskId])

def addEdges (tasks : List TaskNode) (graph : DependencyGraph) (task : TaskNode) : DependencyGraph :=
  { graph with edges := (task.dependencies.filterMap (resolve toLowerCase tasks)).foldl (addEdge task.id) graph.edges }

def buildDependencyGraph (tasks : List TaskNode) : DependencyGraph :=
  tasks.foldl (addEdges toLowerCase tasks) (tasks.foldl addNode { nodes := .empty, edges := .empty })

/-! ## The parallel groups -/

/-- The ids that a task's dependencies resolve to among the nodes. -/
def validDeps (graph : DependencyGraph) (taskId : JsString) : List JsString :=
  match graph.nodes.get taskId with
  | none => []
  | some task => task.dependencies.filterMap (findTaskId toLowerCase graph.nodes.values)

def allDepsProcessed (graph : DependencyGraph) (processed : List JsString) (taskId : JsString) : Bool :=
  (validDeps toLowerCase graph taskId).all fun depId => processed.contains depId || !graph.nodes.has depId

def analyzeParallelizability (graph : DependencyGraph) : List (List TaskNode) :=
  (levels (allDepsProcessed toLowerCase graph) [] graph.nodes.keys).map fun level => level.filterMap graph.nodes.get

/-- What a plan is parsed from. -/
inductive Source
  | markdown (body : JsString)
  | json (tasks : List JsonTask)

def parseTasks : Source → List TaskNode
  | .markdown body => parseMarkdownTasks toLowerCase body
  | .json tasks => parseJsonTasks toLowerCase tasks

def parsePlanContent (source : Source) : ParsedPlan :=
  let tasks := parseTasks toLowerCase source
  let dependencyGraph := buildDependencyGraph toLowerCase tasks
  { tasks := tasks
    dependencyGraph := dependencyGraph
    parallelGroups := analyzeParallelizability toLowerCase dependencyGraph }

/-! ## The validation -/

inductive Issue
  | noTasks
  | circular (title : JsString)
  | missing (title depId : JsString)
  deriving DecidableEq

def Issue.text : Issue → JsString
  | noTasks => js "Plan has no tasks"
  | circular title => js "Circular dependency detected involving task: " ++ title
  | missing title depId => js "Task \"" ++ title ++ js "\" has missing dependency: " ++ depId

/-- The ids that `hasCycle` goes on to from a task. -/
def nextIds (plan : ParsedPlan) (taskId : JsString) : List JsString :=
  match plan.dependencyGraph.nodes.get taskId with
  | none => []
  | some task => task.dependencies.filterMap (resolve toLowerCase plan.tasks)

/-- The first task for which `hasCycle` is true; the recursion never goes deeper than there
    are tasks. -/
def firstInCycle (plan : ParsedPlan) : Option (Option TaskNode) :=
  DepthFirst.search (nextIds toLowerCase plan) (plan.tasks.length + 1) TaskNode.id plan.tasks {}

def missingDependencies (tasks : List TaskNode) : List Issue :=
  tasks.flatMap fun task =>
    (task.dependencies.filter fun depId => (resolve toLowerCase tasks depId).isNone).map (.missing task.title)

/-- The issues; the plan is valid if there are none. -/
def validatePlan (plan : ParsedPlan) : Option (Bool × List Issue) :=
  (firstInCycle toLowerCase plan).map fun found =>
    let issues := (if plan.tasks = [] then [.noTasks] else []) ++ (found.map (.circular ·.title)).toList ++
      missingDependencies toLowerCase plan.tasks
    (issues.isEmpty, issues)

end PiWebUi.Plan
