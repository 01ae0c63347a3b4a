import Qraft.Graphs.Plan
import Qraft.Scheduler

/-! The transactions of `qraft.graphs` on the rows of one graph. Each runs under the
graph row's lock, so it is one function from the rows before to the rows after. -/
namespace Qraft

/-- What a transaction did, in order. Rows forget this; no function reads it. -/
inductive JournalEntry where
  /-- `QraftTask.objects.create` for a node in one of its generations. -/
  | taskCreated (key : String) (generation : Nat) (task : TaskId)
  /-- An outcome written on a node by the completion of a task. -/
  | outcomeRecorded (key : String) (generation : Nat) (task : TaskId) (outcome : NodeStatus)
  /-- A settlement of the graph, with the node statuses it settled on. -/
  | graphSettled (generation : Nat) (outcome : GraphStatus) (nodes : List (String × NodeStatus))
  /-- The last `return None` of `_maybe_settle`. -/
  | fellThrough
  /-- A receipt committed by `publish()`. -/
  | published (key : String) (generation : Nat) (task : TaskId) (attempt : AttemptId)
      (receipt : JsonDict)

abbrev NodeTable := List QraftGraphNode

namespace NodeTable

/-- `filter(key=k).first()`. -/
def node? (nodes : NodeTable) (key : String) : Option QraftGraphNode :=
  Rows.get? (fun n : QraftGraphNode => n.key) nodes key

/-- The order `("depth", "position")`. -/
def ordered (nodes : NodeTable) : NodeTable :=
  nodes.insertionSort fun a b => a.depth < b.depth ∨ (a.depth = b.depth ∧ a.position ≤ b.position)

def statuses (nodes : NodeTable) : List (String × NodeStatus) :=
  nodes.ordered.map fun n => (n.key, n.status)

/-- `settled.get(dep) in (SUCCEEDED, SKIPPED)`. -/
def depMet (nodes : NodeTable) (dep : String) : Bool :=
  nodes.any fun n => n.key = dep && decide n.status.Met

def readyNodes (nodes : NodeTable) : NodeTable :=
  (ordered (nodes.filter fun n => n.status = .pending)).filter fun n => n.after.all nodes.depMet

/-- Which return of `_maybe_settle` the node statuses select. -/
inductive Quiescence where
  | busy
  | settle (status : GraphStatus)
  | park
  | fallThrough
  deriving DecidableEq, Repr

/-- The case distinction of `_maybe_settle`. -/
def quiescence (nodes : NodeTable) : Quiescence :=
  let statuses := nodes.map fun n => n.status
  if (.running ∈ statuses ∨ .pending ∈ statuses) ∧
      (.running ∈ statuses ∨ nodes.readyNodes ≠ []) then .busy
  else if .failed ∈ statuses then .settle .failed
  else if .cancelled ∈ statuses then .settle .cancelled
  else if .waitingApproval ∈ statuses then .park
  else if ∀ st ∈ statuses, st.Met then .settle .succeeded
  else .fallThrough

/-- Nodes that name `key` among their dependencies, in table order. -/
def dependents (nodes : NodeTable) (key : String) : List String :=
  nodes.flatMap fun n => (n.after.filter fun dep => dep = key).map fun _ => n.key

/-- The named nodes and everything downstream, less what is still pending. -/
def rerunFrom (nodes : NodeTable) (named : List String) : List String :=
  (Digraph.closure nodes.dependents (nodes.map fun n => n.key) named).filter fun key =>
    nodes.any fun n => n.key = key && n.status ≠ .pending

def rerunClosure (nodes : NodeTable) (id : GraphId) (named : Option (List String)) :
    Except QraftError (List String) :=
  match named with
  | none => .ok (nodes.rerunFrom ((nodes.filter fun n => n.status = .failed).map fun n => n.key))
  | some named =>
    let unknown := (named.filter fun k => k ∉ nodes.map fun n => n.key).dedup.insertionSort (· ≤ ·)
    let listing := ", ".intercalate unknown
    if unknown ≠ [] then .error (.graphError s!"graph {id} has no node(s) {listing}")
    else .ok (nodes.rerunFrom named.dedup)

end NodeTable

/-- The rows of one graph: its own, its nodes', its settlements', its node tasks'. -/
structure GraphState where
  graph : QraftGraph
  nodes : NodeTable
  settlements : List QraftGraphSettlement := []
  store : TaskStore := {}
  journal : List JournalEntry := []

namespace GraphState

/-- `QraftGraphNode.objects.filter(...).update(...)`. -/
def updateNodes (s : GraphState) (p : QraftGraphNode → Bool) (f : QraftGraphNode → QraftGraphNode) :
    GraphState :=
  { s with nodes := Rows.updateWhere p f s.nodes }

def nodeTask (g : QraftGraph) (node : QraftGraphNode) (policy : Option RetryPolicy) (id : TaskId)
    (now : Time) : QraftTask where
  id := id
  func := node.func
  taskArgs := node.taskArgs
  taskKwargs := node.taskKwargs
  successHook := node.options.successHook
  successArgs := node.options.successArgs
  successKwargs := node.options.successKwargs
  failureHook := node.options.failureHook
  failureArgs := node.options.failureArgs
  failureKwargs := node.options.failureKwargs
  hookContext := node.options.hookContext
  retryPolicy := policy
  stallAfter := node.options.stallAfter
  priority := node.options.priority
  subjectType := g.subjectType
  subjectId := g.subjectId
  graphId := some g.id
  node := some node.key
  graphNode := some node.key
  dateUpdated := now

def bindTask (task : TaskId) (now : Time) (n : QraftGraphNode) : QraftGraphNode :=
  { n with task := some task, status := .running, dispatchedAt := some now }

/-- `_dispatch_node`: create the task, schedule its first attempt, bind the node. -/
def dispatchNode (conf : RetryDefaults) (now : Time) (s : GraphState) (node : QraftGraphNode) :
    Except QraftError GraphState := do
  let policy ← RetryPolicy.fromOptions conf node.options.retry
  let id := s.store.nextId
  let task ← (nodeTask s.graph node policy id now).scheduleAttempt (id + 1) 1 now
    (orElse node.options.cluster s.graph.cluster) now
  return { s with
    store := { tasks := s.store.tasks ++ [task], nextId := id + 2 }
    nodes := Rows.updateWhere (fun n => n.key = node.key && n.status = .pending)
      (bindTask id now) s.nodes
    journal := s.journal ++ [.taskCreated node.key node.generation id] }

def park (n : QraftGraphNode) : QraftGraphNode := { n with status := .waitingApproval }

/-- One ready node's turn: a gate parks its own node, never its siblings. -/
def dispatchOrPark (conf : RetryDefaults) (now : Time) (s : GraphState) (node : QraftGraphNode) :
    Except QraftError GraphState :=
  if node.requiresApproval then
    .ok (s.updateNodes (fun n => n.key = node.key && n.status = .pending) park)
  else dispatchNode conf now s node

/-- `_dispatch_frontier_locked`. -/
def dispatchFrontier (conf : RetryDefaults) (now : Time) (s : GraphState) :
    Except QraftError GraphState :=
  if s.graph.status ≠ .running then .ok s
  else s.nodes.readyNodes.foldlM (dispatchOrPark conf now) s

def hookContext (s : GraphState) : HookContext where
  graphId := s.graph.id
  subjectType := s.graph.subjectType
  subjectId := s.graph.subjectId
  kind := s.graph.kind
  revision := s.graph.revision
  metadata := s.graph.metadata
  outcome := s.graph.status
  generation := s.graph.generation
  nodes := s.nodes.statuses
  startedAt := s.graph.dateStarted
  settledAt := s.graph.settledAt
  durationS := secondsBetween (some s.graph.dateStarted) s.graph.settledAt
  previousGraphId := s.graph.previousGraphId

/-- The hook path, when `on_settled` is set and not empty. -/
def hookPath (g : QraftGraph) : Option String := g.onSettled.filter fun p => p ≠ ""

/-- `_record_settlement`: `get_or_create` on the graph and its generation. -/
def recordSettlement (s : GraphState) : GraphState :=
  match hookPath s.graph with
  | none => s
  | some path =>
    if s.settlements.any fun r => r.generation = s.graph.generation then s
    else
      { s with settlements := s.settlements ++ [{
          graphId := s.graph.id
          generation := s.graph.generation
          hookPath := path
          hookKwargs := s.graph.onSettledKwargs
          context := s.hookContext
          dateCreated := s.graph.settledAt }] }

/-- `_settle`: one compare-and-swap on `settled_at`. Returns the graph it settled. -/
def settle (s : GraphState) (status : GraphStatus) (now : Time) : GraphState × Option QraftGraph :=
  if s.graph.settledAt = none ∧ (s.graph.status = .running ∨ s.graph.status = .waitingApproval) then
    let graph := { s.graph with status, settledAt := some now, dateUpdated := now }
    let settled := recordSettlement { s with graph }
    ({ settled with
        journal := settled.journal ++ [.graphSettled graph.generation status s.nodes.statuses] },
      some graph)
  else (s, none)

def maybeSettle (s : GraphState) (now : Time) : GraphState × Option QraftGraph :=
  match s.nodes.quiescence with
  | .busy => (s, none)
  | .settle status => s.settle status now
  | .park =>
    if s.graph.status = .running then
      ({ s with graph := { s.graph with status := .waitingApproval, dateUpdated := now } }, none)
    else (s, none)
  | .fallThrough => ({ s with journal := s.journal ++ [.fellThrough] }, none)

/-- `Graph.start`, for a request that names no earlier graph. -/
def start (conf : RetryDefaults) (plan : GraphPlan) (id : GraphId) (now : Time) :
    Except QraftError GraphState := do
  plan.check
  let budgets ← GraphPlan.validatedBudgets plan.budgets
  let graph : QraftGraph := {
    id
    subjectType := plan.subjectType
    subjectId := plan.subjectId
    kind := plan.kind
    revision := plan.revision
    metadata := plan.metadata
    previousGraphId := plan.previousGraphId
    cluster := plan.cluster
    dateStarted := plan.startedAt.getD now
    onSettled := plan.onSettled
    onSettledKwargs := plan.onSettledKwargs
    budgets
    dateUpdated := now }
  let s ← dispatchFrontier conf now { graph, nodes := plan.nodes.mapIdx (GraphPlan.nodeRow plan.nodes) }
  -- A plan whose every root is gated has nothing running and nothing to dispatch.
  return (s.maybeSettle now).1

def skipNode (reason : Option String) (now : Time) (n : QraftGraphNode) : QraftGraphNode :=
  { n with status := .skipped, skipReason := reason, settledAt := some now }

def skip (conf : RetryDefaults) (s : GraphState) (key : String) (reason : Option String)
    (now : Time) : Except QraftError (GraphState × Option QraftGraph) :=
  if s.graph.status ≠ .running then
    .error (.graphError s!"graph {s.graph.id} is {s.graph.status}; its nodes are final")
  else
    match s.nodes.node? key with
    | none => .error (.graphError s!"graph {s.graph.id} declared no node named {pyRepr key}")
    | some current =>
      if current.status ≠ .pending then
        .error (.graphError (s!"node {pyRepr key} of graph {s.graph.id} is {current.status}; " ++
          "only a pending node may be skipped"))
      else do
        let s ← dispatchFrontier conf now
          (s.updateNodes (fun n => n.key = key && n.status = .pending) (skipNode reason now))
        return s.maybeSettle now

def cancel (s : GraphState) (now : Time) : Except QraftError (GraphState × Option QraftGraph) :=
  match s.settle .cancelled now with
  | (_, none) => .error (.graphError s!"graph {s.graph.id} is already {s.graph.status}")
  | (settled, some graph) => .ok (settled, some graph)

def resetNode (n : QraftGraphNode) : QraftGraphNode :=
  { n with
    status := .pending
    task := none
    settledAt := none
    dispatchedAt := none
    skipReason := none
    receipt := none
    receiptAttemptId := none
    generation := n.generation + 1 }

/-- The rows `resume` leaves before it dispatches again. -/
def rewind (s : GraphState) (rerun : List String) (now : Time) : GraphState :=
  { s with
    nodes := Rows.updateWhere (fun n => n.key ∈ rerun) resetNode s.nodes
    graph := { s.graph with
      status := .running
      settledAt := none
      overdueFlaggedAt := none
      resumedAt := some now
      generation := s.graph.generation + 1
      dateUpdated := now } }

/-- `graphs.resume`, with the number of nodes moved back to pending. -/
def resume (conf : RetryDefaults) (s : GraphState) (nodes : Option (List String)) (now : Time) :
    Except QraftError (GraphState × Nat) :=
  if s.graph.status = .running ∨ s.graph.status = .waitingApproval then
    .error (.graphError s!"graph {s.graph.id} is still running; resume is for a settled graph")
  else if s.graph.status = .cancelled then
    .error (.graphError s!"graph {s.graph.id} was cancelled and is not resumable")
  else if s.graph.status = .succeeded ∧ nodes.getD [] = [] then
    .error (.graphError s!"graph {s.graph.id} succeeded; name the nodes to re-run explicitly")
  else do
    let rerun ← s.nodes.rerunClosure s.graph.id nodes
    if rerun = [] then
      .error (.graphError s!"graph {s.graph.id} has nothing to re-run")
    else
      let t ← dispatchFrontier conf now (s.recordSettlement.rewind rerun now)
      return ((t.maybeSettle now).1, rerun.length)

/-- The refusals `approve` and `reject` share: the graph is live and the node is parked. -/
def parkedNode (s : GraphState) (key : String) : Except QraftError QraftGraphNode :=
  if ¬ (s.graph.status = .running ∨ s.graph.status = .waitingApproval) then
    .error (.graphError s!"graph {s.graph.id} is {s.graph.status}; its nodes are final")
  else
    match s.nodes.node? key with
    | none => .error (.graphError s!"graph {s.graph.id} has no node {pyRepr key}")
    | some node =>
      if node.status ≠ .waitingApproval then
        .error (.graphError (s!"node {pyRepr key} of graph {s.graph.id} is {node.status}, not " ++
          "waiting for approval"))
      else .ok node

def release (n : QraftGraphNode) : QraftGraphNode := { n with status := .pending }

def approve (conf : RetryDefaults) (s : GraphState) (key : String) (now : Time) :
    Except QraftError GraphState := do
  let node ← s.parkedNode key
  let t ← dispatchNode conf now (s.updateNodes (fun n => n.key = key) release) (release node)
  if s.graph.status = .waitingApproval then
    return { t with graph := { t.graph with status := .running, dateUpdated := now } }
  else return t

def rejectNode (reason : Option String) (now : Time) (n : QraftGraphNode) : QraftGraphNode :=
  { n with status := .cancelled, settledAt := some now, skipReason := reason }

def reject (s : GraphState) (key : String) (reason : Option String) (now : Time) :
    Except QraftError (GraphState × Option QraftGraph) := do
  let _ ← s.parkedNode key
  let s := s.updateNodes (fun n => n.key = key) (rejectNode reason now)
  if s.graph.status = .waitingApproval then
    return { s with graph := { s.graph with status := .running } }.maybeSettle now
  else return s.maybeSettle now

/-- `_TASK_OUTCOMES`. -/
def taskOutcome : TaskStatus → Option NodeStatus
  | .succeeded => some .succeeded
  | .failed => some .failed
  | .exhausted => some .failed
  | _ => none

def recordOutcome (outcome : NodeStatus) (now : Time) (n : QraftGraphNode) : QraftGraphNode :=
  { n with status := outcome, settledAt := some now }

/-- `handle_node_completion`, with the task instance its caller holds. -/
def handleNodeCompletion (conf : RetryDefaults) (s : GraphState) (task : QraftTask) (now : Time) :
    Except QraftError (GraphState × Option QraftGraph) :=
  match task.graphNode, taskOutcome task.status with
  | some key, some outcome =>
    match s.nodes.node? key with
    | none => .ok (s, none)
    | some node =>
      -- The bound task is the generation marker: a superseded completion is dropped.
      if node.task ≠ some task.id ∨ node.settledAt ≠ none then .ok (s, none)
      else
        let recorded := { s.updateNodes (fun n => n.key = key && n.settledAt = none)
            (recordOutcome outcome now) with
          journal := s.journal ++ [.outcomeRecorded key node.generation task.id outcome] }
        if s.graph.status = .running then do
          let t ← dispatchFrontier conf now recorded
          return t.maybeSettle now
        else .ok (recorded, none)
  | _, _ => .ok (s, none)

end GraphState
end Qraft
