import Qraft.Graphs.Generations
import Qraft.Lifecycle.Members

/-! A graph in the middle of the task table: its own calls, the completions of its nodes' tasks,
and the `publish()` blocks that their attempts open. -/
namespace Qraft

/-- An open `publish()` block. The rows of its node and of the graph are locked until it ends. -/
structure Publication where
  key : String
  /-- The generation in the locked row; no function reads it. -/
  generation : Nat
  task : TaskId
  attempt : AttemptId
  /-- What `succeed()` was called with. -/
  payload : Option JsonDict := none

/-- The checks of `publish()` on the locked row. -/
def QraftGraphNode.checkAuthority (n : QraftGraphNode) (graph : GraphId) (task : TaskId) :
    Except QraftError Unit :=
  if n.task ≠ some task then
    let bound := n.task.elim "None" toString
    .error (.graphError (s!"node {pyRepr n.key} of graph {graph} is bound to task {bound}, not {task}; " ++
      "this attempt may not publish"))
  else if n.receipt.isSome then
    .error (.graphError s!"node {pyRepr n.key} of graph {graph} has already published a receipt")
  else .ok ()

namespace Publication

def succeed (b : Publication) (payload : Option JsonDict) : Except QraftError Publication :=
  if b.payload.isSome then .error (.graphError "succeed() was already called for this publication")
  else .ok { b with payload := some (payload.getD []) }

/-- What `publish()` finds recorded once its body has returned. -/
def recorded (b : Publication) : Except QraftError JsonDict :=
  match b.payload with
  | none => .error (.graphError s!"node {pyRepr b.key} left its publication without calling succeed()")
  | some payload => .ok payload

end Publication

namespace GraphState

def recordReceipt (payload : JsonDict) (attempt : AttemptId) (n : QraftGraphNode) : QraftGraphNode :=
  { n with receipt := some payload, receiptAttemptId := some attempt }

/-- The receipt a block leaves on its node. -/
def publish (s : GraphState) (b : Publication) (payload : JsonDict) : GraphState :=
  { s.updateNodes (fun n => n.key = b.key && n.receipt.isNone) (recordReceipt payload b.attempt) with
    journal := s.journal ++ [.published b.key b.generation b.task b.attempt payload] }

/-- Ids are drawn from the task table. -/
def drawFrom (s : GraphState) (nextId : Nat) : GraphState := { s with store := { s.store with nextId } }

def owns (s : GraphState) (t : QraftTask) : Bool := t.graphId = some s.graph.id && t.graphNode.isSome

end GraphState

namespace Lifecycle

/-- The tasks a transaction of a graph created join the table. -/
def adopt (l : Lifecycle) (before after : TaskStore) : Lifecycle :=
  { l with store := {
      tasks := l.store.tasks ++ after.tasks.drop before.tasks.length
      nextId := after.nextId } }

/-- The status `_owning_workflow_cancelled` reads of a graph. -/
def heed (l : Lifecycle) (g : QraftGraph) : Lifecycle :=
  if g.status = .cancelled then { l with cancelled := l.cancelled.insert (.graph g.id) } else l

end Lifecycle

structure Publishing where
  life : Lifecycle := {}
  /-- Its `store` has the node tasks as they were created; `life` has what became of them. -/
  graph : GraphState
  block : Option Publication := none
  /-- The task instances whose completion was handled: task, attempt, and status as held. -/
  heard : List (TaskId × AttemptId × TaskStatus) := []

inductive PublishEvent where
  | table (e : LifecycleEvent)
  /-- A call on the graph. -/
  | call (e : GraphEvent)
  /-- `handle_node_completion` for a decided attempt. -/
  | completion (i : Nat)
  /-- The attempt is flagged routed. -/
  | finish (i : Nat)
  /-- `publish()` in an attempt's function, up to its `yield`. -/
  | openBlock (task : TaskId) (attempt : AttemptId)
  /-- The body calls `succeed()`. -/
  | succeed (payload : Option JsonDict)
  /-- The body returns. -/
  | leave
  /-- The body raises, or its process dies. -/
  | abort

namespace Publishing

/-- A transaction of the graph on ids and tasks of the table. -/
def call (conf : RetryDefaults) (now : Time) (w : Publishing) (e : GraphEvent) :
    Except QraftError Publishing := do
  let s := w.graph.drawFrom w.life.store.nextId
  let (graph, _) ← s.call conf now e
  return { w with graph, life := (w.life.adopt s.store graph.store).heed graph.graph }

/-- The steps of the task table that are not the graph's own. -/
def foreign (w : Publishing) : LifecycleEvent → Bool
  | .asyncTask metadata _ _ => !w.graph.owns metadata
  | .scheduleTask metadata _ => !w.graph.owns metadata
  | .commitOutput task _ => (w.life.store.task? task).all fun t => !w.graph.owns t
  | .route i => w.life.due[i]?.all fun (held, _) => !w.graph.owns held
  | .cancelWorkflow x => x ≠ .graph w.graph.graph.id
  | .reopenWorkflow x => x ≠ .graph w.graph.graph.id
  | _ => true

/-- `publish()` up to its `yield`. Outside a node of the graph it records nothing, and where it
raises nothing changes. -/
def enter (w : Publishing) (t : QraftTask) (attempt : AttemptId) : Option Publishing :=
  if w.graph.owns t then
    (t.graphNode.bind w.graph.nodes.node?).map fun n =>
      match n.checkAuthority w.graph.graph.id t.id with
      | .error _ => w
      | .ok () =>
        { w with block := some { key := n.key, generation := n.generation, task := t.id, attempt } }
  else some w

def step (conf : RetryDefaults) (limit : Nat) (w : Publishing) (env : Env) :
    PublishEvent → Option Publishing
  | .table e =>
    if w.foreign e then (w.life.step limit env e).map fun life => { w with life } else none
  | .call (.completion _) => none
  -- A call waits for the lock on the graph's row.
  | .call e => if w.block.isNone then (w.call conf env.now e).toOption else none
  | .completion i =>
    w.life.due[i]?.bind fun (held, attempt) =>
      if w.block.isNone ∧ w.graph.owns held then
        (w.call conf env.now (.completion held)).toOption.map fun w' =>
          { w' with heard := w'.heard ++ [(held.id, attempt, held.status)] }
      else none
  | .finish i =>
    w.life.due[i]?.bind fun (held, attempt) =>
      if w.graph.owns held ∧ (held.id, attempt, held.status) ∈ w.heard then
        (w.life.step limit env (.route i)).map fun life => { w with life }
      else none
  | .openBlock task attempt =>
    (w.life.find task attempt).bind fun (t, _) =>
      if w.block.isNone then w.enter t attempt else none
  | .succeed payload =>
    w.block.map fun b =>
      match b.succeed payload with
      | .error _ => w
      | .ok b => { w with block := some b }
  | .leave =>
    w.block.bind fun b =>
      match b.recorded with
      | .error _ => some { w with block := none }
      | .ok payload =>
        (w.life.step limit env (.commitOutput b.task b.attempt)).map fun life =>
          { w with life, graph := w.graph.publish b payload, block := none }
  | .abort => w.block.map fun _ => { w with block := none }

end Publishing

/-- One graph, started on an empty task table, with everything that may happen around it. -/
def publishingSystem (conf : RetryDefaults) (limit : Nat) :
    StepSystem Publishing (PublishEvent × Env) where
  init w := ∃ plan id now graph, GraphState.start conf plan id now = .ok graph ∧
    w = { life := { store := graph.store }, graph }
  step w e := w.step conf limit e.2 e.1

end Qraft
