import Qraft.Enqueue.AsyncTask
import Qraft.Graphs.Transitions
import Qraft.Lifecycle.Members

/-! Everything that creates tasks around one task table: calls of `async_task`, each between two
of its transactions, graphs that dispatch nodes, and workflows that create members through
handles loaded at some earlier time. -/
namespace Qraft

inductive AsyncPhase where
  | called
  /-- `_existing_task_for_key` is next, where it was caught for the insert that raised. -/
  | looking (caught : Option String)
  /-- It has read the row of a holder, and goes on to the attempts. -/
  | found (caught : Option String) (existing : QraftTask)
  | preparing
  | inserting (metadata : QraftTask) (cluster : Option String)
  | created (task : TaskId) (q2TaskId : Q2TaskId)
  /-- It returned the message of a task that was there. -/
  | returned (existing : QraftTask) (q2TaskId : Q2TaskId)
  | raised (e : QraftError)

structure AsyncProcess where
  call : AsyncCall
  phase : AsyncPhase := .called

structure KeyedTask where
  key : String
  task : TaskId
  deriving DecidableEq

structure Enqueueing where
  life : Lifecycle := {}
  graphs : List GraphRows := []
  workflows : List WorkflowEntry := []
  handles : List WorkflowEntry := []
  calls : List AsyncProcess := []
  /-- Every task ever created under a key; no function reads it. -/
  keyed : List KeyedTask := []

inductive EnqueueEvent where
  | table (e : LifecycleEvent)
  | asyncTask (call : AsyncCall)
  /-- A call goes on to its next transaction. `raises` is what an enqueue raises, when it does. -/
  | proceed (i : Nat) (raises : Option QraftError)
  /-- `Graph.start` inserts its rows. -/
  | start (plan : GraphPlan) (subject : Option (String × String))
  /-- `_dispatch_node` under the lock of the graph's row. -/
  | dispatchNode (graph : GraphId) (key : String)
  /-- The graph is settled, parked, cancelled or resumed. -/
  | moveGraph (graph : GraphId) (status : GraphStatus)
  | bindSubject (graph : GraphId) (subject : Option (String × String))
  /-- The constructor of a chain, iter or batch inserts its row. -/
  | create (workflow : Workflow) (row : WorkflowRow) (graph : Option GraphId) (node : Option String)
      (subject : Option (String × String))
  /-- A handle is made of a stored row, or a dispatcher joins it. -/
  | load (workflow : Workflow)
  /-- `_create_workflow_task` with the labels of a handle. -/
  | createMember (h : Nat) (func : String) (args : List Json) (kwargs : JsonDict)
      (options : MemberOptions) (raises : Option QraftError)

namespace Enqueueing

def graph? (s : Enqueueing) (id : GraphId) : Option GraphRows :=
  Rows.get? (fun g : GraphRows => g.graph.id) s.graphs id

/-- The subject `_create_and_enqueue` reads again under the lock of the graph's row. -/
def relabel (s : Enqueueing) (metadata : QraftTask) : Except QraftError QraftTask :=
  match metadata.graphId with
  | none => .ok metadata
  | some id =>
    if truthy metadata.subjectType then .ok metadata
    else
      match s.graph? id with
      | none => .error (.graphError s!"unknown graph {id}")
      | some g =>
        .ok { metadata with subjectType := g.graph.subjectType, subjectId := g.graph.subjectId }

/-- `_create_and_enqueue`, where the database refuses a key that a row holds. -/
def createAndEnqueue (s : Enqueueing) (metadata : QraftTask) (cluster : Option String)
    (raises : Option QraftError) (env : Env) : Except QraftError Enqueueing := do
  let metadata ← s.relabel metadata
  if metadata.idempotencyKey.any fun key => (s.life.store.keyHolder? key).isSome then
    .error (.integrityError "idempotency_key")
  else
    match raises with
    | some e => .error e
    | none =>
      return { s with
        life := s.life.createAndEnqueue metadata cluster env
        keyed := s.keyed ++ metadata.idempotencyKey.toList.map (⟨·, s.life.store.nextId⟩) }

def setPhase (s : Enqueueing) (i : Nat) (phase : AsyncPhase) : Enqueueing :=
  { s with calls := s.calls.modify i fun p => { p with phase } }

/-- No holder: the call goes on to create a task, or raises what it caught. -/
def missed : Option String → AsyncPhase
  | none => .preparing
  | some constraint => .raised (.integrityError constraint)

def reclaimDeadTaskKey (s : Enqueueing) (key : String) : Enqueueing :=
  { s with life := { s.life with store := s.life.store.reclaimDeadTaskKey key } }

/-- `async_task`, one transaction at a time. -/
def proceed (conf : RetryDefaults) (s : Enqueueing) (i : Nat) (p : AsyncProcess)
    (raises : Option QraftError) (env : Env) : Option Enqueueing :=
  let key := p.call.options.idempotencyKey
  match p.phase with
  | .called =>
    some (if truthy key then
      (if p.call.options.idempotencyRetryDead then s.reclaimDeadTaskKey (key.getD "") else s).setPhase i
        (.looking none)
    else s.setPhase i .preparing)
  | .looking caught =>
    match s.life.store.keyHolder? (key.getD "") with
    | none => some (s.setPhase i (missed caught))
    | some existing => some (s.setPhase i (.found caught existing))
  | .found caught existing =>
    match s.life.store.holderMessage existing.id with
    | none => some (s.setPhase i (missed caught))
    | some q2TaskId => some (s.setPhase i (.returned existing q2TaskId))
  | .preparing =>
    match p.call.metadata conf s.graph? with
    | .error e => some (s.setPhase i (.raised e))
    | .ok (metadata, cluster) => some (s.setPhase i (.inserting metadata cluster))
  | .inserting metadata cluster =>
    match s.createAndEnqueue metadata cluster raises env with
    | .ok s' => some (s'.setPhase i (.created s.life.store.nextId (s.life.store.nextId + 2)))
    | .error (.integrityError constraint) =>
      some (s.setPhase i (if truthy key then .looking (some constraint)
        else .raised (.integrityError constraint)))
    | .error e => some (s.setPhase i (.raised e))
  | .created _ _ | .returned _ _ | .raised _ => none

def writeGraph (s : Enqueueing) (id : GraphId) (f : QraftGraph → QraftGraph) : Enqueueing :=
  { s with graphs :=
      Rows.updateWhere (fun g => g.graph.id = id) (fun g => { g with graph := f g.graph }) s.graphs }

/-- The rows `Graph.start` inserts for a plan that passes its checks. -/
def start (s : Enqueueing) (plan : GraphPlan) (subject : Option (String × String)) (now : Time) :
    Except QraftError Enqueueing := do
  let (subjectType, subjectId) ← parseSubject subject
  plan.check
  let graph : QraftGraph := {
    id := s.graphs.length
    subjectType
    subjectId
    cluster := plan.cluster
    dateStarted := plan.startedAt.getD now
    dateUpdated := now }
  return { s with
    graphs := s.graphs ++ [{ graph, nodes := plan.nodes.mapIdx (GraphPlan.nodeRow plan.nodes) }] }

/-- The row a node's dispatch inserts, and the cluster of its first attempt. -/
def nodeMetadata (conf : RetryDefaults) (g : GraphRows) (key : String) (env : Env) :
    Except QraftError (QraftTask × Option String) :=
  match g.nodes.find? fun n => n.key = key with
  | none => .error (.graphError s!"graph {g.graph.id} has no node {pyRepr key}")
  | some node => do
    let policy ← RetryPolicy.fromOptions conf node.options.retry
    return (GraphState.nodeTask g.graph node policy 0 env.now,
      orElse node.options.cluster g.graph.cluster)

def backfill (s : Enqueueing) (id : GraphId) (subjectType subjectId : Option String) : Enqueueing :=
  { s with
    life := { s.life with store := { s.life.store with
      tasks := Rows.updateWhere (fun t => t.graphId = some id && t.subjectType.isNone)
        (fun t => { t with subjectType, subjectId }) s.life.store.tasks } }
    workflows := Rows.updateWhere (fun w => w.row.graphId = some id && w.row.subjectType.isNone)
      (fun w => { w with row := { w.row with subjectType, subjectId } }) s.workflows }

def bindSubject (s : Enqueueing) (id : GraphId) (subject : Option (String × String)) (now : Time) :
    Except QraftError Enqueueing := do
  let (subjectType, subjectId) ← parseSubject subject
  if subjectType = none then
    .error (.graphError "bind_subject needs a (subject_type, subject_id) pair")
  match s.graph? id with
  | none => .error (.graphError s!"unknown graph {id}")
  | some g =>
    if g.graph.status ≠ .running then
      .error (.graphError s!"graph {id} is {g.graph.status}; a settled graph's subject is final")
    else if g.graph.subjectType ≠ none ∨ g.graph.subjectId ≠ none then
      .error (.graphError (s!"graph {id} already names subject ({pyShow g.graph.subjectType}, " ++
        s!"{pyShow g.graph.subjectId}); a graph's subject is declared once"))
    else
      return (s.writeGraph id fun g => { g with subjectType, subjectId, dateUpdated := now }).backfill
        id subjectType subjectId

/-- The row a workflow's constructor inserts while it holds the lock of the graph's row. -/
def create (s : Enqueueing) (workflow : Workflow) (row : WorkflowRow) (graph : Option GraphId)
    (node : Option String) (subject : Option (String × String)) : Except QraftError Enqueueing := do
  let (subjectType, subjectId) ← parseSubject subject
  let labels ← memberLabels s.graph? graph node subjectType subjectId
  let entry : WorkflowEntry := ⟨workflow, { row with
    subjectType := labels.subjectType
    subjectId := labels.subjectId
    graphId := labels.graphId
    node := labels.node }⟩
  return { s with workflows := s.workflows ++ [entry], handles := s.handles ++ [entry] }

/-- Task table events that create no task, or one with neither key nor graph. -/
def foreign : LifecycleEvent → Bool
  | .asyncTask metadata _ _ | .scheduleTask metadata _ =>
    metadata.idempotencyKey.isNone && metadata.graphId.isNone
  | _ => true

def step (conf : RetryDefaults) (limit : Nat) (s : Enqueueing) (env : Env) :
    EnqueueEvent → Option Enqueueing
  | .table e => if foreign e then (s.life.step limit env e).map fun life => { s with life } else none
  | .asyncTask call => some { s with calls := s.calls ++ [{ call }] }
  | .proceed i raises => s.calls[i]?.bind fun p => s.proceed conf i p raises env
  | .start plan subject => (s.start plan subject env.now).toOption
  | .dispatchNode graph key =>
    (s.graph? graph).bind fun g =>
      if g.graph.status ≠ .running then none
      else (nodeMetadata conf g key env).toOption.bind fun (metadata, cluster) =>
        (s.life.step limit env (.scheduleTask metadata cluster)).map fun life => { s with life }
  | .moveGraph graph status => some (s.writeGraph graph fun g => { g with status })
  | .bindSubject graph subject => (s.bindSubject graph subject env.now).toOption
  | .create workflow row graph node subject =>
    if s.workflows.any fun w => w.workflow = workflow then none
    else (s.create workflow row graph node subject).toOption
  | .load workflow =>
    (s.workflows.find? fun w => w.workflow = workflow).map fun w => { s with handles := s.handles ++ [w] }
  | .createMember h func args kwargs options raises =>
    s.handles[h]?.bind fun w =>
      (do
        let metadata ← w.row.member conf func args kwargs options (some w.workflow)
        s.createAndEnqueue metadata options.cluster raises env).toOption

end Enqueueing

def enqueueSystem (conf : RetryDefaults) (limit : Nat) : StepSystem Enqueueing (EnqueueEvent × Env) where
  init s := s = {}
  step s e := s.step conf limit e.2 e.1

end Qraft
