import Qraft.Enqueue.Effects
import Qraft.Retention.Sweep

/-! Sweeps beside everything that settles and reopens work: each query of a sweep is a step of its
own, and so are the two halves of a delete, which fetches the rows it cascades to before it deletes
them. One clock stamps the rows, and it never runs backwards. -/
namespace Qraft

/-- The passes of a sweep, in order. -/
inductive SweepPass where
  | chains
  | iters
  | batches
  | tasks
  | graphs
  | dispatches
  deriving DecidableEq

/-- Where a sweep is within a pass. -/
inductive SweepStage where
  /-- `_open_graph_ids` is next. -/
  | opening
  /-- `_live_workflow_ids` is next, for these models. -/
  | excluding (left : List SweepPass)
  /-- The keys of a batch are next. -/
  | selecting
  /-- The delete of these keys is next. -/
  | deleting (ids : List RowKey)
  /-- The delete has fetched these rows. -/
  | destroying (rows : List RowKey)

structure Sweep where
  cutoff : Time
  batchSize : Nat
  pass : SweepPass := .chains
  stage : SweepStage := .opening
  /-- Batches left to the ceiling. -/
  rounds : Nat := Tables.maxBatches
  openGraphs : List GraphId := []
  liveWorkflows : List Workflow := []
  /-- Graphs and chains resumed since the sweep read which were live; no function reads them. -/
  resumed : List Workflow := []
  /-- Tasks revived since a delete fetched them; no function reads them. -/
  revived : List TaskId := []

namespace SweepPass

def model : SweepPass → Workflow → Bool
  | chains => Tables.chainModel
  | iters => Tables.iterModel
  | batches => Tables.batchModel
  | tasks | graphs | dispatches => fun _ => false

def next : SweepPass → Option SweepPass
  | chains => some iters
  | iters => some batches
  | batches => some tasks
  | tasks => some graphs
  | graphs => some dispatches
  | dispatches => none

end SweepPass

namespace Sweep

def queryset (sw : Sweep) (tb : Tables) : List RowKey :=
  match sw.pass with
  | .chains | .iters | .batches => tb.sweptWorkflows sw.cutoff sw.openGraphs sw.pass.model
  | .tasks => tb.sweptTasks sw.cutoff sw.openGraphs sw.liveWorkflows
  | .graphs => tb.sweptGraphs sw.cutoff
  | .dispatches => tb.sweptDispatches sw.cutoff

/-- Whether a key is one of the table the pass deletes from. -/
def own (sw : Sweep) (k : RowKey) : Bool :=
  match sw.pass, k with
  | .tasks, .task _ => true
  | .dispatches, .dispatch _ => true
  | .graphs, .plan _ => true
  | .chains, .plan _ | .iters, .plan _ | .batches, .plan _ => true
  | _, _ => false

/-- On to the next pass; the sweep ends with the last. -/
def advance (sw : Sweep) : Option Sweep :=
  sw.pass.next.map fun pass =>
    { sw with
      pass
      rounds := Tables.maxBatches
      stage := if pass = .tasks then .excluding [.iters, .batches, .chains] else .selecting }

def collected (sw : Sweep) : List RowKey :=
  match sw.stage with
  | .destroying rows => rows
  | _ => []

end Sweep

namespace Tables

def holds (tb : Tables) : RowKey → Bool
  | .task id => tb.tasks.any fun t => t.id = id
  | .plan (.graph id) => tb.graphs.any fun g => g.id = id
  | .plan w => tb.workflows.any fun e => e.workflow = w
  | .dispatch id => tb.dispatches.any fun d => d.id = id

/-- The next query of a sweep: the tables it leaves, and the sweep unless it ended. -/
def sweepStep (tb : Tables) (sw : Sweep) : Tables × Option Sweep :=
  match sw.stage with
  | .opening => (tb, some { sw with stage := .selecting, openGraphs := tb.openGraphIds, resumed := [] })
  | .excluding [] => (tb, some { sw with stage := .selecting })
  | .excluding (pass :: left) => (tb, some { sw with
      stage := .excluding left
      liveWorkflows := sw.liveWorkflows ++ tb.liveWorkflowIds pass.model
      resumed := sw.resumed.filter fun w => !pass.model w })
  | .selecting =>
    if sw.rounds = 0 then (tb, sw.advance)
    else
      let ids := (sw.queryset tb).take sw.batchSize
      (tb, if ids = [] then sw.advance else some { sw with stage := .deleting ids })
  | .deleting ids =>
    let chosen := (sw.queryset tb).filter fun k => k ∈ ids
    (tb, if chosen = [] then sw.advance
      else some { sw with stage := .destroying (tb.collect chosen), revived := [] })
  | .destroying rows =>
    let deleted := rows.filter fun k => sw.own k && tb.holds k
    (tb.destroy rows, if deleted = [] then sw.advance
      else some { sw with stage := .selecting, rounds := sw.rounds - 1 })

end Tables

structure Retained where
  life : Lifecycle := {}
  workflows : List WorkflowEntry := []
  graphs : List QraftGraph := []
  settlements : List (GraphId × Nat) := []
  dispatches : List PlanDispatch := []
  sweeps : List Sweep := []
  clock : Time := 0

inductive RetainedEvent where
  /-- Tasks are created, run, decided, retried, reaped and requeued. -/
  | table (e : LifecycleEvent)
  /-- `Graph.start` inserts a row under an id nobody uses. -/
  | startGraph (id : GraphId)
  /-- A graph that is live is settled, parked or woken. -/
  | moveGraph (id : GraphId) (status : GraphStatus)
  /-- `graphs.resume`. -/
  | resumeGraph (id : GraphId)
  /-- The constructor of a chain, iter or batch inserts a row under an id nobody uses. -/
  | create (workflow : Workflow) (row : WorkflowRow)
  /-- A workflow that is live starts, parks, goes on or settles. -/
  | moveWorkflow (workflow : Workflow) (status : WorkflowStatus)
  /-- `QraftChain.resume`, which unlinks the task of the current step. -/
  | resumeChain (workflow : Workflow) (current : Option TaskId)
  | recordSettlement (r : GraphId × Nat)
  | dispatchHook (d : PlanDispatch)
  /-- `sweep_retention` is called, and has its cutoff. -/
  | startSweep (conf args : RetentionSettings)
  /-- A sweep goes on to its next query. -/
  | sweep (i : Nat)

namespace Retained

def tables (s : Retained) : Tables where
  tasks := s.life.store.tasks
  workflows := s.workflows
  graphs := s.graphs
  settlements := s.settlements
  dispatches := s.dispatches

def withTables (s : Retained) (tb : Tables) : Retained :=
  { s with
    life := { s.life with store := { s.life.store with tasks := tb.tasks } }
    workflows := tb.workflows
    graphs := tb.graphs
    settlements := tb.settlements
    dispatches := tb.dispatches }

/-- The labels a new task can have: those of the workflow it is a member of, or those of the graph
whose node it executes, or any. -/
def admits (s : Retained) (metadata : QraftTask) : Bool :=
  (metadata.graphId.all fun g => s.graphs.any fun r => r.id = g) &&
  match metadata.workflow with
  | none => true
  | some w =>
    metadata.graphNode.isNone && s.workflows.any (fun e => e.workflow = w) &&
      s.workflows.all fun e => e.workflow ≠ w || e.row.graphId = metadata.graphId

def writeGraph (s : Retained) (id : GraphId) (f : QraftGraph → QraftGraph) : Retained :=
  { s with graphs := Rows.updateWhere (fun g => g.id = id) f s.graphs }

def writeWorkflow (s : Retained) (w : Workflow) (f : WorkflowRow → WorkflowRow) : Retained :=
  { s with workflows :=
      Rows.updateWhere (fun e => e.workflow = w) (fun e => { e with row := f e.row }) s.workflows }

/-- A plan is resumed, as every sweep under way will remember. -/
def noteResumed (s : Retained) (w : Workflow) : Retained :=
  { s with sweeps := s.sweeps.map fun sw => { sw with resumed := w :: sw.resumed } }

def revivedBy (s : Retained) (life : Lifecycle) : List TaskId :=
  (s.life.store.tasks.filter fun t => t.status.Terminal &&
    life.store.tasks.any fun u => u.id = t.id && ¬ u.status.Terminal).map fun t => t.id

def noteRevived (s : Retained) (ids : List TaskId) : Retained :=
  { s with sweeps := s.sweeps.map fun sw => { sw with revived := ids ++ sw.revived } }

/-- The columns a settlement, a park or a wake-up writes. -/
def graphMoved (status : GraphStatus) (now : Time) (g : QraftGraph) : QraftGraph :=
  { g with status, settledAt := if status.Terminal then some now else none, dateUpdated := now }

def graphResumed (now : Time) (g : QraftGraph) : QraftGraph :=
  { g with
    status := .running
    settledAt := none
    overdueFlaggedAt := none
    resumedAt := some now
    generation := g.generation + 1
    dateUpdated := now }

def rowMoved (status : WorkflowStatus) (now : Time) (w : WorkflowRow) : WorkflowRow :=
  { w with status, settledAt := if status.Terminal then some now else none, dateUpdated := now }

def rowResumed (now : Time) (w : WorkflowRow) : WorkflowRow :=
  { w with status := .running, settledAt := none, dateUpdated := now }

/-- The current step of a chain lets go of its task. -/
def unlinkStep (workflow : Workflow) (current : Option TaskId) (t : QraftTask) : QraftTask :=
  if some t.id = current ∧ t.workflow = some workflow then { t with workflow := none } else t

def step (limit : Nat) (s : Retained) (env : Env) : RetainedEvent → Option Retained
  | .table e =>
    if (Lifecycle.createdBy e).all s.admits then
      (s.life.step limit env e).map fun life => { s.noteRevived (s.revivedBy life) with life }
    else none
  | .startGraph id =>
    if s.graphs.any (fun g => g.id = id) ∨ s.life.store.tasks.any (fun t => t.graphId = some id) ∨
        s.workflows.any (fun e => e.row.graphId = some id) then none
    else some { s with graphs := s.graphs ++ [{ id, dateStarted := env.now, dateUpdated := env.now }] }
  | .moveGraph id status =>
    if s.graphs.any fun g => g.id = id && ¬ g.status.Terminal then
      some (s.writeGraph id (graphMoved status env.now))
    else none
  | .resumeGraph id =>
    if s.graphs.any fun g => g.id = id && (g.status = .failed || g.status = .succeeded) then
      some ((s.writeGraph id (graphResumed env.now)).noteResumed (.graph id))
    else none
  | .create workflow row =>
    if (!Tables.chainModel workflow && !Tables.iterModel workflow && !Tables.batchModel workflow) ∨
        s.workflows.any (fun e => e.workflow = workflow) ∨
        s.life.store.tasks.any (fun t => t.workflow = some workflow) ∨ row.status ≠ .pending ∨
        ¬ row.graphId.all (fun g => s.graphs.any fun r => r.id = g && r.status = .running) then none
    else some { s with workflows := s.workflows ++ [⟨workflow, { row with dateUpdated := env.now }⟩] }
  | .moveWorkflow workflow status =>
    if s.workflows.any fun e => e.workflow = workflow && ¬ e.row.status.Terminal then
      some (s.writeWorkflow workflow (rowMoved status env.now))
    else none
  | .resumeChain workflow current =>
    if s.workflows.any fun e => e.workflow = workflow && Tables.chainModel workflow &&
        e.row.status = .failed then
      some ({ s.writeWorkflow workflow (rowResumed env.now) with
        life := s.life.relabel (unlinkStep workflow current) }.noteResumed workflow)
    else none
  | .recordSettlement r => some { s with settlements := s.settlements ++ [r] }
  | .dispatchHook d => some { s with dispatches := s.dispatches ++ [d] }
  | .startSweep conf args =>
    ((conf.override args).cutoff env.now s.tables).map fun cutoff =>
      { s with sweeps := s.sweeps ++ [{ cutoff, batchSize := (conf.override args).batchSize }] }
  | .sweep i => s.sweeps[i]?.map fun sw =>
    let r := s.tables.sweepStep sw
    { s.withTables r.1 with sweeps := r.2.elim (s.sweeps.eraseIdx i) (s.sweeps.set i) }

end Retained

/-- The tables from empty on, under one clock. -/
def retentionSystem (limit : Nat) : StepSystem Retained (RetainedEvent × Env) where
  init s := s = {}
  step s e :=
    if s.clock ≤ e.2.now then (s.step limit e.2 e.1).map fun s' => { s' with clock := e.2.now } else none

end Qraft
