import Mathlib.Data.List.Sort
import Mathlib.Data.Rat.Floor
import Qraft.Models.Graphs
import Qraft.Models.Workflows

/-! `sweep_retention`: what each of its querysets selects, what deleting a row takes along, and the
batches it goes in. -/
namespace Qraft

inductive RowKey where
  | task (id : TaskId)
  /-- A chain, iter, batch or graph. -/
  | plan (w : Workflow)
  | dispatch (id : Nat)
  deriving DecidableEq

/-- A `WorkflowHookDispatch` row, of a workflow or of one generation of a graph. -/
structure PlanDispatch where
  id : Nat
  workflow : Workflow
  generation : Nat := 0
  hookType : String
  dateCreated : Time

/-- The tables a sweep reads and deletes from. A chain step's link to its task is the task's
`workflow`. -/
structure Tables where
  tasks : List QraftTask := []
  workflows : List WorkflowEntry := []
  graphs : List QraftGraph := []
  /-- Graph and generation of each `QraftGraphSettlement`. -/
  settlements : List (GraphId × Nat) := []
  dispatches : List PlanDispatch := []

structure Tables.Keyed (tb : Tables) : Prop where
  tasks : (tb.tasks.map fun t => t.id).Nodup
  workflows : (tb.workflows.map fun e => e.workflow).Nodup
  graphs : (tb.graphs.map fun g => g.id).Nodup
  dispatches : (tb.dispatches.map fun d => d.id).Nodup

/-- Whether the tasks of a deleted plan go with it: `on_delete=CASCADE` for the members of iters
and batches, `SET_NULL` for the step of a chain and for the members of a graph. -/
def Workflow.cascades : Workflow → Bool
  | .iter _ | .batch _ => true
  | .chain _ | .graph _ => false

namespace QraftTask

/-- Whether deleting these rows takes the task along: it is one of them, a member of one, or the
execution of one's node. -/
def reached (t : QraftTask) (ks : List RowKey) : Bool :=
  decide (.task t.id ∈ ks) || t.workflow.any (fun w => w.cascades && decide (.plan w ∈ ks)) ||
    (t.graphNode.isSome && t.graphId.any fun g => .plan (.graph g) ∈ ks)

/-- `SET_NULL` on a task that stays. -/
def unlink (t : QraftTask) (ks : List RowKey) : QraftTask :=
  { t with
    workflow := t.workflow.filter fun w => .plan w ∉ ks
    graphId := t.graphId.filter fun g => .plan (.graph g) ∉ ks }

/-- `TaskStatus.PENDING` or `TaskStatus.RUNNING`. -/
def liveMember (t : QraftTask) : Bool := t.status = .pending || t.status = .running

end QraftTask

namespace Tables

/-- The rows are deleted, the tasks that hang off them too, and other references are nulled. -/
def delete (tb : Tables) (ks : List RowKey) : Tables where
  tasks := tb.tasks.filterMap fun t => if t.reached ks then none else some (t.unlink ks)
  workflows := tb.workflows.filterMap fun e =>
    if .plan e.workflow ∈ ks then none
    else some { e with row := { e.row with
      graphId := e.row.graphId.filter fun g => .plan (.graph g) ∉ ks } }
  graphs := tb.graphs.filter fun g => .plan (.graph g.id) ∉ ks
  settlements := tb.settlements.filter fun r => .plan (.graph r.1) ∉ ks
  dispatches := tb.dispatches.filter fun d => .dispatch d.id ∉ ks

/-- What `delete()` fetches before it deletes anything: the rows, and the tasks they take along. -/
def collect (tb : Tables) (ks : List RowKey) : List RowKey :=
  ks ++ (tb.tasks.filter fun t => t.reached ks).map fun t => .task t.id

/-- The fetched rows are deleted by their keys, whatever became of them since. -/
def destroy (tb : Tables) (ks : List RowKey) : Tables :=
  { tb.delete ks with
    tasks := tb.tasks.filterMap fun t => if .task t.id ∈ ks then none else some (t.unlink ks) }

def openGraphIds (tb : Tables) : List GraphId :=
  (tb.graphs.filter fun g => ¬ g.status.Terminal).map fun g => g.id

/-- `_live_workflow_ids`, of the workflows of one model. -/
def liveWorkflowIds (tb : Tables) (model : Workflow → Bool) : List Workflow :=
  (tb.workflows.filter fun e => model e.workflow && ¬ e.row.status.Terminal).map fun e => e.workflow

/-- One of the three querysets of the workflow pass. -/
def sweptWorkflows (cutoff : Time) (openGraphs : List GraphId) (model : Workflow → Bool) (tb : Tables) :
    List RowKey :=
  (tb.workflows.filter fun e =>
    model e.workflow && e.row.status.Terminal && e.row.dateUpdated < cutoff &&
      !e.row.graphId.any (fun g => g ∈ openGraphs) &&
      tb.tasks.all fun t => !(t.workflow = some e.workflow && t.liveMember)).map
    fun e => .plan e.workflow

def sweptTasks (cutoff : Time) (openGraphs : List GraphId) (liveWorkflows : List Workflow) (tb : Tables) :
    List RowKey :=
  (tb.tasks.filter fun t =>
    t.status.Terminal && t.dateUpdated < cutoff && !t.workflow.any (fun w => w ∈ liveWorkflows) &&
      !t.graphId.any fun g => g ∈ openGraphs).map fun t => .task t.id

/-- Whether the hook of a settlement was dispatched. -/
def delivered (tb : Tables) (r : GraphId × Nat) : Bool :=
  tb.dispatches.any fun d =>
    d.workflow = .graph r.1 && d.generation = r.2 && d.hookType = "settled"

def sweptGraphs (cutoff : Time) (tb : Tables) : List RowKey :=
  (tb.graphs.filter fun g =>
    g.status.Terminal && g.dateUpdated < cutoff &&
      tb.tasks.all (fun t => !(t.graphId = some g.id && t.liveMember)) &&
      tb.settlements.all fun r => r.1 ≠ g.id || tb.delivered r).map
    fun g => .plan (.graph g.id)

def sweptDispatches (cutoff : Time) (tb : Tables) : List RowKey :=
  (tb.dispatches.filter fun d =>
    d.dateCreated < cutoff && tb.graphs.all fun g => d.workflow ≠ .graph g.id).map
    fun d => .dispatch d.id

/-- `_delete_in_batches`, with the rounds left to the ceiling. It returns how many rows went. -/
def deleteInBatches (queryset : Tables → List RowKey) (batchSize : Nat) :
    Nat → Tables → Tables × Nat
  | 0, tb => (tb, 0)
  | rounds + 1, tb =>
    let ids := (queryset tb).take batchSize
    if ids = [] then (tb, 0)
    else
      let chosen := (queryset tb).filter fun k => k ∈ ids
      let tb' := tb.delete chosen
      if chosen = [] then (tb', 0)
      else
        let (tb'', deleted) := deleteInBatches queryset batchSize rounds tb'
        (tb'', chosen.length + deleted)

def maxBatches : Nat := 1000

/-- `_count_cutoff`: when the oldest of the newest `maxTasks` settled tasks was updated. -/
def countCutoff (tb : Tables) (maxTasks : Nat) : Option Time :=
  (((tb.tasks.filter fun t => t.status.Terminal).map fun t => t.dateUpdated).insertionSort (· ≥ ·))[
    maxTasks - 1]?

end Tables

structure RetentionSettings where
  retentionDays : Option ℚ := none
  retentionMaxTasks : Option Nat := none
  retentionBatchSize : Option Nat := none

namespace RetentionSettings

/-- The arguments of `sweep_retention` over the configured settings. -/
def override (conf args : RetentionSettings) : RetentionSettings where
  retentionDays := args.retentionDays.or conf.retentionDays
  retentionMaxTasks := args.retentionMaxTasks.or conf.retentionMaxTasks
  retentionBatchSize := args.retentionBatchSize.or conf.retentionBatchSize

/-- An age bound, unless it is off. -/
def days (c : RetentionSettings) : Option ℚ := c.retentionDays.filter fun d => d ≠ 0

/-- A count bound, unless it is off. -/
def maxTasks (c : RetentionSettings) : Option Nat := c.retentionMaxTasks.filter fun n => n ≠ 0

/-- `retention_batch_size`, 500 where nothing is configured. -/
def batchSize (c : RetentionSettings) : Nat := c.retentionBatchSize.getD 500

/-- The stricter of the cutoffs in force, where there is one. -/
def cutoff (c : RetentionSettings) (now : Time) (tb : Tables) : Option Time :=
  ((c.days.map fun d => now - ⌊d * 86400⌋₊).toList ++
    (c.maxTasks.bind fun n => tb.countCutoff n).toList).max?

end RetentionSettings

namespace Tables

def chainModel : Workflow → Bool
  | .chain _ => true
  | _ => false

def iterModel : Workflow → Bool
  | .iter _ => true
  | _ => false

def batchModel : Workflow → Bool
  | .batch _ => true
  | _ => false

/-- The workflows the task pass spares: it reads the iters, the batches and then the chains. -/
def liveWorkflows (tb : Tables) : List Workflow :=
  tb.liveWorkflowIds iterModel ++ tb.liveWorkflowIds batchModel ++ tb.liveWorkflowIds chainModel

/-- One pass: its name in what `sweep_retention` returns, and what it deletes. -/
def sweepPass (batchSize : Nat) (name : String) (queryset : Tables → List RowKey)
    (acc : Tables × List (String × Nat)) : Tables × List (String × Nat) :=
  let (tb, count) := acc.1.deleteInBatches queryset batchSize maxBatches
  (tb, if count = 0 then acc.2 else acc.2 ++ [(name, count)])

/-- The passes of one sweep, undisturbed: the tables they leave, and the rows deleted by model. -/
def prune (c : RetentionSettings) (cutoff : Time) (tb : Tables) : Tables × List (String × Nat) :=
  let openGraphs := tb.openGraphIds
  let acc := sweepPass c.batchSize "QraftChainModel" (sweptWorkflows cutoff openGraphs chainModel) (tb, [])
  let acc := sweepPass c.batchSize "QraftIterModel" (sweptWorkflows cutoff openGraphs iterModel) acc
  let acc := sweepPass c.batchSize "QraftBatchModel" (sweptWorkflows cutoff openGraphs batchModel) acc
  let acc := sweepPass c.batchSize "QraftTask" (sweptTasks cutoff openGraphs acc.1.liveWorkflows) acc
  let acc := sweepPass c.batchSize "QraftGraph" (sweptGraphs cutoff) acc
  sweepPass c.batchSize "WorkflowHookDispatch" (sweptDispatches cutoff) acc

/-- `sweep_retention`, with the configuration and the arguments of the call. -/
def sweepRetention (conf args : RetentionSettings) (now : Time) (tb : Tables) :
    Tables × List (String × Nat) :=
  match (conf.override args).cutoff now tb with
  | none => (tb, [])
  | some cutoff => tb.prune (conf.override args) cutoff

end Tables
end Qraft
