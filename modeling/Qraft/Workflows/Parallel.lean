import Qraft.Lifecycle.Runs
import Qraft.Models.Workflows

/-! An iter or a batch in the middle of the task table: its counters, the handles callers hold,
and the processes that route its members' completions, each between two of its transactions. -/
namespace Qraft

/-- What an iter fixes for all its members, and a batch leaves to each of them. -/
inductive ParallelKind where
  | iter (func : String) (options : MemberOptions)
  | batch

/-- `_workflow_type`, and as it begins a sentence. -/
def ParallelKind.value : ParallelKind → String × String
  | .iter _ _ => ("iter", "Iter")
  | .batch => ("batch", "Batch")

/-- `QraftIterModel` and `QraftBatchModel`. -/
structure QraftParallelModel extends WorkflowRow where
  id : Nat
  kind : ParallelKind
  totalCount : Nat := 0
  completedCount : Nat := 0
  successCount : Nat := 0
  failureCount : Nat := 0

/-- What `append` keeps of a member; an iter's members have no function and options of their
own. -/
structure ParallelItem where
  func : String := ""
  args : List Json := []
  kwargs : JsonDict := []
  options : MemberOptions := {}

/-- A `QraftIter` or `QraftBatch` object: what its `_model` says, and the items appended. -/
structure ParallelHandle where
  status : WorkflowStatus
  items : List ParallelItem := []

/-- How far `ParallelDispatcher.handle` is. -/
inductive ParallelPhase where
  /-- `handle` is called. -/
  | handed
  /-- `handle` calls `_atomic_increment`. -/
  | counting
  /-- The workflow is settled, and its hook is not dispatched yet. -/
  | announcing (settled : QraftParallelModel) (settlement : Nat)
  /-- The attempt is not flagged routed yet. -/
  | returned

structure ParallelRouting where
  task : TaskId
  attempt : AttemptId
  /-- `attempt.success`, as the process read it. -/
  success : Bool
  phase : ParallelPhase

structure ParallelState where
  life : Lifecycle := {}
  model : QraftParallelModel
  handles : List ParallelHandle := []
  routings : List ParallelRouting := []
  hookTable : HookTable := {}
  /-- The workflow's `tasks`. -/
  members : List TaskId := []
  /-- The attempts whose `counted` column is set. -/
  counted : List (TaskId × AttemptId) := []
  /-- The outcomes of the settlements so far; no function reads them. -/
  settlements : List WorkflowStatus := []

inductive ParallelEvent where
  | table (e : LifecycleEvent)
  /-- A caller makes a handle, of the row or with items of its own. -/
  | load (items : List ParallelItem)
  /-- `refresh_from_db` of a handle. -/
  | refresh (h : Nat)
  /-- `raises` is what creating a member raises, when it does. -/
  | run (h : Nat) (raises : Option QraftError)
  /-- `raises` is whether the enqueue of the workflow's hook does. -/
  | cancel (h : Nat) (raises : Bool)
  /-- `route_workflow_completion` for a decided attempt. -/
  | route (i : Nat)
  /-- `_is_task_terminal`. -/
  | handle (k : Nat)
  /-- `_atomic_increment`. -/
  | increment (k : Nat)
  /-- `_dispatch_workflow_hook`. -/
  | announce (k : Nat) (raises : Bool)
  /-- The attempt is flagged routed. -/
  | finish (k : Nat) (i : Nat)
  | crash (k : Nat)

namespace QraftParallelModel

/-- The model with its status and settlement columns replaced. -/
def withRow (m : QraftParallelModel) (w : WorkflowRow) : QraftParallelModel :=
  { m with toWorkflowRow := w }

/-- The column of a member that names its workflow. -/
def workflow (m : QraftParallelModel) : Workflow :=
  match m.kind with
  | .iter _ _ => .iter m.id
  | .batch => .batch m.id

/-- The function and the options a member is created with. -/
def spec (m : QraftParallelModel) (item : ParallelItem) : String × MemberOptions :=
  match m.kind with
  | .iter func options => (func, options)
  | .batch => (item.func, item.options)

/-- The counters after one more completion. -/
def count (m : QraftParallelModel) (success : Bool) (now : Time) : QraftParallelModel :=
  { m with
    completedCount := m.completedCount + 1
    successCount := if success then m.successCount + 1 else m.successCount
    failureCount := if success then m.failureCount else m.failureCount + 1
    dateUpdated := now }

def outcome (m : QraftParallelModel) : WorkflowStatus :=
  if m.failureCount = 0 then .succeeded else .failed

/-- The hook `_dispatch_workflow_hook` picks. -/
def hookType (m : QraftParallelModel) : HookType :=
  if m.failureCount = 0 then .success else .failure

/-- `workflow_hook_context`, for a hook that asks for it. -/
def workflowHookContext (m : QraftParallelModel) : Option WorkflowContext :=
  if m.hookContext then
    some {
      outcome := m.status
      counters := [("completed_count", m.completedCount), ("total_count", m.totalCount),
        ("success_count", m.successCount), ("failure_count", m.failureCount)] }
  else none

end QraftParallelModel

namespace ParallelState

def joined (s : ParallelState) (metadata : QraftTask) (cluster : Option String) (env : Env) :
    ParallelState :=
  { s with
    life := s.life.createAndEnqueue metadata cluster env
    members := s.members ++ [s.life.store.nextId] }

/-- `_create_workflow_task` for one item. -/
def addMember (defaults : RetryDefaults) (env : Env) (s : ParallelState) (item : ParallelItem) :
    Except QraftError ParallelState := do
  let (func, options) := s.model.spec item
  let metadata ← s.model.toWorkflowRow.member defaults func item.args item.kwargs options
    (some s.model.workflow)
  return s.joined metadata options.cluster env

def setHandle (s : ParallelState) (h : Nat) (status : WorkflowStatus) : ParallelState :=
  { s with handles := s.handles.modify h fun x => { x with status } }

def setRouting (s : ParallelState) (k : Nat) (r : ParallelRouting) : ParallelState :=
  { s with routings := s.routings.set k r }

def endRouting (s : ParallelState) (k : Nat) : ParallelState :=
  { s with routings := s.routings.eraseIdx k }

/-- The hook of one type is dispatched, with what the model says. -/
def dispatchWorkflowHook (s : ParallelState) (m : QraftParallelModel) (hookType : HookType)
    (settlement : Nat) (raises : Bool) : ParallelState :=
  { s with hookTable :=
      s.hookTable.dispatchOnce hookType (m.hookOf hookType) m.workflowHookContext settlement raises }

def settled (s : ParallelState) (row : WorkflowRow) : ParallelState :=
  { s with model := s.model.withRow row, settlements := s.settlements ++ [row.status] }

/-- A cancelled row is written, and `_announce_cancelled` runs in the same transaction. -/
def announceCancelled (s : ParallelState) (row : WorkflowRow) (raises : Bool) : ParallelState :=
  (s.settled row).dispatchWorkflowHook (s.model.withRow row) .cancelled s.settlements.length raises

/-- What `run` publishes before it creates the members. -/
def started (s : ParallelState) (total : Nat) (env : Env) : ParallelState :=
  { s with model := { s.model with totalCount := total, status := .running, dateUpdated := env.now } }

/-- `QraftIter.run` and `QraftBatch.run`. The handle's own status decides, and is written. -/
def run (defaults : RetryDefaults) (s : ParallelState) (x : ParallelHandle)
    (raises : Option QraftError) (env : Env) : Except QraftError ParallelState :=
  if x.items = [] then .error (.valueError s!"Cannot run empty {s.model.kind.value.1}")
  else if x.status ≠ .pending then
    .error (.valueError s!"{s.model.kind.value.2} already run (status: {x.status.value})")
  else do
    let s' ← x.items.foldlM (addMember defaults env) (s.started x.items.length env)
    match raises with
    | some e => .error e
    | none => return s'

def isTaskTerminal (s : ParallelState) (r : ParallelRouting) : Bool :=
  r.success || (s.life.store.task? r.task).any fun t => decide t.status.Dead

def counting (s : ParallelState) (r : ParallelRouting) (env : Env) : ParallelState :=
  { s with
    model := s.model.count r.success env.now
    counted := s.counted ++ [(r.task, r.attempt)] }

/-- `_atomic_increment` for the completion a process routes; the second component is the
settled workflow, when the count is complete. -/
def atomicIncrement (s : ParallelState) (r : ParallelRouting) (env : Env) :
    ParallelState × Option QraftParallelModel :=
  if s.model.status = .cancelled then (s, none)
  else if (r.task, r.attempt) ∈ s.counted then (s, none)
  else
    let s' := s.counting r env
    if s'.model.totalCount ≤ s'.model.completedCount then
      match s'.model.settleWorkflow s'.model.outcome env.now with
      | none => (s', none)
      | some row => (s'.settled row, some (s'.model.withRow row))
    else (s', none)

def settledPhase (s : ParallelState) : Option QraftParallelModel → ParallelPhase
  | none => .returned
  | some m => .announcing m (s.settlements.length - 1)

def isMember (s : ParallelState) (task : TaskId) : Bool := task ∈ s.members

/-- The steps of the task table that are not the workflow's own: members are flagged routed by
the processes below, and publish nothing. -/
def foreign (s : ParallelState) : LifecycleEvent → Bool
  | .route i => s.life.due[i]?.all fun (held, _) => !s.isMember held.id
  | .commitOutput task _ => !s.isMember task
  | _ => true

def step (defaults : RetryDefaults) (limit : Nat) (s : ParallelState) (env : Env) :
    ParallelEvent → Option ParallelState
  | .table e =>
    if s.foreign e then (s.life.step limit env e).map fun life => { s with life } else none
  | .load items => some { s with handles := s.handles ++ [⟨s.model.status, items⟩] }
  | .refresh h => some (s.setHandle h s.model.status)
  | .run h raises =>
    s.handles[h]?.map fun x =>
      match s.run defaults x raises env with
      | .ok s' => s'.setHandle h s'.model.status
      | .error _ =>
        if x.items ≠ [] ∧ x.status = .pending then s.setHandle h s.model.status else s
  | .cancel h raises =>
    s.handles[h]?.map fun _ =>
      match s.model.cancel env.now with
      | some row => (s.announceCancelled row raises).setHandle h .cancelled
      | none => s.setHandle h s.model.status
  | .route i =>
    s.life.due[i]?.bind fun (held, attempt) =>
      (held.attempt? attempt).bind fun a => a.success.bind fun success =>
        if s.isMember held.id then
          some { s with routings := s.routings ++ [{ task := held.id, attempt, success, phase := .handed }] }
        else none
  | .handle k =>
    s.routings[k]?.bind fun r =>
      match r.phase with
      | .handed =>
        let phase := if s.isTaskTerminal r then .counting else .returned
        some (s.setRouting k { r with phase })
      | _ => none
  | .increment k =>
    s.routings[k]?.bind fun r =>
      match r.phase with
      | .counting =>
        let (s', settled) := s.atomicIncrement r env
        some (s'.setRouting k { r with phase := s'.settledPhase settled })
      | _ => none
  | .announce k raises =>
    s.routings[k]?.bind fun r =>
      match r.phase with
      | .announcing m settlement =>
        some ((s.dispatchWorkflowHook m m.hookType settlement raises).setRouting k { r with phase := .returned })
      | _ => none
  | .finish k i =>
    s.routings[k]?.bind fun r => s.life.due[i]?.bind fun (held, attempt) =>
      match r.phase with
      | .returned =>
        if held.id = r.task ∧ attempt = r.attempt then
          (s.life.step limit env (.route i)).map fun life => { s.endRouting k with life }
        else none
      | _ => none
  | .crash k => some (s.endRouting k)

end ParallelState

/-- One iter or batch, created but not run, with everything that may happen around it. -/
def parallelSystem (defaults : RetryDefaults) (limit : Nat) :
    StepSystem ParallelState (ParallelEvent × Env) where
  init s := ∃ model : QraftParallelModel, model.status = .pending ∧ model.settledAt = none ∧
    model.totalCount = 0 ∧ model.completedCount = 0 ∧ model.successCount = 0 ∧
    model.failureCount = 0 ∧ s = { model }
  step s e := s.step defaults limit e.2 e.1

end Qraft
