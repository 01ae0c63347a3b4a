import Qraft.Lifecycle.Runs
import Qraft.Models.Workflows

/-! A chain in the middle of the task table: its row and steps, the handles callers hold, and
the processes that route completions to it, each between two of its transactions. -/
namespace Qraft

/-- `QraftChainStep`; its index is its place in the chain. -/
structure QraftChainStep where
  func : String
  taskArgs : List Json := []
  taskKwargs : JsonDict := []
  options : MemberOptions := {}
  requiresApproval : Bool := false
  /-- The task the step is bound to. -/
  qraftTask : Option TaskId := none

/-- `QraftChainModel`, with its steps. -/
structure QraftChainModel extends WorkflowRow where
  id : Nat
  currentStepIndex : Nat := 0
  steps : List QraftChainStep := []

/-- A `QraftChain` object: what its `_model` says, and the steps appended to it. -/
structure ChainHandle where
  status : WorkflowStatus
  steps : List QraftChainStep := []

/-- The call a step's task was created in. -/
inductive StepOrigin where
  | run
  | advance
  | approve
  | resume
  deriving DecidableEq, Repr

structure QueuedStep where
  index : Nat
  task : TaskId
  origin : StepOrigin
  /-- How often the chain had been resumed. -/
  resumes : Nat
  deriving DecidableEq

/-- How far `route_workflow_completion` is. -/
inductive ChainPhase where
  /-- The step is bound to the task. -/
  | bound
  /-- `handle` calls `_handle_step_success`. -/
  | advancing
  /-- `handle` calls `_handle_step_failure`. -/
  | failing
  /-- The chain is settled, and its hook is not dispatched yet. -/
  | announcing (settled : QraftChainModel) (hookType : HookType) (settlement : Nat)
  /-- The attempt is not flagged routed yet. -/
  | returned

structure ChainRouting where
  index : Nat
  task : TaskId
  attempt : AttemptId
  /-- `attempt.success`, as the process read it. -/
  success : Bool
  phase : ChainPhase

structure ChainState where
  life : Lifecycle := {}
  chain : QraftChainModel
  handles : List ChainHandle := []
  routings : List ChainRouting := []
  hookTable : HookTable := {}
  /-- Every task ever created for a step. A join made earlier may still lead from the task to
  the step. -/
  queued : List QueuedStep := []
  /-- Steps approved while the chain was parked on them. This and what follows is read by no
  function. -/
  approved : List Nat := []
  /-- Steps whose own failure failed the chain. -/
  failed : List Nat := []
  resumes : Nat := 0
  /-- The outcomes of the settlements so far. -/
  settlements : List WorkflowStatus := []

inductive ChainEvent where
  | table (e : LifecycleEvent)
  /-- A caller makes a handle, of the row or with steps of its own. -/
  | load (steps : List QraftChainStep)
  /-- `refresh_from_db` of a handle. -/
  | refresh (h : Nat)
  /-- `raises` is what the enqueue raises, when it does. -/
  | run (h : Nat) (raises : Option QraftError)
  | resume (h : Nat) (raises : Option QraftError)
  | approve (h : Nat) (raises : Option QraftError)
  /-- From here on, `raises` is whether the enqueue of the workflow's hook does. -/
  | reject (h : Nat) (raises : Bool)
  | cancel (h : Nat) (raises : Bool)
  /-- `route_workflow_completion` for a decided attempt, up to its binding check. -/
  | route (i : Nat) (index : Nat)
  /-- `handle`, up to the branch it takes. -/
  | handle (k : Nat)
  /-- The transaction of `_handle_step_success`. -/
  | stepSuccess (k : Nat) (raises : Option QraftError)
  /-- The transaction of `_complete_chain`. -/
  | stepFailure (k : Nat)
  /-- `_dispatch_chain_hook`. -/
  | announce (k : Nat) (raises : Bool)
  /-- The attempt is flagged routed. -/
  | finish (k : Nat) (i : Nat)
  | crash (k : Nat)

namespace QraftChainModel

/-- The chain with its status and settlement columns replaced. -/
def withRow (c : QraftChainModel) (w : WorkflowRow) : QraftChainModel := { c with toWorkflowRow := w }

/-- `step.qraft_task = task`. -/
def bindStep (c : QraftChainModel) (index : Nat) (task : Option TaskId) : QraftChainModel :=
  { c with steps := c.steps.modify index fun st => { st with qraftTask := task } }

def boundTask (c : QraftChainModel) (index : Nat) : Option TaskId :=
  c.steps[index]?.bind fun st => st.qraftTask

/-- `workflow_hook_context`, for a hook that asks for it. -/
def workflowHookContext (c : QraftChainModel) : Option WorkflowContext :=
  if c.hookContext then
    some { outcome := c.status, counters := [("current_step_index", c.currentStepIndex)] }
  else none

end QraftChainModel

namespace ChainState

/-- The task of a step is created, queued and linked to the step. -/
def createAndLink (s : ChainState) (index : Nat) (origin : StepOrigin) (metadata : QraftTask)
    (cluster : Option String) (env : Env) : ChainState :=
  { s with
    life := s.life.createAndEnqueue metadata cluster env
    chain := s.chain.bindStep index (some s.life.store.nextId)
    queued := s.queued ++ [⟨index, s.life.store.nextId, origin, s.resumes⟩] }

def queueChainStep (defaults : RetryDefaults) (s : ChainState) (index : Nat) (origin : StepOrigin)
    (raises : Option QraftError) (env : Env) : Except QraftError ChainState :=
  match s.chain.steps[index]? with
  | none => .error (.valueError "QraftChainStep matching query does not exist.")
  | some st => do
    let metadata ← s.chain.toWorkflowRow.member defaults st.func st.taskArgs st.taskKwargs st.options
      (some (.chain s.chain.id))
    match raises with
    | some e => .error e
    | none => return s.createAndLink index origin metadata st.options.cluster env

/-- The hook of one type is dispatched, with what the chain's row says. -/
def dispatchWorkflowHook (s : ChainState) (row : QraftChainModel) (hookType : HookType)
    (settlement : Nat) (raises : Bool) : ChainState :=
  { s with hookTable :=
      s.hookTable.dispatchOnce hookType (row.hookOf hookType) row.workflowHookContext settlement raises }

def setHandle (s : ChainState) (h : Nat) (status : WorkflowStatus) : ChainState :=
  { s with handles := s.handles.modify h fun x => { x with status } }

def setRouting (s : ChainState) (k : Nat) (r : ChainRouting) : ChainState :=
  { s with routings := s.routings.set k r }

def endRouting (s : ChainState) (k : Nat) : ChainState := { s with routings := s.routings.eraseIdx k }

def settled (s : ChainState) (row : WorkflowRow) : ChainState :=
  { s with chain := s.chain.withRow row, settlements := s.settlements ++ [row.status] }

/-- A cancelled row is written, and `_announce_cancelled` runs in the same transaction. -/
def announceCancelled (s : ChainState) (row : WorkflowRow) (raises : Bool) : ChainState :=
  (s.settled row).dispatchWorkflowHook (s.chain.withRow row) .cancelled s.settlements.length raises

/-- The rows `run` inserts, and the status it leaves. -/
def started (s : ChainState) (steps : List QraftChainStep) (status : WorkflowStatus) (env : Env) :
    ChainState :=
  { s with chain := { s.chain with
    steps := steps.map fun st => { st with qraftTask := none }, status, dateUpdated := env.now } }

/-- `QraftChain.run`. The handle's own status decides, and is written. -/
def run (defaults : RetryDefaults) (s : ChainState) (x : ChainHandle) (raises : Option QraftError)
    (env : Env) : Except QraftError ChainState :=
  match x.steps with
  | [] => .error (.valueError "Cannot run empty chain")
  | first :: _ =>
    if x.status ≠ .pending then
      .error (.valueError s!"Chain already run (status: {x.status.value})")
    else if s.chain.steps ≠ [] then .error (.integrityError "unique_chain_step")
    else if first.requiresApproval then .ok (s.started x.steps .waitingApproval env)
    else (s.started x.steps .running env).queueChainStep defaults 0 .run raises env

/-- What `resume` writes before it queues the step, given the row that made the transition. -/
def reopened (s : ChainState) (row : WorkflowRow) (env : Env) : ChainState :=
  let chain := s.chain.withRow { row with settledAt := none, dateUpdated := env.now }
  { s with
    chain := chain.bindStep chain.currentStepIndex none
    hookTable := { s.hookTable with dispatches := [] }
    resumes := s.resumes + 1 }

/-- `QraftChain.resume`, from its lock on. -/
def resume (defaults : RetryDefaults) (s : ChainState) (raises : Option QraftError) (env : Env) :
    Except QraftError ChainState := do
  let row ← s.chain.transitionTo .running
  (s.reopened row env).queueChainStep defaults s.chain.currentStepIndex .resume raises env

/-- What `approve` writes before it queues the step. -/
def unparked (s : ChainState) (row : WorkflowRow) (env : Env) : ChainState :=
  { s with
    chain := s.chain.withRow { row with dateUpdated := env.now }
    approved := if s.chain.status = .waitingApproval then s.approved ++ [s.chain.currentStepIndex]
      else s.approved }

/-- `QraftChain.approve`, from its lock on. -/
def approve (defaults : RetryDefaults) (s : ChainState) (raises : Option QraftError) (env : Env) :
    Except QraftError ChainState := do
  let row ← s.chain.transitionTo .running
  (s.unparked row env).queueChainStep defaults s.chain.currentStepIndex .approve raises env

def reject (s : ChainState) (raises : Bool) (env : Env) : Except QraftError ChainState := do
  let row ← s.chain.transitionTo .cancelled
  return s.announceCancelled { row with settledAt := some env.now, dateUpdated := env.now } raises

def advancedTo (s : ChainState) (index : Nat) (row : WorkflowRow) (env : Env) : ChainState :=
  { s with chain := { s.chain.withRow { row with dateUpdated := env.now } with
    currentStepIndex := index } }

/-- The locked section of `_handle_step_success` for a completion of step `index`; the second
component is the settlement to announce. -/
def handleStepSuccess (defaults : RetryDefaults) (s : ChainState) (index : Nat)
    (raises : Option QraftError) (env : Env) :
    Except QraftError (ChainState × Option QraftChainModel) :=
  if s.chain.status = .cancelled then .ok (s, none)
  else if s.chain.currentStepIndex ≠ index then .ok (s, none)
  else
    match s.chain.steps[index + 1]? with
    | none =>
      match s.chain.settleWorkflow .succeeded env.now with
      | none => .ok (s, none)
      | some row => .ok (s.settled row, some (s.chain.withRow row))
    | some next =>
      if next.requiresApproval then do
        let row ← s.chain.transitionTo .waitingApproval
        return (s.advancedTo (index + 1) row env, none)
      else do
        let queued ← (s.advancedTo (index + 1) s.chain.toWorkflowRow env).queueChainStep defaults
          (index + 1) .advance raises env
        return (queued, none)

/-- The locked section of `_complete_chain(success=False)`, for a completion of step `index`. -/
def completeChain (s : ChainState) (index : Nat) (env : Env) : ChainState × Option QraftChainModel :=
  if s.chain.status = .cancelled then (s, none)
  else
    match s.chain.settleWorkflow .failed env.now with
    | none => (s, none)
    | some row =>
      ({ s.settled row with
        failed := if s.chain.currentStepIndex = index then s.failed ++ [index] else s.failed },
        some (s.chain.withRow row))

def handlePhase (s : ChainState) (r : ChainRouting) : ChainPhase :=
  if s.chain.status = .cancelled then .returned
  else if r.success then .advancing
  else if (s.life.store.task? r.task).any fun t => decide t.status.Dead then .failing
  else .returned

def settledPhase (s : ChainState) (hookType : HookType) : Option QraftChainModel → ChainPhase
  | none => .returned
  | some row => .announcing row hookType (s.settlements.length - 1)

def isMember (s : ChainState) (task : TaskId) : Bool := s.queued.any fun q => q.task = task

/-- The steps of the task table that are not the chain's own: members are flagged routed by
the processes below, and publish nothing. -/
def foreign (s : ChainState) : LifecycleEvent → Bool
  | .route i => s.life.due[i]?.all fun (held, _) => !s.isMember held.id
  | .commitOutput task _ => !s.isMember task
  | _ => true

def step (defaults : RetryDefaults) (limit : Nat) (s : ChainState) (env : Env) :
    ChainEvent → Option ChainState
  | .table e =>
    if s.foreign e then (s.life.step limit env e).map fun life => { s with life } else none
  | .load steps => some { s with handles := s.handles ++ [⟨s.chain.status, steps⟩] }
  | .refresh h => some (s.setHandle h s.chain.status)
  | .run h raises =>
    s.handles[h]?.map fun x =>
      match s.run defaults x raises env with
      | .ok s' => s'.setHandle h s'.chain.status
      -- The object keeps the transition its transaction lost.
      | .error _ =>
        if x.steps ≠ [] ∧ x.status = .pending ∧ s.chain.steps = [] then s.setHandle h .running else s
  | .resume h raises =>
    s.handles[h]?.bind fun x =>
      if x.status = .failed then
        (s.resume defaults raises env).toOption.map fun s' => s'.setHandle h s'.chain.status
      else none
  | .approve h raises =>
    s.handles[h]?.bind fun _ =>
      (s.approve defaults raises env).toOption.map fun s' => s'.setHandle h s'.chain.status
  | .reject h raises =>
    s.handles[h]?.bind fun _ =>
      (s.reject raises env).toOption.map fun s' => s'.setHandle h s'.chain.status
  | .cancel h raises =>
    s.handles[h]?.map fun _ =>
      match s.chain.cancel env.now with
      | some row => (s.announceCancelled row raises).setHandle h .cancelled
      | none => s.setHandle h s.chain.status
  | .route i index =>
    s.life.due[i]?.bind fun (held, attempt) =>
      (held.attempt? attempt).bind fun a => a.success.bind fun success =>
        if s.queued.any fun q => q.index = index ∧ q.task = held.id then
          let phase := if s.chain.boundTask index = some held.id then .bound else .returned
          some { s with routings := s.routings ++ [{ index, task := held.id, attempt, success, phase }] }
        else none
  | .handle k =>
    s.routings[k]?.bind fun r =>
      match r.phase with
      | .bound => some (s.setRouting k { r with phase := s.handlePhase r })
      | _ => none
  | .stepSuccess k raises =>
    s.routings[k]?.bind fun r =>
      match r.phase with
      | .advancing =>
        match s.handleStepSuccess defaults r.index raises env with
        | .ok (s', settled) => some (s'.setRouting k { r with phase := s'.settledPhase .success settled })
        -- The process dies of the exception, and its transaction is rolled back.
        | .error _ => some (s.endRouting k)
      | _ => none
  | .stepFailure k =>
    s.routings[k]?.bind fun r =>
      match r.phase with
      | .failing =>
        let (s', settled) := s.completeChain r.index env
        some (s'.setRouting k { r with phase := s'.settledPhase .failure settled })
      | _ => none
  | .announce k raises =>
    s.routings[k]?.bind fun r =>
      match r.phase with
      | .announcing row hookType settlement =>
        some ((s.dispatchWorkflowHook row hookType settlement raises).setRouting k { r with phase := .returned })
      | _ => none
  | .finish k i =>
    s.routings[k]?.bind fun r => s.life.due[i]?.bind fun (held, attempt) =>
      match r.phase with
      | .returned =>
        if held.id = r.task ∧ attempt = r.attempt then
          (s.life.step limit env (.route i)).map fun life => { s.endRouting k with life }
        else none
      | _ => none
  | .crash k => some (s.endRouting k)

end ChainState

/-- One chain, created but not run, with everything that may happen around it. -/
def chainSystem (defaults : RetryDefaults) (limit : Nat) : StepSystem ChainState (ChainEvent × Env) where
  init s := ∃ chain : QraftChainModel, chain.status = .pending ∧ chain.settledAt = none ∧
    chain.currentStepIndex = 0 ∧ chain.steps = [] ∧ s = { chain }
  step s e := s.step defaults limit e.2 e.1

end Qraft
