import Qraft.Foundations.StepSystem
import Qraft.Lease
import Qraft.Resolution

/-! Runs of the task table: enqueues, dispatchers, workers' lease writes, result handlers,
reapers and requeues, in any order. What a process read before it takes the task row's
lock is part of the state. -/
namespace Qraft

/-- An attempt a sweep took down, with the sweep's heartbeat cutoff. -/
structure Candidate where
  task : TaskId
  attempt : AttemptId
  q2TaskId : Option Q2TaskId
  heartbeatCutoff : Time

/-- The row `_reap_one` holds while it waits for the task lock. -/
structure ReaperRead where
  task : TaskId
  row : QraftTaskAttempt
  heartbeatCutoff : Time

/-- A task instance in the hands of a process. -/
structure TaskInstance where
  task : TaskId
  status : TaskStatus

structure Lifecycle where
  store : TaskStore := {}
  /-- Every Django-Q2 result saved so far; a handler may be called with any of them. -/
  results : List Q2Task := []
  /-- Ids with a Django-Q2 `Task` row. -/
  q2Rows : List Q2TaskId := []
  /-- Messages in the broker queue. -/
  queue : List Q2TaskId := []
  /-- Workflows and graphs whose status is CANCELLED. -/
  cancelled : List Workflow := []
  unstarted : List Candidate := []
  orphans : List Candidate := []
  reads : List ReaperRead := []
  /-- Instances callers of `requeue` hold. -/
  instances : List TaskInstance := []
  requeues : List Requeue := []
  /-- Decided tasks, as instances whose routing a process still has to run. -/
  due : List (QraftTask × AttemptId) := []
  /-- Attempts a sweep saw not started and then not queued; no function reads them. -/
  unqueued : List AttemptId := []

inductive LifecycleEvent where
  /-- `_create_and_enqueue`, with the caller's metadata and cluster. -/
  | asyncTask (metadata : QraftTask) (cluster : Option String) (traceContext : Option String)
  /-- A task created with its first attempt scheduled, as a graph does for a node. -/
  | scheduleTask (metadata : QraftTask) (cluster : Option String)
  /-- `_claim_and_enqueue` picks this attempt. -/
  | claimAndEnqueue (task : TaskId) (attempt : AttemptId) (cutoff : Time)
  /-- A message leaves the queue for good. -/
  | acknowledge (q2TaskId : Q2TaskId)
  | lease (q2TaskId : Q2TaskId) (w : LeaseWrite)
  /-- `publish()` stamps the attempt. -/
  | commitOutput (task : TaskId) (attempt : AttemptId)
  /-- The monitor saves a result. -/
  | saveResult (result : Q2Task)
  /-- Django-Q2 trims a saved row. -/
  | trim (q2TaskId : Q2TaskId)
  /-- `qraft_hook_handler` on a saved result: the monitor's call, a repeat or a replay. -/
  | handleResult (i : Nat)
  | cancelWorkflow (w : Workflow)
  | reopenWorkflow (w : Workflow)
  /-- The first query of `reap_orphans` finds this attempt. -/
  | selectStale (task : TaskId) (attempt : AttemptId) (heartbeatCutoff : Time)
  /-- The second finds it. -/
  | selectUnstarted (task : TaskId) (attempt : AttemptId) (heartbeatCutoff staleCutoff : Time)
  /-- The queue is read for an attempt that never started. -/
  | checkQueue (i : Nat)
  /-- `_reap_one` reads the attempt row. -/
  | readOrphan (i : Nat)
  /-- `_reap_one` gets the task lock. -/
  | reap (i : Nat)
  | loadInstance (task : TaskId)
  /-- `requeue` up to its insert. -/
  | requeueCheck (i : Nat)
  | requeueCommit (i : Nat)
  /-- `replay_unrouted` finds this attempt. -/
  | replayUnrouted (task : TaskId) (attempt : AttemptId) (cutoff : Time)
  /-- Routing ends with the attempt flagged. -/
  | route (i : Nat)
  /-- A process dies, or raises, with an attempt to route. -/
  | crash (i : Nat)
  /-- `rearm_stuck_claims`. -/
  | rearm (cutoff : Time)

def LifecycleEvent.isRequeue : LifecycleEvent → Bool
  | .requeueCommit _ => true
  | _ => false

namespace QraftTask

def attempt? (t : QraftTask) (id : AttemptId) : Option QraftTaskAttempt :=
  Rows.get? (fun a : QraftTaskAttempt => a.id) t.attempts id

/-- The stamp `publish()` leaves on the attempt that published. -/
def commitOutput (t : QraftTask) (id : AttemptId) (now : Time) : QraftTask :=
  t.updateAttempt id fun a => { a with outputCommittedAt := some now }

/-- The rows `_create_and_enqueue` inserts; the ids are those of the task, the attempt
and the queued message. -/
def enqueued (metadata : QraftTask) (cluster traceContext : Option String) (id : Nat) (env : Env) :
    QraftTask :=
  { metadata with
    id
    status := .running
    dateUpdated := env.now
    attempts := [{
      id := id + 1
      attemptNumber := 1
      q2TaskId := some (id + 2)
      cluster := orElse cluster (some env.executingCluster)
      traceContext
      dateCreated := env.now
      enqueuedAt := some env.now }] }

/-- The filter both queries of `reap_orphans` share. -/
def unresolved (t : QraftTask) (a : QraftTaskAttempt) (q2Rows : List Q2TaskId) : Bool :=
  a.success = none && t.status = .running && a.state = .queued &&
    a.q2TaskId.any fun q => q ∉ q2Rows

def rearm (t : QraftTask) (cutoff : Time) : QraftTask :=
  { t with
    attempts := Rows.updateWhere
      (fun a => a.state = .queued && a.q2TaskId.isNone && a.success = none &&
        a.claimedAt.any fun c => c < cutoff)
      (fun a => { a with state := .scheduled, claimedAt := none }) t.attempts }

end QraftTask

namespace TaskStore

/-- `_resolve_attempt`, without the markers of older releases. -/
def resolveAttempt (st : TaskStore) (q2TaskId : Q2TaskId) : Option (QraftTask × QraftTaskAttempt) :=
  st.tasks.findSome? fun t => (t.attempts.find? fun a => a.q2TaskId = some q2TaskId).map (t, ·)

end TaskStore

namespace Lifecycle

def q2Row (l : Lifecycle) (a : QraftTaskAttempt) : Bool := a.q2TaskId.any fun q => q ∈ l.q2Rows

/-- `_owning_workflow_cancelled`. -/
def ownerCancelled (l : Lifecycle) (t : QraftTask) : Bool := t.owner.any fun w => w ∈ l.cancelled

def find (l : Lifecycle) (task : TaskId) (attempt : AttemptId) : Option (QraftTask × QraftTaskAttempt) :=
  (l.store.task? task).bind fun t => (t.attempt? attempt).map (t, ·)

/-- A task row is written back; the id it may have used is spent. -/
def commit (l : Lifecycle) (t : QraftTask) : Lifecycle := { l with store := (l.store.save t).fresh }

/-- A resolution commits; what is due then is in its caller's hands. -/
def resolve (l : Lifecycle) (attempt : AttemptId) (r : QraftTask × Routing) : Lifecycle :=
  { l.commit r.1 with due := l.due ++ if r.2 = .due then [(r.1, attempt)] else [] }

def step (limit : Nat) (l : Lifecycle) (env : Env) : LifecycleEvent → Option Lifecycle
  | .asyncTask metadata cluster traceContext =>
    let id := l.store.nextId
    some { l with
      store := {
        tasks := l.store.tasks ++ [metadata.enqueued cluster traceContext id env], nextId := id + 3 }
      queue := l.queue ++ [id + 2] }
  | .scheduleTask metadata cluster =>
    let id := l.store.nextId
    ({ metadata with id, status := .pending, attempts := [] }.scheduleAttempt
        (id + 1) 1 env.now cluster env.now).toOption.map fun t =>
      { l with store := { tasks := l.store.tasks ++ [t], nextId := id + 2 } }
  | .claimAndEnqueue task attempt cutoff =>
    let q2TaskId := l.store.nextId
    (l.store.task? task).bind fun t =>
      (t.claimAndEnqueue attempt cutoff env.now q2TaskId env.executingCluster).map fun t' =>
        { l.commit t' with queue := l.queue ++ [q2TaskId] }
  | .acknowledge q2TaskId => some { l with queue := l.queue.erase q2TaskId }
  | .lease q2TaskId w => some { l with store := (l.store.lease limit q2TaskId w env.now).1 }
  | .commitOutput task attempt =>
    (l.store.task? task).map fun t =>
      l.commit (t.commitOutput attempt env.now)
  | .saveResult result =>
    some { l with results := l.results ++ [result], q2Rows := l.q2Rows.insert result.id }
  | .trim q2TaskId => some { l with q2Rows := l.q2Rows.erase q2TaskId }
  | .handleResult i =>
    l.results[i]?.bind fun result =>
      match l.store.resolveAttempt result.id with
      | none => some l
      | some (t, a) =>
        (t.handleResult a.id result (l.ownerCancelled t) l.store.nextId env).toOption.map
          (l.resolve a.id)
  | .cancelWorkflow w => some { l with cancelled := l.cancelled.insert w }
  | .reopenWorkflow w => some { l with cancelled := l.cancelled.erase w }
  | .selectStale task attempt heartbeatCutoff =>
    (l.find task attempt).bind fun (t, a) =>
      if t.unresolved a l.q2Rows ∧ a.heartbeatAt.any (fun h => h < heartbeatCutoff) then
        some { l with orphans := l.orphans ++ [⟨task, attempt, a.q2TaskId, heartbeatCutoff⟩] }
      else none
  | .selectUnstarted task attempt heartbeatCutoff staleCutoff =>
    (l.find task attempt).bind fun (t, a) =>
      if t.unresolved a l.q2Rows ∧ a.heartbeatAt = none ∧ a.claimedAt.getD a.dateCreated < staleCutoff
      then some { l with unstarted := l.unstarted ++ [⟨task, attempt, a.q2TaskId, heartbeatCutoff⟩] }
      else none
  | .checkQueue i =>
    l.unstarted[i]?.map fun c =>
      let l := { l with unstarted := l.unstarted.eraseIdx i }
      if c.q2TaskId.any fun q => q ∈ l.queue then l
      else { l with orphans := l.orphans ++ [c], unqueued := l.unqueued ++ [c.attempt] }
  | .readOrphan i =>
    l.orphans[i]?.bind fun c => (l.find c.task c.attempt).map fun (_, row) =>
      { l with
        orphans := l.orphans.eraseIdx i
        reads := l.reads ++ [⟨c.task, row, c.heartbeatCutoff⟩] }
  | .reap i =>
    l.reads[i]?.bind fun rd => (l.store.task? rd.task).bind fun t =>
      let l := { l with reads := l.reads.eraseIdx i }
      if t.reapable rd.row rd.heartbeatCutoff (l.q2Row rd.row) then
        (t.reap rd.row (l.ownerCancelled t) l.store.nextId env).toOption.map (l.resolve rd.row.id)
      else some l
  | .loadInstance task =>
    (l.store.task? task).map fun t => { l with instances := l.instances ++ [⟨task, t.status⟩] }
  | .requeueCheck i =>
    l.instances[i]?.bind fun x => (l.store.task? x.task).bind fun t =>
      (t.requeueCheck x.status).toOption.map fun r =>
        { l with instances := l.instances.eraseIdx i, requeues := l.requeues ++ [r] }
  | .requeueCommit i =>
    l.requeues[i]?.bind fun r => (l.store.task? r.task).bind fun t =>
      (t.scheduleAttempt l.store.nextId r.attemptNumber env.now r.cluster env.now).toOption.map
        fun t' => { l.commit t' with requeues := l.requeues.eraseIdx i }
  | .replayUnrouted task attempt cutoff =>
    (l.find task attempt).bind fun (t, a) =>
      if a.success ≠ none ∧ a.routed = false ∧ a.dateCompleted.any (fun d => d < cutoff) then
        some { l with due := l.due ++ [(t, attempt)] }
      else none
  | .route i =>
    l.due[i]?.bind fun (held, attempt) => (l.store.task? held.id).map fun t =>
      { l.commit (t.markRouted attempt) with due := l.due.eraseIdx i }
  | .crash i => some { l with due := l.due.eraseIdx i }
  | .rearm cutoff =>
    some { l with store := { l.store with tasks := l.store.tasks.map fun t => t.rearm cutoff } }

def createAndEnqueue (l : Lifecycle) (metadata : QraftTask) (cluster : Option String) (env : Env) :
    Lifecycle :=
  { l with
    store := {
      tasks := l.store.tasks ++ [metadata.enqueued cluster none l.store.nextId env]
      nextId := l.store.nextId + 3 }
    queue := l.queue ++ [l.store.nextId + 2] }

theorem step_asyncTask (limit : Nat) (l : Lifecycle) (metadata : QraftTask) (cluster : Option String)
    (env : Env) : l.step limit env (.asyncTask metadata cluster none) =
      some (l.createAndEnqueue metadata cluster env) := rfl

end Lifecycle

/-- The task table from empty on. `limit` is `max_executions_per_attempt`. -/
def lifecycleSystem (limit : Nat) : StepSystem Lifecycle (LifecycleEvent × Env) where
  init l := l = {}
  step l e := l.step limit e.2 e.1

end Qraft
