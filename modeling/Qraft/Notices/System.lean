import Qraft.Lifecycle.Orderly

/-! The task table with what its processes tell the application: the announcement of a resolution,
and the hook of a task's outcome. -/
namespace Qraft

inductive Resolution where
  | succeeded
  | failed
  | orphaned
  deriving DecidableEq, Repr

def Resolution.success : Resolution → Bool
  | .succeeded => true
  | _ => false

/-- What `announce_resolution` sends: `attempt_finished`, and with `settled` `task_settled`. -/
structure Announcement where
  task : TaskId
  attempt : AttemptId
  outcome : Resolution
  settled : Bool
  deriving DecidableEq

namespace QraftTask

/-- The hook that `HookDispatcher.dispatch` goes for; an empty path counts as none. -/
def hookPath (t : QraftTask) (success : Bool) : Option String :=
  (if success then t.successHook else t.failureHook).filter fun path => path ≠ ""

/-- Whether a completion goes on to the task's own hooks: for a member of a chain, iter or batch
`route_workflow_completion` answers instead. -/
def ownHooks (t : QraftTask) : Bool := t.graphNode.isSome || t.workflow.isNone

def hooked (t : QraftTask) (success : Bool) : Bool := t.ownHooks && (t.hookPath success).isSome

end QraftTask

namespace Lifecycle

/-- What a step announces: the handler what it resolves, the reaper what it fails. `_resolve_committed`
returns before the announcement. -/
def announces (l : Lifecycle) (env : Env) : LifecycleEvent → Option Announcement
  | .handleResult i =>
    l.results[i]?.bind fun result => (l.store.resolveAttempt result.id).bind fun (t, a) =>
      (t.handleResult a.id result (l.ownerCancelled t) l.store.nextId env).toOption.bind fun r =>
        if r.2 = .dropped then none
        else some {
          task := t.id
          attempt := a.id
          outcome := if result.success then .succeeded else .failed
          settled := r.2 ≠ .absorbed }
  | .reap i =>
    l.reads[i]?.bind fun rd => (l.store.task? rd.task).bind fun t =>
      if t.reapable rd.row rd.heartbeatCutoff (l.q2Row rd.row) = true ∧ rd.row.outputCommittedAt = none then
        (t.reap rd.row (l.ownerCancelled t) l.store.nextId env).toOption.map fun r => {
          task := t.id
          attempt := rd.row.id
          outcome := .orphaned
          settled := r.2 ≠ .absorbed }
      else none
  | _ => none

def revives (l : Lifecycle) : LifecycleEvent → Option TaskId
  | .requeueCommit i => l.requeues[i]?.map fun r => r.task
  | _ => none

/-- Whether a reap recovers an attempt that had published. -/
def recovers (l : Lifecycle) : LifecycleEvent → Bool
  | .reap i => l.reads[i]?.any fun rd => (l.store.task? rd.task).any fun t =>
      t.reapable rd.row rd.heartbeatCutoff (l.q2Row rd.row) && rd.row.outputCommittedAt.isSome
  | _ => false

end Lifecycle

def heldOutcome (x : QraftTask × AttemptId) : Option Bool := (x.1.attempt? x.2).bind fun a => a.success

/-- `_resolve_committed` flags its attempt before it goes on, and then calls
`handle_node_completion` alone. -/
def silent (x : QraftTask × AttemptId) : Bool := (x.1.attempt? x.2).any fun a => a.routed

structure Notifying where
  life : Lifecycle := {}
  /-- `HookDispatch` rows: the task and the type of the hook. -/
  dispatches : List (TaskId × Bool) := []
  /-- Hooks queued, or called inline. -/
  hooks : List (TaskId × Bool) := []
  announced : List Announcement := []
  /-- Attempts for which a process has been through `HookDispatcher`, with the outcome it held. -/
  served : List (TaskId × AttemptId × Bool) := []
  /-- Tasks that were requeued; no function reads it. -/
  revived : List TaskId := []

inductive NoticeEvent where
  /-- A step of the table. Without `alive` its process dies before its `on_commit` callbacks run. -/
  | table (e : LifecycleEvent) (alive : Bool)
  /-- `HookDispatcher.dispatch` for a decided attempt; without `enqueued` it raises on the way. -/
  | dispatch (i : Nat) (enqueued : Bool)
  /-- The attempt is flagged routed. -/
  | finish (i : Nat)

namespace Notifying

/-- `_call_hook`: inline under `sync_hooks`, otherwise once for each task and type. Claim and enqueue
are one transaction. -/
def callHook (w : Notifying) (sync enqueued : Bool) (task : TaskId) (success : Bool) : Notifying :=
  if sync then
    if enqueued then { w with hooks := w.hooks ++ [(task, success)] } else w
  else if (task, success) ∈ w.dispatches then w
  else if enqueued then
    { w with dispatches := w.dispatches ++ [(task, success)], hooks := w.hooks ++ [(task, success)] }
  else w

/-- `HookDispatcher.dispatch`, where routing comes to it. -/
def dispatch (w : Notifying) (sync enqueued : Bool) (t : QraftTask) (success : Bool) : Notifying :=
  if t.hooked success then w.callHook sync enqueued t.id success else w

def step (sync : Bool) (limit : Nat) (w : Notifying) (env : Env) : NoticeEvent → Option Notifying
  | .table (.route _) _ => none
  | .table e alive =>
    (w.life.step limit env e).map fun life =>
      { w with
        life
        announced := w.announced ++ if alive then (w.life.announces env e).toList else []
        revived := w.revived ++ (w.life.revives e).toList }
  | .dispatch i enqueued =>
    w.life.due[i]?.bind fun x =>
      if silent x then none
      else (heldOutcome x).map fun success =>
        { w.dispatch sync enqueued x.1 success with served := w.served ++ [(x.1.id, x.2, success)] }
  | .finish i =>
    w.life.due[i]?.bind fun x => (heldOutcome x).bind fun success =>
      if (x.1.id, x.2, success) ∈ w.served then
        (w.life.step limit env (.route i)).map fun life => { w with life }
      else none

/-- A step on which the settlement paths agree: it recovers no attempt that had published and acts on no
superseded read; its process lives to announce what it resolved; and a hook that is called is
enqueued, under `sync_hooks` for the first time. -/
def alike (sync : Bool) (w : Notifying) (env : Env) : NoticeEvent → Bool
  | .table e alive =>
    w.life.inOrder e && !w.life.recovers e && (alive || (w.life.announces env e).isNone)
  | .dispatch i enqueued =>
    w.life.due[i]?.all fun x => (heldOutcome x).all fun success =>
      !x.1.hooked success || enqueued && !(sync && decide ((x.1.id, success) ∈ w.hooks))
  | .finish _ => true

end Notifying

/-- The task table from empty on, with its notices. `sync` is the `sync_hooks` setting. -/
def noticeSystem (sync : Bool) (limit : Nat) : StepSystem Notifying (NoticeEvent × Env) where
  init w := w = {}
  step w e := w.step sync limit e.2 e.1

end Qraft
