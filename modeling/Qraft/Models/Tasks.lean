import Mathlib.Data.List.MinMax
import Qraft.Foundations.Rows
import Qraft.Retry

/-! Task and attempt rows. Attempts hang off their task as the `attempts` related
set, so that one task row lock covers them. -/
namespace Qraft

inductive TaskStatus where
  | pending
  | running
  | succeeded
  | failed
  | exhausted
  deriving DecidableEq, Repr

/-- `TERMINAL_TASK_STATUSES`. -/
def TaskStatus.Terminal (s : TaskStatus) : Prop := s = .succeeded ∨ s = .failed ∨ s = .exhausted

/-- `DEAD_STATUSES` of the dead-letter queue, `TERMINAL_FAILURE_STATUSES` of the dispatchers. -/
def TaskStatus.Dead (s : TaskStatus) : Prop := s = .failed ∨ s = .exhausted

instance (s : TaskStatus) : Decidable s.Terminal := inferInstanceAs (Decidable (_ ∨ _ ∨ _))
instance (s : TaskStatus) : Decidable s.Dead := inferInstanceAs (Decidable (_ ∨ _))

def TaskStatus.value : TaskStatus → String
  | .pending => "pending"
  | .running => "running"
  | .succeeded => "succeeded"
  | .failed => "failed"
  | .exhausted => "exhausted"

/-- Where an attempt sits relative to the broker. -/
inductive AttemptState where
  | scheduled
  | queued
  deriving DecidableEq, Repr

structure QraftTaskAttempt where
  id : AttemptId
  attemptNumber : Nat
  q2TaskId : Option Q2TaskId := none
  state : AttemptState := .queued
  notBefore : Option Time := none
  claimedAt : Option Time := none
  cluster : Option String := none
  dispatchFunc : Option String := none
  dispatchArgs : Option (List Json) := none
  success : Option Bool := none
  exceptionClass : Option String := none
  executionCount : Nat := 0
  routed : Bool := false
  traceContext : Option String := none
  dateCreated : Time
  enqueuedAt : Option Time := none
  dateStarted : Option Time := none
  heartbeatAt : Option Time := none
  returnedAt : Option Time := none
  outputCommittedAt : Option Time := none
  dateCompleted : Option Time := none

/-- The plan a task can be a member of; its status decides whether a retry still runs. -/
inductive Workflow where
  | graph (id : GraphId)
  | chain (id : Nat)
  | iter (id : Nat)
  | batch (id : Nat)
  deriving DecidableEq, Repr

structure QraftTask where
  id : TaskId
  status : TaskStatus := .pending
  func : String
  taskArgs : List Json := []
  taskKwargs : JsonDict := []
  successHook : Option String := none
  successArgs : List Json := []
  successKwargs : JsonDict := []
  failureHook : Option String := none
  failureArgs : List Json := []
  failureKwargs : JsonDict := []
  hookContext : Bool := false
  /-- `none` stands for the empty dictionary. -/
  retryPolicy : Option RetryPolicy := none
  stallAfter : Option Nat := none
  idempotencyKey : Option String := none
  priority : String := "default"
  subjectType : Option String := none
  subjectId : Option String := none
  graphId : Option GraphId := none
  node : Option String := none
  /-- Key of the graph node this task executes, in the graph `graphId`. -/
  graphNode : Option String := none
  /-- The chain, iter or batch the task belongs to, when it executes no graph node. -/
  workflow : Option Workflow := none
  dateUpdated : Time
  attempts : List QraftTaskAttempt := []

namespace QraftTask

/-- `attempts.order_by("-attempt_number").first()`. -/
def latestAttempt (t : QraftTask) : Option QraftTaskAttempt :=
  t.attempts.argmax fun a => a.attemptNumber

/-- The plan whose status `_owning_workflow_cancelled` reads. -/
def owner (t : QraftTask) : Option Workflow :=
  match t.graphNode, t.graphId with
  | some _, some g => some (.graph g)
  | some _, none => none
  | none, _ => t.workflow

/-- Write columns of one attempt row, addressed by its primary key. -/
def updateAttempt (t : QraftTask) (id : AttemptId) (f : QraftTaskAttempt → QraftTaskAttempt) :
    QraftTask :=
  { t with attempts := Rows.updateWhere (fun a => a.id = id) f t.attempts }

@[simp] theorem updateAttempt_id (t : QraftTask) (id : AttemptId)
    (f : QraftTaskAttempt → QraftTaskAttempt) : (t.updateAttempt id f).id = t.id := rfl
@[simp] theorem updateAttempt_status (t : QraftTask) (id : AttemptId)
    (f : QraftTaskAttempt → QraftTaskAttempt) : (t.updateAttempt id f).status = t.status := rfl
@[simp] theorem updateAttempt_retryPolicy (t : QraftTask) (id : AttemptId)
    (f : QraftTaskAttempt → QraftTaskAttempt) :
    (t.updateAttempt id f).retryPolicy = t.retryPolicy := rfl

/-- `qraft_task.save(update_fields=["status", "date_updated"])`. -/
def setStatus (t : QraftTask) (status : TaskStatus) (now : Time) : QraftTask :=
  { t with status, dateUpdated := now }

@[simp] theorem setStatus_id (t : QraftTask) (s : TaskStatus) (now : Time) :
    (t.setStatus s now).id = t.id := rfl
@[simp] theorem setStatus_status (t : QraftTask) (s : TaskStatus) (now : Time) :
    (t.setStatus s now).status = s := rfl
@[simp] theorem setStatus_attempts (t : QraftTask) (s : TaskStatus) (now : Time) :
    (t.setStatus s now).attempts = t.attempts := rfl
@[simp] theorem setStatus_retryPolicy (t : QraftTask) (s : TaskStatus) (now : Time) :
    (t.setStatus s now).retryPolicy = t.retryPolicy := rfl

end QraftTask

/-- The task table, with the next unused id (`uuid4`). -/
structure TaskStore where
  tasks : List QraftTask := []
  nextId : Nat := 0

namespace TaskStore

def task? (st : TaskStore) (id : TaskId) : Option QraftTask :=
  Rows.get? (fun t : QraftTask => t.id) st.tasks id

def save (st : TaskStore) (t : QraftTask) : TaskStore :=
  { st with tasks := Rows.updateWhere (fun r => r.id = t.id) (fun _ => t) st.tasks }

/-- Draw an unused id. -/
def fresh (st : TaskStore) : TaskStore := { st with nextId := st.nextId + 1 }

@[simp] theorem fresh_tasks (st : TaskStore) : st.fresh.tasks = st.tasks := rfl
@[simp] theorem fresh_nextId (st : TaskStore) : st.fresh.nextId = st.nextId + 1 := rfl
@[simp] theorem save_nextId (st : TaskStore) (t : QraftTask) : (st.save t).nextId = st.nextId := rfl

end TaskStore
end Qraft
