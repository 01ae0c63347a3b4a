import Qraft.Foundations.Transaction
import Qraft.Scheduler

/-! How an attempt is decided and what its task does next: the worker's result, the
orphan reaper, the retry policy and the dead-letter queue. -/
namespace Qraft

/-- A saved Django-Q2 `Task` row, with what is read out of its result text. -/
structure Q2Task where
  id : Q2TaskId
  success : Bool
  /-- `_extract_exception_class(result)`. -/
  exceptionClass : Option String := none
  /-- `parse_retry_after(result)`. -/
  retryAfter : Option ℚ := none
  stopped : Time
  deriving DecidableEq

/-- What a process reads beside the rows: the clock, `random.random()`, its own cluster. -/
structure Env where
  now : Time
  draw : ℚ := 0
  executingCluster : String := "default"

/-- What is left to do once a transaction that resolves attempts has committed. -/
inductive Routing where
  /-- The attempt was resolved before; nothing was written. -/
  | dropped
  /-- A retry absorbs the failure. -/
  | absorbed
  /-- The task is decided, and its plan and hooks have to hear of it. -/
  | due
  deriving DecidableEq

def QraftTaskAttempt.decide (a : QraftTaskAttempt) (success : Bool) (exceptionClass : Option String)
    (dateCompleted : Time) : QraftTaskAttempt :=
  { a with success := some success, exceptionClass, dateCompleted := some dateCompleted }

namespace QraftTask

def markRouted (t : QraftTask) (id : AttemptId) : QraftTask :=
  t.updateAttempt id fun a => { a with routed := true }

def scheduleRetry (t : QraftTask) (policy : RetryPolicy) (currentAttempt : Nat)
    (retryAfter : Option ℚ) (isRateLimit : Bool) (newId : AttemptId) (env : Env) :
    Except QraftError QraftTask :=
  let delay := policy.calculateDelay env.draw currentAttempt retryAfter isRateLimit
  t.scheduleAttempt newId (currentAttempt + 1) (env.now + delay).toNat
    (orElse t.inheritedCluster (some env.executingCluster)) env.now

/-- `handle_task_retry`: the task, and whether a retry was scheduled. -/
def handleTaskRetry (t : QraftTask) (attemptNumber : Nat) (exceptionClass : Option String)
    (retryAfter : Option ℚ) (newId : AttemptId) (env : Env) : Except QraftError (QraftTask × Bool) :=
  match t.retryPolicy with
  | none => .ok (t, false)
  | some policy =>
    if policy.shouldRetry attemptNumber exceptionClass then
      let isRateLimit := policy.isRateLimit exceptionClass
      (·, true) <$> t.scheduleRetry policy attemptNumber
        (if isRateLimit then retryAfter else none) isRateLimit newId env
    else .ok (t.setStatus .exhausted env.now, false)

/-- The locked section of `qraft_hook_handler`, on the attempt its result belongs to. -/
def handleResult (t : QraftTask) (id : AttemptId) (result : Q2Task) (ownerCancelled : Bool)
    (newId : AttemptId) (env : Env) : Except QraftError (QraftTask × Routing) :=
  -- Compare-and-set: a late result for an attempt already settled is dropped.
  match t.attempts.find? fun a => a.id = id ∧ a.success = none with
  | none => .ok (t, .dropped)
  | some attempt =>
    let exceptionClass := if result.success then none else result.exceptionClass
    let resolved := (t.updateAttempt id fun a =>
      a.decide result.success exceptionClass result.stopped).setStatus
        (if result.success then .succeeded else .failed) env.now
    if result.success ∨ ownerCancelled then .ok (resolved, .due)
    else do
      let r ← resolved.handleTaskRetry attempt.attemptNumber exceptionClass result.retryAfter newId env
      return if r.2 then (r.1.markRouted id, .absorbed) else (r.1, .due)

/-- The re-checks of `_reap_one` under the task lock. `row` was read before the lock. -/
def reapable (t : QraftTask) (row : QraftTaskAttempt) (heartbeatCutoff : Time) (q2Row : Bool) : Bool :=
  row.success = none && t.status = .running &&
    (row.heartbeatAt.all fun h => h < heartbeatCutoff) && !q2Row

def resolveCommitted (t : QraftTask) (id : AttemptId) (env : Env) : QraftTask :=
  ((t.updateAttempt id fun a => a.decide true none env.now).setStatus .succeeded env.now).markRouted id

/-- How `_reap_one` tells its two failures apart. -/
def orphanException (row : QraftTaskAttempt) : String :=
  if row.returnedAt ≠ none then "ResultLost" else "OrphanedTask"

/-- The locked section of `_reap_one`, once its re-checks have passed. -/
def reap (t : QraftTask) (row : QraftTaskAttempt) (ownerCancelled : Bool) (newId : AttemptId)
    (env : Env) : Except QraftError (QraftTask × Routing) :=
  if row.outputCommittedAt ≠ none then .ok (t.resolveCommitted row.id env, .due)
  else
    let exceptionClass := some (orphanException row)
    let resolved := t.updateAttempt row.id fun a => a.decide false exceptionClass env.now
    let settle (t : QraftTask) : QraftTask × Routing :=
      -- `handle_task_retry` sets EXHAUSTED only when there is a policy.
      (if t.status = .running then t.setStatus .failed env.now else t, .due)
    if ownerCancelled then .ok (settle resolved)
    else do
      let r ← resolved.handleTaskRetry row.attemptNumber exceptionClass none newId env
      return if r.2 then (r.1.markRouted row.id, .absorbed) else settle r.1

end QraftTask

/-- What `dlq.requeue` goes on to insert, once its instance passed the check. -/
structure Requeue where
  task : TaskId
  attemptNumber : Nat
  cluster : Option String
  deriving DecidableEq

namespace QraftTask

/-- `dlq.requeue` up to `schedule_attempt`. The status is the instance's, the latest
attempt is queried. -/
def requeueCheck (instanceStatus : TaskStatus) (t : QraftTask) : Except QraftError Requeue :=
  if ¬ instanceStatus.Dead then
    let dead := pyReprList [TaskStatus.failed.value, TaskStatus.exhausted.value]
    .error (.valueError (s!"QraftTask {t.id} is {pyRepr instanceStatus.value}, not dead " ++
      s!"(expected one of {dead})"))
  else
    .ok {
      task := t.id
      attemptNumber := (t.latestAttempt.map fun a => a.attemptNumber).getD 0 + 1
      cluster := t.inheritedCluster }

/-- What a retry decision leaves: the task as it was, EXHAUSTED, or with one more attempt. -/
theorem handleTaskRetry_ok {t t' : QraftTask} {number : Nat} {exc : Option String}
    {retryAfter : Option ℚ} {newId : AttemptId} {env : Env} {scheduled : Bool}
    (h : t.handleTaskRetry number exc retryAfter newId env = .ok (t', scheduled)) :
    (scheduled = false ∧ (t' = t ∨ t' = t.setStatus .exhausted env.now)) ∨
    (scheduled = true ∧ ∃ policy notBefore cluster, t.retryPolicy = some policy ∧
      (number : Int) < policy.maxAttempts ∧
      t.scheduleAttempt newId (number + 1) notBefore cluster env.now = .ok t') := by
  unfold handleTaskRetry at h
  split at h
  · cases h
    exact .inl ⟨rfl, .inl rfl⟩
  · rename_i policy hp
    split at h
    · rename_i hretry
      obtain ⟨r, hr, he⟩ := Transaction.map_eq_ok.mp h
      cases he
      exact .inr ⟨rfl, policy, _, _, hp, RetryPolicy.shouldRetry_lt hretry, hr⟩
    · cases h
      exact .inl ⟨rfl, .inr rfl⟩

end QraftTask
end Qraft
