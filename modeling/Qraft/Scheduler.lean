import Qraft.Models.Tasks

/-! Attempts as rows: scheduling one, and the claim that hands a due one to the broker. -/
namespace Qraft

/-- What the claim stamps on the attempt it hands to the broker. -/
def QraftTaskAttempt.enqueue (a : QraftTaskAttempt) (claimedAt : Time) (q2TaskId : Q2TaskId)
    (executingCluster : String) : QraftTaskAttempt :=
  { a with
    state := .queued
    claimedAt := some claimedAt
    enqueuedAt := some claimedAt
    cluster := orElse a.cluster (some executingCluster)
    q2TaskId := some q2TaskId }

namespace QraftTask

/-- `_inherited_cluster`: where the most recent attempt was routed. -/
def inheritedCluster (t : QraftTask) : Option String := t.latestAttempt.bind fun a => a.cluster

/-- The SCHEDULED row `schedule_attempt` creates. -/
def newAttempt (t : QraftTask) (id : AttemptId) (attemptNumber : Nat) (notBefore : Time)
    (cluster : Option String) (now : Time) (dispatchFunc : Option String)
    (dispatchArgs : Option (List Json)) : QraftTaskAttempt where
  id := id
  attemptNumber := attemptNumber
  state := .scheduled
  notBefore := some notBefore
  cluster := cluster
  dispatchFunc := dispatchFunc
  dispatchArgs := dispatchArgs
  traceContext := t.latestAttempt.bind fun a => a.traceContext
  dateCreated := now

/-- `schedule_attempt`: insert the SCHEDULED attempt and return the task to PENDING.
The unique constraint refuses a number the task already has. -/
def scheduleAttempt (t : QraftTask) (id : AttemptId) (attemptNumber : Nat) (notBefore : Time)
    (cluster : Option String) (now : Time) (dispatchFunc : Option String := none)
    (dispatchArgs : Option (List Json) := none) : Except QraftError QraftTask :=
  if t.attempts.any fun a => a.attemptNumber = attemptNumber then
    .error (.integrityError "unique_attempt_per_task")
  else
    let attempt := t.newAttempt id attemptNumber notBefore cluster now dispatchFunc dispatchArgs
    .ok ({ t with attempts := t.attempts ++ [attempt] }.setStatus .pending now)

/-- `_claim_and_enqueue` on one due attempt: the compare-and-swap on `state`, the
stamps of the enqueue and the task's move to RUNNING commit together. -/
def claimAndEnqueue (t : QraftTask) (id : AttemptId) (cutoff claimedAt : Time)
    (q2TaskId : Q2TaskId) (executingCluster : String) : Option QraftTask := do
  let attempt ← t.attempts.find? fun a => a.id = id
  let notBefore ← attempt.notBefore
  guard (attempt.state = .scheduled ∧ notBefore ≤ cutoff)
  let claimed := t.updateAttempt id fun a => a.enqueue claimedAt q2TaskId executingCluster
  -- Scoped to PENDING, so that no delivery revives a settled task.
  return if claimed.status = .pending then claimed.setStatus .running claimedAt else claimed

/-- A scheduled attempt is one more row, after those the task had. -/
theorem scheduleAttempt_ok {t t' : QraftTask} {id : AttemptId} {number : Nat} {notBefore : Time}
    {cluster : Option String} {now : Time} {func : Option String} {args : Option (List Json)}
    (h : t.scheduleAttempt id number notBefore cluster now func args = .ok t') :
    (∀ a ∈ t.attempts, a.attemptNumber ≠ number) ∧
    ∃ a : QraftTaskAttempt, a.id = id ∧ a.attemptNumber = number ∧ a.state = .scheduled ∧
      a.success = none ∧ a.q2TaskId = none ∧ a.outputCommittedAt = none ∧
      t' = { t with attempts := t.attempts ++ [a], status := .pending, dateUpdated := now } := by
  unfold scheduleAttempt at h
  split at h
  · cases h
  · rename_i hu
    simp only [List.any_eq_true, decide_eq_true_eq, not_exists, not_and] at hu
    cases h
    exact ⟨hu, _, rfl, rfl, rfl, rfl, rfl, rfl, rfl⟩

theorem scheduleAttempt_attempts {t t' : QraftTask} {id : AttemptId} {number : Nat}
    {notBefore : Time} {cluster : Option String} {now : Time} {func : Option String}
    {args : Option (List Json)} (h : t.scheduleAttempt id number notBefore cluster now func args = .ok t') :
    t'.id = t.id ∧
      t'.attempts = t.attempts ++ [t.newAttempt id number notBefore cluster now func args] := by
  unfold scheduleAttempt at h
  split at h
  · cases h
  · cases h
    exact ⟨rfl, rfl⟩

theorem claimAndEnqueue_eq_some {t t' : QraftTask} {id : AttemptId} {cutoff claimedAt : Time}
    {q2TaskId : Q2TaskId} {cluster : String}
    (h : t.claimAndEnqueue id cutoff claimedAt q2TaskId cluster = some t') :
    (∃ a ∈ t.attempts, a.id = id ∧ a.state = .scheduled) ∧
      t' = (t.updateAttempt id fun a => a.enqueue claimedAt q2TaskId cluster).setStatus
        (if t.status = .pending then .running else t.status)
        (if t.status = .pending then claimedAt else t.dateUpdated) := by
  unfold claimAndEnqueue at h
  obtain ⟨a, ha, h⟩ := Option.bind_eq_some_iff.mp h
  obtain ⟨due, _, h⟩ := Option.bind_eq_some_iff.mp h
  obtain ⟨_, hg, h⟩ := Option.bind_eq_some_iff.mp h
  have hs : a.state = .scheduled ∧ due ≤ cutoff := by
    by_contra hc
    simp [guard, hc] at hg
  refine ⟨⟨a, List.mem_of_find?_eq_some ha, by simpa using List.find?_some ha, hs.1⟩, ?_⟩
  simp only [Option.pure_def, Option.some.injEq, updateAttempt_status] at h
  rw [← h]
  by_cases hp : t.status = .pending
  · simp [hp]
  · simp only [hp, if_false]
    rfl

end QraftTask
end Qraft
