import Qraft.Lifecycle.Invariant

/-! The invariant over runs: numbering, at most one undecided attempt, and a status that
agrees with the latest attempt. -/
namespace Qraft
open AttemptHistory QraftTask

namespace Lifecycle

/-- Every state of a run in order is sound. -/
theorem reach_sound {limit : Nat} {l : Lifecycle} (h : (lifecycleSystem limit).ReachWhen InOrder l) :
    l.Sound := by
  apply h.invariant Sound
  · rintro l rfl
    refine ⟨⟨List.nodup_nil, ?_⟩, ?_, ?_, ?_⟩ <;> exact fun x hx => absurd hx List.not_mem_nil
  · intro l e l' hl hord hstep
    exact hl.next hord hstep

/-- In a run in which no requeue and no reap acts on a superseded read, the attempts of a
task are numbered from one on, only the latest can be undecided, and the status of the task
tells where its latest attempt stands. -/
theorem attempts_in_step {limit : Nat} {l : Lifecycle}
    (h : (lifecycleSystem limit).ReachWhen InOrder l) {t : QraftTask} (ht : t ∈ l.store.tasks) :
    (t.attempts.map fun a => a.attemptNumber) = List.range' 1 t.attempts.length ∧
    (∀ a ∈ t.attempts, a.success = none → ∀ b ∈ t.attempts, b ≠ a →
      b.success ≠ none ∧ b.attemptNumber < a.attemptNumber) ∧
    ∃ a, t.latestAttempt = some a ∧
      (t.status = .pending ↔ a.state = .scheduled ∧ a.success = none) ∧
      (t.status = .running ↔ a.state = .queued ∧ a.success = none) ∧
      (t.status = .succeeded → a.success = some true) ∧
      (t.status = .failed ∨ t.status = .exhausted → a.success = some false) := by
  have hc := (reach_sound h).coherent t ht
  refine ⟨hc.numbered, ?_, ?_⟩
  · intro a ha hn b hb hne
    have hlast := (hc.undecided ha hn).2.1
    have hle := (hc.number_bounds hb).2
    have hnum : b.attemptNumber ≠ a.attemptNumber := fun he => hne (hc.eq_of_number hb ha he)
    refine ⟨?_, by omega⟩
    intro hbn
    exact hnum ((hc.undecided hb hbn).2.1.trans hlast.symm)
  · obtain ⟨a, _, hla, _, hv, hst⟩ := hc.latestAttempt_eq
    refine ⟨a, hla, ?_⟩
    cases hs : t.status <;> cases ha : a.state <;> simp_all [TaskStatus.verdict]

def work : QraftTask := { id := 0, func := "app.work", dateUpdated := 0 }

def atTime (now : Time) (e : LifecycleEvent) : LifecycleEvent × Env := (e, { now })

/-- Two callers load a failed task, and each requeues it. -/
def requeuedTwice : List (LifecycleEvent × Env) := [
  atTime 1 (.asyncTask work none none),
  atTime 2 (.saveResult { id := 2, success := false, exceptionClass := some "ValueError", stopped := 2 }),
  atTime 2 (.handleResult 0),
  atTime 3 (.loadInstance 0),
  atTime 3 (.loadInstance 0),
  atTime 4 (.requeueCheck 0),
  atTime 4 (.requeueCommit 0),
  atTime 5 (.requeueCheck 0),
  atTime 5 (.requeueCommit 0)]

theorem attempts_in_step_requeued : ∃ l, (lifecycleSystem 1).ReachWhen InOrder l ∧
    ∃ t ∈ l.store.tasks, t.attempts.length = 2 ∧
      (t.attempts.map fun a => a.attemptNumber) = List.range' 1 t.attempts.length := by
  obtain ⟨l, hr, hp⟩ := StepSystem.exists_reach_of_run
    ((lifecycleSystem 1).guard InOrder) (requeuedTwice.take 7) (.init rfl)
    (fun l => l.store.tasks.any fun t => t.attempts.length = 2) (by decide)
  obtain ⟨t, ht, hlen⟩ := List.any_eq_true.mp hp
  have hreach := StepSystem.reachWhen_of_guard hr
  exact ⟨l, hreach, t, ht, of_decide_eq_true hlen, (attempts_in_step hreach ht).1⟩

theorem two_undecided_attempts : ∃ l, (lifecycleSystem 1).Reach l ∧ ∃ t ∈ l.store.tasks,
    ∃ a ∈ t.attempts, ∃ b ∈ t.attempts, a.attemptNumber ≠ b.attemptNumber ∧
      a.success = none ∧ b.success = none := by
  obtain ⟨l, hr, hp⟩ := StepSystem.exists_reach_of_run (lifecycleSystem 1)
    requeuedTwice (.init rfl)
    (fun l => l.store.tasks.any fun t => t.attempts.any fun a => t.attempts.any fun b =>
      a.attemptNumber ≠ b.attemptNumber ∧ a.success = none ∧ b.success = none) (by decide)
  obtain ⟨t, ht, hp⟩ := List.any_eq_true.mp hp
  obtain ⟨a, ha, hp⟩ := List.any_eq_true.mp hp
  obtain ⟨b, hb, hp⟩ := List.any_eq_true.mp hp
  exact ⟨l, hr, t, ht, a, ha, b, hb, of_decide_eq_true hp⟩

end Lifecycle
end Qraft
