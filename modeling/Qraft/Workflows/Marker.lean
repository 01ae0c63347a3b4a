import Qraft.Workflows.ChainStages
import Qraft.Workflows.ParallelCounts

/-! The settlement marker of chains, iters and batches agrees with their status. -/
namespace Qraft

namespace WorkflowRow
variable {w : WorkflowRow}

theorem Marked.settledAt_eq_none (h : w.Marked) (ht : ¬ w.status.Terminal) : w.settledAt = none := by
  by_contra hs
  exact ht (h.mp hs)

theorem marked_of_open (hs : w.settledAt = none) (ht : ¬ w.status.Terminal) : w.Marked :=
  ⟨fun h => absurd hs h, fun h => absurd h ht⟩

theorem marked_of_terminal (hs : w.settledAt ≠ none) (ht : w.status.Terminal) : w.Marked :=
  ⟨fun _ => ht, fun _ => hs⟩

end WorkflowRow

theorem QraftParallelModel.outcome_terminal (m : QraftParallelModel) : m.outcome.Terminal := by
  rcases m.outcome_cases with ⟨h, -⟩ | ⟨h, -⟩
  · exact .inl h
  · exact .inr (.inl h)

namespace ChainState

/-- What keeps the marker of a chain: `run` through a handle that shows PENDING finds a row that
has not ended, and `approve` finds the row not FAILED. -/
def sparesMarker (s : ChainState) : ChainEvent → Bool
  | .run h _ => s.handles[h]?.all fun x => x.status ≠ .pending || ¬ s.chain.status.Terminal
  | .approve _ _ => s.chain.status ≠ .failed
  | _ => true

private theorem marked_effect {defaults : RetryDefaults} {limit : Nat} {s t : ChainState} {env : Env}
    {e : ChainEvent} (h : ChainEffect defaults limit s env e t) (hs : s.chain.Marked)
    (hok : s.sparesMarker e = true) : t.chain.Marked := by
  have hrunning : ¬ WorkflowStatus.running.Terminal := by decide
  have hrun {h : Nat} {raises : Option QraftError} {x : ChainHandle} (hx : s.handles[h]? = some x)
      (hp : x.status = .pending) (hok : s.sparesMarker (.run h raises) = true) :
      s.chain.settledAt = none := by
    apply hs.settledAt_eq_none
    simpa [sparesMarker, hx, hp] using hok
  cases h with
  | quiet | table | routed | handled | announced | finished | crashed | raised | skipped | spared
  | advanced => exact hs
  | runGated hx hsteps hp hn hg =>
    have hopen : ¬ WorkflowStatus.waitingApproval.Terminal := by decide
    exact WorkflowRow.marked_of_open (hrun hx hp hok) hopen
  | run hx hsteps hp hn hg hm => exact WorkflowRow.marked_of_open (hrun hx hp hok) hrunning
  | resumed hx hp ht hm =>
    obtain ⟨-, rfl⟩ := WorkflowRow.transitionTo_ok ht
    exact WorkflowRow.marked_of_open rfl hrunning
  | approved ht hm =>
    have hne : s.chain.status ≠ .failed := by simpa [sparesMarker] using hok
    obtain ⟨hv, rfl⟩ := WorkflowRow.transitionTo_ok ht
    have hterm : ¬ s.chain.status.Terminal := by
      rcases WorkflowStatus.running_mem hv with h | h | h
      · rw [h]
        decide
      · rw [h]
        decide
      · exact absurd h hne
    exact WorkflowRow.marked_of_open (hs.settledAt_eq_none hterm) hrunning
  | rejected ht =>
    obtain ⟨-, rfl⟩ := WorkflowRow.transitionTo_ok ht
    exact WorkflowRow.marked_of_terminal (Option.some_ne_none _) (.inr (.inr rfl))
  | cancelled hrow =>
    obtain ⟨-, -, rfl⟩ := WorkflowRow.cancel_eq_some hrow
    exact WorkflowRow.marked_of_terminal (Option.some_ne_none _) (.inr (.inr rfl))
  | succeeded hr hp hi hlast hrow =>
    obtain ⟨-, -, rfl⟩ := WorkflowRow.settleWorkflow_eq_some hrow
    exact WorkflowRow.marked_of_terminal (Option.some_ne_none _) (.inl rfl)
  | parked hr hp hi hnext hg ht =>
    obtain ⟨hv, rfl⟩ := WorkflowRow.transitionTo_ok ht
    have hterm : ¬ s.chain.status.Terminal := by
      rw [WorkflowStatus.waitingApproval_mem hv]
      decide
    have hopen : ¬ WorkflowStatus.waitingApproval.Terminal := by decide
    exact WorkflowRow.marked_of_open (hs.settledAt_eq_none hterm) hopen
  | failed hr hp hrow =>
    obtain ⟨-, -, rfl⟩ := WorkflowRow.settleWorkflow_eq_some hrow
    exact WorkflowRow.marked_of_terminal (Option.some_ne_none _) (.inr (.inl rfl))

theorem reach_marked {defaults : RetryDefaults} {limit : Nat} {s : ChainState}
    (h : (chainSystem defaults limit).ReachWhen (fun s e => s.sparesMarker e.1 = true) s) :
    s.chain.Marked := by
  apply StepSystem.ReachWhen.invariant (fun s : ChainState => s.chain.Marked) _ _ h
  · rintro s ⟨chain, hst, hnone, -, -, rfl⟩
    have hterm : ¬ chain.status.Terminal := by
      rw [hst]
      decide
    exact WorkflowRow.marked_of_open hnone hterm
  · rintro s ⟨e, env⟩ s' ih hok hstep
    obtain ⟨t, handles, he, rfl⟩ := step_effect hstep
    have ht := marked_effect he ih hok
    exact ht

end ChainState

namespace ParallelState

/-- What keeps the marker of an iter or batch: `run` through a handle that shows PENDING finds a
row that has not ended. -/
def sparesMarker (s : ParallelState) : ParallelEvent → Bool
  | .run h _ => s.handles[h]?.all fun x => x.status ≠ .pending || ¬ s.model.status.Terminal
  | _ => true

private theorem marked_effect {defaults : RetryDefaults} {limit : Nat} {s t : ParallelState} {env : Env}
    {e : ParallelEvent} (h : ParallelEffect defaults limit s env e t) (hs : s.model.Marked)
    (hok : s.sparesMarker e = true) : t.model.Marked := by
  cases h with
  | quiet | table | routed | handled | declined | skipped | counted | announced | finished | crashed =>
    exact hs
  | run hx hi hp ht =>
    obtain ⟨life, ms, -, rfl⟩ := fanOut_eq ht
    have hterm : ¬ s.model.status.Terminal := by simpa [sparesMarker, hx, hp] using hok
    have hrunning : ¬ WorkflowStatus.running.Terminal := by decide
    exact WorkflowRow.marked_of_open (hs.settledAt_eq_none hterm) hrunning
  | cancelled hrow =>
    obtain ⟨-, -, rfl⟩ := WorkflowRow.cancel_eq_some hrow
    exact WorkflowRow.marked_of_terminal (Option.some_ne_none _) (.inr (.inr rfl))
  | completed hr hp hc hnew hfull hrow =>
    obtain ⟨-, -, rfl⟩ := WorkflowRow.settleWorkflow_eq_some hrow
    exact WorkflowRow.marked_of_terminal (Option.some_ne_none _) (QraftParallelModel.outcome_terminal _)

theorem reach_marked {defaults : RetryDefaults} {limit : Nat} {s : ParallelState}
    (h : (parallelSystem defaults limit).ReachWhen (fun s e => s.sparesMarker e.1 = true) s) :
    s.model.Marked := by
  apply StepSystem.ReachWhen.invariant (fun s : ParallelState => s.model.Marked) _ _ h
  · rintro s ⟨model, hst, hnone, -, -, -, -, rfl⟩
    have hterm : ¬ model.status.Terminal := by
      rw [hst]
      decide
    exact WorkflowRow.marked_of_open hnone hterm
  · rintro s ⟨e, env⟩ s' ih hok hstep
    obtain ⟨t, handles, he, rfl⟩ := step_effect hstep
    have ht := marked_effect he ih hok
    exact ht

end ParallelState

/-- Where no ended workflow is run and no failed chain is approved, a workflow of any kind is
marked settled exactly when it has ended, and until then it can be settled and cancelled. -/
theorem marker_agrees (defaults : RetryDefaults) (limit : Nat) :
    (∀ s, (chainSystem defaults limit).ReachWhen (fun s e => s.sparesMarker e.1 = true) s →
      s.chain.Marked ∧ (¬ s.chain.status.Terminal → ∀ status now,
        (s.chain.settleWorkflow status now).isSome ∧ (s.chain.cancel now).isSome)) ∧
    ∀ s, (parallelSystem defaults limit).ReachWhen (fun s e => s.sparesMarker e.1 = true) s →
      s.model.Marked ∧ (¬ s.model.status.Terminal → ∀ status now,
        (s.model.settleWorkflow status now).isSome ∧ (s.model.cancel now).isSome) := by
  constructor
  · intro s hr
    have hm := ChainState.reach_marked hr
    exact ⟨hm, fun ht status now => hm.open ht status now⟩
  · intro s hr
    have hm := ParallelState.reach_marked hr
    exact ⟨hm, fun ht status now => hm.open ht status now⟩

theorem marker_agrees_runs :
    (∃ s : ChainState, (chainSystem {} 1).ReachWhen (fun s e => s.sparesMarker e.1 = true) s ∧
      s.chain.status = .failed ∧ s.chain.settledAt ≠ none) ∧
    ∃ s : ParallelState, (parallelSystem {} 1).ReachWhen (fun s e => s.sparesMarker e.1 = true) s ∧
      s.model.status = .running ∧ (s.model.cancel 9).isSome := by
  constructor
  · obtain ⟨s, hr, hp⟩ := StepSystem.exists_reach_of_run
      ((chainSystem {} 1).guard fun s e => s.sparesMarker e.1 = true)
      (ChainState.firstFails ChainState.plainStep) (.init (ChainState.created_init {} 1))
      (fun s => s.chain.status = .failed) (by decide)
    have hr := StepSystem.reachWhen_of_guard hr
    have hst := of_decide_eq_true hp
    exact ⟨s, hr, hst, ((marker_agrees {} 1).1 s hr).1.mpr (.inr (.inl hst))⟩
  · obtain ⟨s, hr, hp⟩ := StepSystem.exists_reach_of_run
      ((parallelSystem {} 1).guard fun s e => s.sparesMarker e.1 = true)
      ParallelState.firstCounted (.init (ParallelState.created_init {} 1))
      (fun s => s.model.status = .running) (by decide)
    have hr := StepSystem.reachWhen_of_guard hr
    have hst := of_decide_eq_true hp
    have hterm : ¬ s.model.status.Terminal := by
      rw [hst]
      decide
    exact ⟨s, hr, hst, (((marker_agrees {} 1).2 s hr).2 hterm .failed 9).2⟩

/-- A failed chain that is approved runs with its marker set: it can neither settle nor be
cancelled. So does a batch that is run through an old handle after it was cancelled. -/
theorem approved_unsettleable :
    (∃ s : ChainState, (chainSystem {} 1).Reach s ∧ s.chain.status = .running ∧
      s.chain.settledAt ≠ none ∧ s.chain.settleWorkflow .succeeded 9 = none ∧ s.chain.cancel 9 = none) ∧
    ∃ s : ParallelState, (parallelSystem {} 1).Reach s ∧ s.model.status = .running ∧
      s.model.settledAt ≠ none ∧ s.model.settleWorkflow .succeeded 9 = none ∧
      s.model.cancel 9 = none := by
  have hclosed {w : WorkflowRow} (h : w.settledAt ≠ none) :
      w.settleWorkflow .succeeded 9 = none ∧ w.cancel 9 = none :=
    ⟨if_neg fun hw => h hw.1, if_neg fun hw => h hw.2⟩
  constructor
  · obtain ⟨s, hr, hp⟩ := StepSystem.exists_reach_of_run (chainSystem {} 1)
      (ChainState.firstFails ChainState.plainStep ++ [ChainState.clock 4 (.approve 0 none)])
      (.init (ChainState.created_init {} 1))
      (fun s => s.chain.status = .running ∧ s.chain.settledAt ≠ none) (by decide)
    obtain ⟨hst, hset⟩ := of_decide_eq_true hp
    exact ⟨s, hr, hst, hset, hclosed hset⟩
  · obtain ⟨s, hr, hp⟩ := StepSystem.exists_reach_of_run (parallelSystem {} 1)
      [ParallelState.clock 1 (.load [{ func := "f" }]), ParallelState.clock 1 (.load []),
        ParallelState.clock 2 (.cancel 1 false), ParallelState.clock 3 (.run 0 none)]
      (.init (ParallelState.created_init {} 1))
      (fun s => s.model.status = .running ∧ s.model.settledAt ≠ none) (by decide)
    obtain ⟨hst, hset⟩ := of_decide_eq_true hp
    exact ⟨s, hr, hst, hset, hclosed hset⟩

end Qraft
